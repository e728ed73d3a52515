import Mello.Replay.Mp4Demux
import Mello.Replay.Mp4Write

/-!
NAL units between start codes and NAL units behind lengths. The writer turns the
first into the second, the demux turns them back with start codes of four bytes;
the NAL units stay the same, whatever start codes they came with.
-/

namespace Mello.Replay.AvccRoundTrip
open Mello.Library BigEndian Mp4Write Mp4Demux

/-! ## Start codes -/

theorem startCodeAt_ne_zero {data : List Byte} :
    startCodeAt data ≠ 0 ↔ [0, 0, 0, 1] <+: data ∨ [0, 0, 1] <+: data := by
  unfold startCodeAt
  split
  · simp
  · simp
  · rename_i long short
    refine iff_of_false (not_not_intro rfl) ?_
    rintro (⟨rest, rfl⟩ | ⟨rest, rfl⟩)
    · exact long rest rfl
    · exact short rest rfl

theorem startCodeAt_append {front : List Byte} (rest : List Byte) (starts : startCodeAt front ≠ 0) :
    startCodeAt (front ++ rest) ≠ 0 := by
  rw [startCodeAt_ne_zero] at starts ⊢
  exact starts.imp (·.trans (List.prefix_append front rest)) (·.trans (List.prefix_append front rest))

/-- A start code of four bytes makes none begin before it. -/
theorem startCodeAt_before {byte : Byte} {front : List Byte} (rest : List Byte)
    (none : startCodeAt (byte :: front) = 0) :
    startCodeAt ((byte :: front) ++ ([0, 0, 0, 1] ++ rest)) = 0 := by
  by_contra starts
  rw [← Ne, startCodeAt_ne_zero] at starts
  have apart := startCodeAt_ne_zero.not.mp (not_not_intro none)
  match front with
  | [] => simp at starts
  | [_] => simp at starts
  | [_, _] => simp at starts apart; tauto
  | _ :: _ :: _ :: _ => simp at starts apart; tauto

/-! ## NAL units -/

/-- A NAL unit that holds bytes and no start code. -/
def IsNal (nal : List Byte) : Prop := nal ≠ [] ∧ splitNal nal = (nal, [])

theorem splitNal_cons {byte : Byte} {rest : List Byte} (none : startCodeAt (byte :: rest) = 0) :
    splitNal (byte :: rest) = (byte :: (splitNal rest).1, (splitNal rest).2) := by
  rw [splitNal, if_neg (not_not_intro none)]

theorem splitNal_starts {byte : Byte} {rest : List Byte} (starts : startCodeAt (byte :: rest) ≠ 0) :
    splitNal (byte :: rest) = ([], byte :: rest) := by
  rw [splitNal, if_pos starts]

theorem splitNal_append (data : List Byte) : (splitNal data).1 ++ (splitNal data).2 = data := by
  induction data with
  | nil => rfl
  | cons byte rest ih =>
    by_cases starts : startCodeAt (byte :: rest) = 0
    · rw [splitNal_cons starts, List.cons_append, ih]
    · rw [splitNal_starts starts, List.nil_append]

/-- What the split takes holds no start code of its own. -/
theorem splitNal_first (data : List Byte) :
    splitNal (splitNal data).1 = ((splitNal data).1, []) := by
  induction data with
  | nil => rfl
  | cons byte rest ih =>
    by_cases starts : startCodeAt (byte :: rest) = 0
    · rw [splitNal_cons starts]
      have apart : startCodeAt (byte :: (splitNal rest).1) = 0 := by
        by_contra inner
        have outer := startCodeAt_append (splitNal rest).2 inner
        rw [List.cons_append, splitNal_append] at outer
        exact outer starts
      rw [splitNal_cons apart, ih]
    · rw [splitNal_starts starts]
      rfl

/-- The split ends at the next start code of four bytes, not before. -/
theorem splitNal_next {nal : List Byte} (rest : List Byte) (whole : splitNal nal = (nal, [])) :
    splitNal (nal ++ ([0, 0, 0, 1] ++ rest)) = (nal, [0, 0, 0, 1] ++ rest) := by
  induction nal with
  | nil => exact splitNal_starts (startCodeAt_ne_zero.mpr (.inl (List.prefix_append _ rest)))
  | cons byte front ih =>
    have apart : startCodeAt (byte :: front) = 0 := by
      by_contra starts
      rw [splitNal_starts starts] at whole
      cases whole
    rw [splitNal_cons apart, Prod.mk.injEq, List.cons.injEq] at whole
    have before := startCodeAt_before rest apart
    rw [List.cons_append] at before ⊢
    rw [splitNal_cons before, ih (Prod.ext whole.1.2 whole.2)]

theorem isNal_of_mem_nalsOf {data nal : List Byte} (member : nal ∈ nalsOf data) : IsNal nal := by
  induction data using nalsOf.induct with
  | case1 data none =>
    rw [nalsOf, if_pos none] at member
    cases member
  | case2 data starts split ih =>
    rw [nalsOf, if_neg starts] at member
    rcases List.mem_append.mp member with first | later
    · split_ifs at first with empty
      · cases first
      · rw [List.mem_singleton.mp first]
        exact ⟨empty, splitNal_first _⟩
    · exact ih later

/-! ## With start codes and with lengths -/

/-- The NAL units behind start codes of four bytes. -/
def withStartCodes (nals : List (List Byte)) : List Byte := nals.flatMap ([0, 0, 0, 1] ++ ·)

def withLengths (nals : List (List Byte)) : List Byte :=
  nals.flatMap fun nal => digits 4 nal.length ++ nal

theorem nalsOf_withStartCodes {nals : List (List Byte)} (valid : ∀ nal ∈ nals, IsNal nal) :
    nalsOf (withStartCodes nals) = nals := by
  induction nals with
  | nil =>
    rw [nalsOf]
    rfl
  | cons nal rest ih =>
    obtain ⟨some, whole⟩ := valid nal List.mem_cons_self
    have later := ih fun other member => valid other (List.mem_cons_of_mem _ member)
    have split : splitNal (nal ++ withStartCodes rest) = (nal, withStartCodes rest) := by
      cases rest with
      | nil =>
        rw [withStartCodes, List.flatMap_nil, List.append_nil]
        exact whole
      | cons next rest =>
        rw [withStartCodes, List.flatMap_cons, List.append_assoc]
        exact splitNal_next _ whole
    have code : startCodeAt ([0, 0, 0, 1] ++ nal ++ withStartCodes rest) = 4 := rfl
    have shape : withStartCodes (nal :: rest) = [0, 0, 0, 1] ++ nal ++ withStartCodes rest := List.flatMap_cons
    rw [shape, nalsOf, code, if_neg (by decide)]
    have dropped : ([0, 0, 0, 1] ++ nal ++ withStartCodes rest).drop 4 = nal ++ withStartCodes rest := rfl
    rw [dropped, split]
    dsimp only
    rw [if_neg some, later]
    rfl

theorem length_withLengths (nals : List (List Byte)) :
    (withLengths nals).length = (nals.map fun nal => 4 + nal.length).sum := by
  rw [withLengths, List.length_flatMap]
  congr 1
  apply List.map_congr_left
  intro nal _
  rw [List.length_append, length_digits]

theorem number_front {count : Nat} {field rest : List Byte} (size : field.length = count)
    (inside : 0 + count ≤ (field ++ rest).length) :
    number (Mp4Box.slice (field ++ rest) 0 count inside) = number field := by
  rw [Mp4Box.slice, List.drop_zero, List.take_left' size]

/-- The demux reads back every NAL unit whose length fits its field. -/
theorem annexBFrom_withLengths {nals : List (List Byte)} (some : ∀ nal ∈ nals, nal ≠ [])
    (fits : ∀ nal ∈ nals, nal.length < 2 ^ 32) :
    annexBFrom 4 (withLengths nals) = Option.some (withStartCodes nals) := by
  induction nals with
  | nil =>
    rw [annexBFrom]
    rfl
  | cons nal rest ih =>
    have later := ih (fun other member => some other (List.mem_cons_of_mem _ member))
      fun other member => fits other (List.mem_cons_of_mem _ member)
    have positive : 0 < nal.length := List.length_pos_iff.mpr (some nal List.mem_cons_self)
    have shape : withLengths (nal :: rest) = digits 4 nal.length ++ (nal ++ withLengths rest) := by
      rw [withLengths, List.flatMap_cons, List.append_assoc]
      rfl
    have width : (digits 4 nal.length).length = 4 := length_digits 4 _
    have length : (withLengths (nal :: rest)).length = 4 + nal.length + (withLengths rest).length := by
      rw [shape, List.length_append, List.length_append, width, Nat.add_assoc]
    have size : ∀ inside, number (Mp4Box.slice (withLengths (nal :: rest)) 0 4 inside) = nal.length := by
      rw [shape]
      intro inside
      rw [number_front width, number_digits (fits nal List.mem_cons_self)]
    have unit : ((withLengths (nal :: rest)).drop 4).take nal.length = nal := by
      rw [shape, List.drop_left' width, List.take_left]
    have next : (withLengths (nal :: rest)).drop (4 + nal.length) = withLengths rest := by
      rw [← List.drop_drop, shape, List.drop_left' width, List.drop_left]
    rw [annexBFrom, if_neg (by omega), dif_neg (by omega)]
    dsimp only
    rw [size, if_neg (by omega), unit, next, later]
    rfl

/-- The NAL units survive the round trip, when each fits the length of four bytes. -/
theorem avcc_round_trip (data : List Byte) (fits : ∀ nal ∈ nalsOf data, nal.length < 2 ^ 32) :
    avccSize data = (toAvcc data).length ∧
      ∃ annexB, avccToAnnexB (toAvcc data) 4 = some annexB ∧ nalsOf annexB = nalsOf data := by
  have valid : ∀ nal ∈ nalsOf data, IsNal nal := fun nal => isNal_of_mem_nalsOf
  refine ⟨(length_withLengths _).symm, withStartCodes (nalsOf data), ?_, nalsOf_withStartCodes valid⟩
  rw [avccToAnnexB, if_neg (by decide)]
  exact annexBFrom_withLengths (fun nal member => (valid nal member).1) fits

/-- NAL units behind both start codes, one that ends in zeros and an empty one. -/
def mixed : List Byte := [0, 0, 1, 0x67, 0, 0, 0, 0, 0, 1, 0x68, 0, 0, 1, 0, 0, 0, 1, 0x65, 0]

theorem avcc_round_trip_mixed :
    avccSize mixed = (toAvcc mixed).length ∧
      ∃ annexB, avccToAnnexB (toAvcc mixed) 4 = some annexB ∧ nalsOf annexB = nalsOf mixed :=
  avcc_round_trip mixed (by
    have found : nalsOf mixed = [[0x67, 0, 0], [0x68], [0x65, 0]] := by
      simp [nalsOf, mixed, startCodeAt, splitNal]
    rw [found]
    decide)

/-! ## A NAL unit too long for its length -/

theorem splitNal_ones (count : Nat) :
    splitNal (List.replicate count (1 : Byte)) = (List.replicate count 1, []) := by
  induction count with
  | zero => rfl
  | succ count ih =>
    have apart : startCodeAt ((1 : Byte) :: List.replicate count 1) = 0 := by
      by_contra starts
      rw [← Ne, startCodeAt_ne_zero] at starts
      simp at starts
    rw [List.replicate_succ, splitNal_cons apart, ih]

theorem nalsOf_ones {count : Nat} (positive : 0 < count) :
    nalsOf ([0, 0, 1] ++ List.replicate count 1) = [List.replicate count 1] := by
  obtain ⟨less, rfl⟩ := Nat.exists_eq_add_of_le' positive
  have code : startCodeAt ([0, 0, 1] ++ List.replicate (less + 1) (1 : Byte)) = 3 := rfl
  have dropped : ([0, 0, 1] ++ List.replicate (less + 1) (1 : Byte)).drop 3 = List.replicate (less + 1) 1 :=
    rfl
  rw [nalsOf, code, if_neg (by decide), dropped, splitNal_ones]
  dsimp only
  rw [if_neg (by simp), nalsOf]
  rfl

theorem refused_ones {count : Nat} (positive : 0 < count) (wraps : count % 2 ^ 32 = 0) :
    avccToAnnexB (toAvcc ([0, 0, 1] ++ List.replicate count 1)) 4 = none := by
  have width : (digits 4 count).length = 4 := length_digits 4 count
  have length : (digits 4 count ++ List.replicate count (1 : Byte)).length = 4 + count := by
    rw [List.length_append, width, List.length_replicate]
  rw [avccToAnnexB, if_neg (by decide), toAvcc, nalsOf_ones positive, List.flatMap_singleton,
    List.length_replicate, annexBFrom, if_neg (by omega), dif_neg (by omega)]
  dsimp only
  rw [number_front width, number_digits_mod]
  have zero : count % 256 ^ 4 = 0 := wraps
  rw [if_pos (Or.inl zero)]

/-- One NAL unit of 4 GiB: its length reads as 0, which the demux refuses. -/
theorem huge_nal_refused :
    ¬∀ data : List Byte, startCodeAt data ≠ 0 → nalsOf data ≠ [] →
      ∃ annexB, avccToAnnexB (toAvcc data) 4 = some annexB ∧ nalsOf annexB = nalsOf data := by
  intro always
  obtain ⟨annexB, accepted, -⟩ := always ([0, 0, 1] ++ List.replicate (2 ^ 32) 1)
    (startCodeAt_ne_zero.mpr (.inr (List.prefix_append _ _)))
    (by rw [nalsOf_ones (by decide)]; exact List.cons_ne_nil _ _)
  rw [refused_ones (by decide) (by decide)] at accepted
  cases accepted

end Mello.Replay.AvccRoundTrip
