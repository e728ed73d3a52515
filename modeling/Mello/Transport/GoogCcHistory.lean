import Mello.Transport.GoogCc

/-!
What the calls do to the history and the bytes in flight. Eviction, the scan for
lost reports and the matching of a report are chains of two small steps: a
record leaves from the front, or a record is marked reported. What these two
steps keep, every call keeps.
-/

namespace Mello.Transport.GoogCcHistory
open Mello.Library Twcc GoogCc GoogCcController

@[simp] theorem markReported_sequence (record : Record) :
    record.markReported.sequence = record.sequence := rfl

@[simp] theorem markReported_reported (record : Record) : record.markReported.reported = true := rfl

theorem markReported_of_reported {record : Record} (reported : record.reported = true) :
    record.markReported = record := by
  rw [Record.markReported, ← reported]

def sequences (history : List Record) : List Int := history.map Record.sequence

@[simp] theorem sequences_cons (record : Record) (rest : List Record) :
    sequences (record :: rest) = record.sequence :: sequences rest := rfl

@[simp] theorem sequences_append (front back : List Record) :
    sequences (front ++ back) = sequences front ++ sequences back := List.map_append

/-- The bytes of the records that are not reported. -/
def unreportedBytes (history : List Record) : Nat :=
  ((history.filter fun record => !record.reported).map Record.bytes).sum

theorem unreportedBytes_cons (record : Record) (rest : List Record) :
    unreportedBytes (record :: rest) =
      (if record.reported then 0 else record.bytes) + unreportedBytes rest := by
  by_cases reported : record.reported = true <;> simp [unreportedBytes, reported]

theorem unreportedBytes_append (front back : List Record) :
    unreportedBytes (front ++ back) = unreportedBytes front + unreportedBytes back := by
  simp [unreportedBytes]

/-! ## The two small steps -/

inductive Settle : List Record × Flight → List Record × Flight → Prop
  | drop (record : Record) (rest : List Record) (flight : Flight) :
      Settle (record :: rest, flight)
        (rest, if record.reported then flight else flight.release record.bytes)
  | report (front back : List Record) (record : Record) (flight : Flight) :
      record.reported = false →
      Settle (front ++ record :: back, flight)
        (front ++ record.markReported :: back, flight.release record.bytes)

abbrev Settles := Relation.ReflTransGen Settle

theorem evict_settles (nowUs : Int) (history : List Record) (flight : Flight) :
    Settles (history, flight) (evict nowUs history flight) := by
  induction history generalizing flight with
  | nil => exact .refl
  | cons record rest ih =>
    rw [evict]
    by_cases out : kMaxHistoryPackets < (record :: rest).length ∨
        record.sendTimeUs < nowUs - kHistoryUs
    · rw [if_pos out]
      exact .head (.drop record rest flight) (ih _)
    · rw [if_neg out]

theorem scanLost_settles (first : Int) (front history : List Record) (flight : Flight) :
    Settles (front ++ history, flight)
      (front ++ (scanLost first history flight).1, (scanLost first history flight).2) := by
  induction history generalizing front flight with
  | nil => exact .refl
  | cons record rest ih =>
    rw [scanLost]
    split_ifs with past reported
    · exact .refl
    · have later := ih (front ++ [record]) flight
      rw [List.append_assoc, List.append_assoc, List.singleton_append] at later
      rw [markReported_of_reported reported]
      simpa using later
    · have later := ih (front ++ [record.markReported]) (flight.release record.bytes)
      rw [List.append_assoc, List.append_assoc, List.singleton_append] at later
      exact .head (.report front rest record flight (by simpa using reported)) later

/-- A lookup that finds a record finds it in the history, under its sequence. -/
theorem of_find {history : List Record} {sequence : Int} {index : Nat} {record : Record}
    (found : find history sequence = .found index record) :
    history[index]? = some record ∧ record.sequence = sequence := by
  rw [find] at found
  split at found
  · split_ifs at found
    dsimp only at found
    split at found
    · cases found
    · split_ifs at found with same
      obtain ⟨rfl, rfl⟩ := Lookup.found.inj found
      exact ⟨by assumption, same⟩
  · cases found

theorem set_settle {history : List Record} {index : Nat} {record : Record} (flight : Flight)
    (found : history[index]? = some record) (fresh : record.reported = false) :
    Settle (history, flight) (history.set index record.markReported, flight.release record.bytes) := by
  obtain ⟨inside, rfl⟩ := List.getElem?_eq_some_iff.mp found
  have step := Settle.report (history.take index) (history.drop (index + 1)) history[index] flight fresh
  rwa [List.getElem_cons_drop, List.take_append_drop,
    ← (List.set_eq_take_append_cons_drop ..).trans (if_pos inside)] at step

theorem matchPackets_settles {newestSequence offsetUs : Int} {packets : List TwccPacketResult}
    {state final : Matching} (matched : matchPackets newestSequence offsetUs packets state = some final) :
    Settles (state.history, state.flight) (final.history, final.flight) := by
  induction packets generalizing state with
  | nil =>
    obtain rfl : state = final := Option.some.inj matched
    exact .refl
  | cons packet rest ih =>
    rw [matchPackets] at matched
    split at matched
    · cases matched
    · exact ih matched
    · rename_i index record found
      split_ifs at matched with reported
      · exact ih matched
      · exact .head (set_settle _ (of_find found).1 (by simpa using reported)) (ih matched)

theorem dropLost_settles (c : GoogCcController) (packets : List TwccPacketResult) :
    Settles (c.history, c.flight) ((c.dropLost packets).history, (c.dropLost packets).flight) := by
  rw [dropLost]
  split
  · exact .refl
  · rename_i front _
    have scan := scanLost_settles (unwrapSequence c.newestSequence front.sequence)
      (c.history.take (scanStart c.history c.scanFrom)) (c.history.drop (scanStart c.history c.scanFrom))
      c.flight
    rwa [List.take_append_drop] at scan

/-! ## What they keep -/

/-- The counter is the unreported bytes, and no subtraction so far was cut off at zero. -/
structure Balanced (state : List Record × Flight) : Prop where
  total : state.2.inFlightBytes = unreportedBytes state.1
  exact : ∀ operands ∈ state.2.releases, operands.2 ≤ operands.1

variable {state next : List Record × Flight}

theorem Balanced.release {flight : Flight} {bytes left : Nat} (total : flight.inFlightBytes = bytes + left)
    (exact : ∀ operands ∈ flight.releases, operands.2 ≤ operands.1) :
    (flight.release bytes).inFlightBytes = left ∧
      ∀ operands ∈ (flight.release bytes).releases, operands.2 ≤ operands.1 := by
  constructor
  · rw [Flight.release]
    dsimp only
    omega
  · intro operands member
    rcases List.mem_append.mp member with older | newer
    · exact exact operands older
    · obtain rfl := List.mem_singleton.mp newer
      dsimp only
      omega

theorem Settle.balanced (step : Settle state next) (balanced : Balanced state) : Balanced next := by
  obtain ⟨total, exact⟩ := balanced
  cases step with
  | drop record rest flight =>
    rw [unreportedBytes_cons] at total
    split_ifs at total ⊢ with reported
    · exact ⟨by simpa using total, exact⟩
    · obtain ⟨left, exact⟩ := Balanced.release total exact
      exact ⟨left, exact⟩
  | report front back record flight fresh =>
    rw [unreportedBytes_append, unreportedBytes_cons, if_neg (by simp [fresh])] at total
    have split : flight.inFlightBytes =
        record.bytes + (unreportedBytes front + unreportedBytes back) := by
      dsimp only at total
      omega
    obtain ⟨left, exact⟩ := Balanced.release split exact
    exact ⟨by rw [left, unreportedBytes_append, unreportedBytes_cons,
      if_pos (markReported_reported record), zero_add], exact⟩

theorem Settle.inFlightBytes_le (step : Settle state next) :
    next.2.inFlightBytes ≤ state.2.inFlightBytes := by
  cases step with
  | drop record rest flight =>
    split_ifs
    · exact le_rfl
    · exact Nat.sub_le _ _
  | report front back record flight fresh => exact Nat.sub_le _ _

theorem Settle.suffix (step : Settle state next) : sequences next.1 <:+ sequences state.1 := by
  cases step with
  | drop record rest flight => exact List.suffix_cons _ _
  | report front back record flight fresh => simp

/-- A record is the same as before, or the same with the reported mark. -/
def Ages (history later : List Record) : Prop :=
  ∀ record ∈ later, ∃ older ∈ history, record = older ∨ record = older.markReported

theorem Settle.ages (step : Settle state next) : Ages state.1 next.1 := by
  cases step with
  | drop record rest flight => exact fun other member => ⟨other, List.mem_cons_of_mem _ member, .inl rfl⟩
  | report front back record flight fresh =>
    intro other member
    simp only [List.mem_append, List.mem_cons] at member ⊢
    rcases member with before | rfl | after
    · exact ⟨other, .inl before, .inl rfl⟩
    · exact ⟨record, .inr (.inl rfl), .inr rfl⟩
    · exact ⟨other, .inr (.inr after), .inl rfl⟩

theorem Settles.balanced (steps : Settles state next) (balanced : Balanced state) : Balanced next := by
  induction steps with
  | refl => exact balanced
  | tail _ step ih => exact step.balanced ih

theorem Settles.inFlightBytes_le (steps : Settles state next) :
    next.2.inFlightBytes ≤ state.2.inFlightBytes := by
  induction steps with
  | refl => exact le_rfl
  | tail _ step ih => exact step.inFlightBytes_le.trans ih

theorem Settles.suffix (steps : Settles state next) : sequences next.1 <:+ sequences state.1 := by
  induction steps with
  | refl => exact List.suffix_rfl
  | tail _ step ih => exact step.suffix.trans ih

theorem Settles.ages (steps : Settles state next) : Ages state.1 next.1 := by
  induction steps with
  | refl => exact fun record member => ⟨record, member, .inl rfl⟩
  | tail _ step ih =>
    intro record member
    obtain ⟨middle, inMiddle, same | marked⟩ := step.ages record member
    · exact same ▸ ih middle inMiddle
    · obtain ⟨older, inOlder, source⟩ := ih middle inMiddle
      refine ⟨older, inOlder, .inr ?_⟩
      rcases source with rfl | rfl
      · exact marked
      · exact marked

/-- The records under a sequence are reported. -/
def Settled (history : List Record) (sequence : Int) : Prop :=
  ∀ record ∈ history, record.sequence = sequence → record.reported = true

theorem Ages.settled {history later : List Record} (ages : Ages history later) {sequence : Int}
    (settled : Settled history sequence) : Settled later sequence := by
  intro record member same
  obtain ⟨older, inside, rfl | rfl⟩ := ages record member
  · exact settled record inside same
  · rfl

/-! ## Order -/

/-- The sequences of the history increase up to the newest one. -/
structure Ordered (history : List Record) (newestSequence : Int) : Prop where
  increasing : (sequences history).Pairwise (· < ·)
  last : ∀ sequence, (sequences history).getLast? = some sequence → sequence = newestSequence

theorem Ordered.of_suffix {history later : List Record} {newestSequence : Int}
    (ordered : Ordered history newestSequence) (suffix : sequences later <:+ sequences history) :
    Ordered later newestSequence := by
  refine ⟨ordered.increasing.sublist suffix.sublist, fun sequence last => ordered.last sequence ?_⟩
  obtain ⟨front, whole⟩ := suffix
  rw [← whole, List.getLast?_append, last]
  rfl

theorem Ordered.le_newest {history : List Record} {newestSequence : Int}
    (ordered : Ordered history newestSequence) {record : Record} (member : record ∈ history) :
    record.sequence ≤ newestSequence := by
  have inside : record.sequence ∈ sequences history := List.mem_map_of_mem member
  have nonempty : sequences history ≠ [] := List.ne_nil_of_mem inside
  obtain ⟨front, final, shape⟩ := (List.eq_nil_or_concat' (sequences history)).resolve_left nonempty
  have last := ordered.last final (by rw [shape]; simp)
  have order := ordered.increasing
  rw [shape, List.pairwise_append] at order
  rw [shape] at inside
  rcases List.mem_append.mp inside with before | same
  · rw [← last]
    exact (order.2.2 _ before _ (by simp)).le
  · rw [List.mem_singleton.mp same, last]

theorem Ordered.push {history : List Record} {newestSequence : Int}
    (ordered : Ordered history newestSequence) {record : Record}
    (newer : newestSequence < record.sequence) :
    Ordered (history ++ [record]) record.sequence := by
  constructor
  · rw [sequences_append, List.pairwise_append]
    refine ⟨ordered.increasing, List.pairwise_singleton _ _, ?_⟩
    intro a member b new
    obtain ⟨older, inside, rfl⟩ := List.mem_map.mp member
    obtain rfl := List.mem_singleton.mp new
    exact (ordered.le_newest inside).trans_lt newer
  · intro sequence last
    simpa [sequences] using last.symm

/-- Two records with one sequence are one record. -/
theorem Ordered.index_unique {history : List Record} {newestSequence : Int}
    (ordered : Ordered history newestSequence) {i j : Nat} {a b : Record}
    (first : history[i]? = some a) (second : history[j]? = some b) (same : a.sequence = b.sequence) :
    i = j := by
  obtain ⟨hi, rfl⟩ := List.getElem?_eq_some_iff.mp first
  obtain ⟨hj, rfl⟩ := List.getElem?_eq_some_iff.mp second
  have order := ordered.increasing
  rw [sequences, List.pairwise_map, List.pairwise_iff_getElem] at order
  rcases Nat.lt_trichotomy i j with before | equal | after
  · exact absurd same (order i j hi hj before).ne
  · exact equal
  · exact absurd same (order j i hj hi after).ne'

/-! ## The evicted records -/

def Old (nowUs : Int) (record : Record) : Prop := record.sendTimeUs < nowUs - kHistoryUs

instance (nowUs : Int) (record : Record) : Decidable (Old nowUs record) :=
  inferInstanceAs (Decidable (_ < _))

/-- Eviction drops the first `count` records: each was over the limit or old,
and the next one is neither. -/
theorem evict_drop (nowUs : Int) (history : List Record) (flight : Flight) :
    ∃ count, (evict nowUs history flight).1 = history.drop count ∧
      (∀ i record, history[i]? = some record → i < count →
        kMaxHistoryPackets + i < history.length ∨ Old nowUs record) ∧
      ∀ record, history[count]? = some record →
        history.length ≤ kMaxHistoryPackets + count ∧ ¬Old nowUs record := by
  induction history generalizing flight with
  | nil => exact ⟨0, rfl, by simp, by simp⟩
  | cons record rest ih =>
    rw [evict]
    by_cases out : kMaxHistoryPackets < (record :: rest).length ∨
        record.sendTimeUs < nowUs - kHistoryUs
    · rw [if_pos out]
      obtain ⟨count, dropped, gone, kept⟩ :=
        ih (if record.reported then flight else flight.release record.bytes)
      refine ⟨count + 1, by simpa using dropped, ?_, ?_⟩
      · intro i other found before
        cases i with
        | zero =>
          obtain rfl : record = other := by simpa using found
          simpa [Old] using out
        | succ i =>
          rcases gone i other (by simpa using found) (by omega) with over_limit | old
          · rw [List.length_cons]
            exact .inl (by omega)
          · exact .inr old
      · intro other found
        have limit := kept other (by simpa using found)
        rw [List.length_cons]
        exact ⟨by omega, limit.2⟩
    · rw [if_neg out]
      refine ⟨0, rfl, fun i _ _ before => absurd before (Nat.not_lt_zero i), ?_⟩
      intro other found
      obtain rfl : record = other := by simpa using found
      push Not at out
      exact ⟨by simpa using out.1, by simpa [Old] using out.2⟩

theorem evict_length (nowUs : Int) (history : List Record) (flight : Flight) :
    (evict nowUs history flight).1.length ≤ kMaxHistoryPackets := by
  obtain ⟨count, dropped, -, kept⟩ := evict_drop nowUs history flight
  rw [dropped, List.length_drop]
  by_cases inside : count < history.length
  · have limit := (kept _ (List.getElem?_eq_getElem inside)).1
    omega
  · omega

end Mello.Transport.GoogCcHistory
