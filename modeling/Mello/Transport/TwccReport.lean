import Mello.Transport.TwccPlan

/-!
Every report parses back to its plan. The pending sequences always lie in a
window of half the sequence space, so the two scans over the unordered map find
its ends; the walk then covers a plan that tracks the pending arrivals.
-/

namespace Mello.Transport.TwccReport
open Mello.Library Twcc TwccChunks TwccPlan TwccFeedbackGenerator

/-! ## The window of pending sequences -/

/-- How far a sequence is past the start of a window. -/
def offset (start sequence : BitVec 16) : Nat := (sequence - start).toNat

/-- All pending sequences lie within less than half the space from `start` on. -/
def Window (pending : Pending) (start : BitVec 16) : Prop :=
  ∀ sequence ∈ pending, offset start sequence < 2 ^ 15

theorem ahead_eq_offset_sub {start a b : BitVec 16} (first : offset start a < 2 ^ 15)
    (second : offset start b < 2 ^ 15) :
    Serial.ahead a b = (offset start a : Int) - offset start b := by
  have same : a - b = BitVec.ofInt 16 ((offset start a : Int) - offset start b) := by
    rw [Serial.ofInt_sub]
    simp only [BitVec.ofInt_natCast, offset, BitVec.ofNat_toNat, BitVec.setWidth_eq]
    exact (sub_sub_sub_cancel_right a b start).symm
  rw [Serial.ahead, same, BitVec.toInt_ofInt]
  exact Int.bmod_eq_of_le_mul_two (by norm_num; omega) (by norm_num; omega)

theorem offset_sequenceAt {start : BitVec 16} {j : Nat} (small : j < 2 ^ 16) :
    offset start (sequenceAt start j) = j := by
  rw [offset, sequenceAt, add_sub_cancel_left, BitVec.toNat_ofNat, Nat.mod_eq_of_lt small]

theorem sequenceAt_offset (start sequence : BitVec 16) :
    sequenceAt start (offset start sequence) = sequence := by
  rw [sequenceAt, offset, BitVec.ofNat_toNat, BitVec.setWidth_eq]
  exact add_sub_cancel start sequence

theorem oldestOf_spec {start : BitVec 16} (first : BitVec 16) (sequences : List (BitVec 16))
    (inside : ∀ sequence ∈ first :: sequences, offset start sequence < 2 ^ 15) :
    oldestOf first sequences ∈ first :: sequences ∧
      ∀ sequence ∈ first :: sequences, offset start (oldestOf first sequences) ≤ offset start sequence := by
  induction sequences generalizing first with
  | nil => simp [oldestOf]
  | cons next rest ih =>
    have near := inside first (by simp)
    have near' := inside next (by simp)
    have step : oldestOf first (next :: rest) =
        oldestOf (if Serial.ahead next first < 0 then next else first) rest := rfl
    rw [step]
    split_ifs with older <;> rw [ahead_eq_offset_sub near' near] at older
    · obtain ⟨member, least⟩ := ih next fun sequence within => inside sequence (List.mem_cons_of_mem _ within)
      refine ⟨List.mem_cons_of_mem _ member, ?_⟩
      intro sequence within
      rcases List.mem_cons.mp within with rfl | later
      · exact (least next List.mem_cons_self).trans (by omega)
      · exact least sequence later
    · obtain ⟨member, least⟩ := ih first fun sequence within => inside sequence (by
        rcases List.mem_cons.mp within with rfl | later <;> simp_all)
      refine ⟨by rcases List.mem_cons.mp member with same | later <;> simp_all, ?_⟩
      intro sequence within
      rcases List.mem_cons.mp within with rfl | later
      · exact least sequence List.mem_cons_self
      · rcases List.mem_cons.mp later with rfl | last
        · exact (least first List.mem_cons_self).trans (by omega)
        · exact least sequence (List.mem_cons_of_mem _ last)

theorem newestOf_spec {start : BitVec 16} (first : BitVec 16) (sequences : List (BitVec 16))
    (inside : ∀ sequence ∈ first :: sequences, offset start sequence < 2 ^ 15) :
    newestOf first sequences ∈ first :: sequences ∧
      ∀ sequence ∈ first :: sequences, offset start sequence ≤ offset start (newestOf first sequences) := by
  induction sequences generalizing first with
  | nil => simp [newestOf]
  | cons next rest ih =>
    have near := inside first (by simp)
    have near' := inside next (by simp)
    have step : newestOf first (next :: rest) =
        newestOf (if 0 < Serial.ahead next first then next else first) rest := rfl
    rw [step]
    split_ifs with newer <;> rw [ahead_eq_offset_sub near' near] at newer
    · obtain ⟨member, most⟩ := ih next fun sequence within => inside sequence (List.mem_cons_of_mem _ within)
      refine ⟨List.mem_cons_of_mem _ member, ?_⟩
      intro sequence within
      rcases List.mem_cons.mp within with rfl | later
      · exact le_trans (by omega) (most next List.mem_cons_self)
      · exact most sequence later
    · obtain ⟨member, most⟩ := ih first fun sequence within => inside sequence (by
        rcases List.mem_cons.mp within with rfl | later <;> simp_all)
      refine ⟨by rcases List.mem_cons.mp member with same | later <;> simp_all, ?_⟩
      intro sequence within
      rcases List.mem_cons.mp within with rfl | later
      · exact most sequence List.mem_cons_self
      · rcases List.mem_cons.mp later with rfl | last
        · exact le_trans (by omega) (most first List.mem_cons_self)
        · exact most sequence (List.mem_cons_of_mem _ last)

/-- The state of the generator between calls: after a report the pending
sequences are ahead of it; before the first one they fit in one window. -/
def Windowed (g : TwccFeedbackGenerator) : Prop :=
  if g.hasEmitted then ∀ sequence ∈ g.pending, 0 < Serial.ahead sequence g.lastEmittedSequence
  else ∃ start, Window g.pending start

theorem offset_succ_of_ahead {last sequence : BitVec 16} (later : 0 < Serial.ahead sequence last) :
    offset (last + 1) sequence < 2 ^ 15 - 1 ∧
      (offset (last + 1) sequence : Int) + 1 = Serial.ahead sequence last := by
  have high := Serial.two_mul_ahead_lt sequence last
  have value : BitVec.ofInt 16 (Serial.ahead sequence last) = sequence - last := by
    rw [Serial.ahead, BitVec.ofInt_toInt]
  have nat : offset (last + 1) sequence = (Serial.ahead sequence last - 1).toNat := by
    have shifted : sequence - (last + 1) = BitVec.ofInt 16 (Serial.ahead sequence last - 1) := by
      rw [Serial.ofInt_sub, value, sub_add_eq_sub_sub]
      rfl
    rw [offset, shifted, BitVec.toNat_ofInt, Int.emod_eq_of_lt (by omega) (by norm_num at high ⊢; omega)]
  norm_num at high
  omega

/-- The report starts right after the last one, or at the oldest pending
sequence; either way everything pending is in its window. -/
theorem window_reportBase {g : TwccFeedbackGenerator} (windowed : Windowed g) :
    Window g.pending g.reportBase := by
  intro sequence member
  by_cases emitted : g.hasEmitted = true
  · rw [Windowed, if_pos emitted] at windowed
    rw [reportBase, if_pos emitted]
    have near := (offset_succ_of_ahead (windowed sequence member)).1
    omega
  · rw [Windowed, if_neg emitted] at windowed
    obtain ⟨start, window⟩ := windowed
    rw [reportBase, if_neg emitted]
    cases keys : g.pending.keys with
    | nil =>
      rw [AList.mem_keys, keys] at member
      simp at member
    | cons first rest =>
      have inside : ∀ key ∈ first :: first :: rest, offset start key < 2 ^ 15 := by
        intro key within
        apply window key
        rw [AList.mem_keys, keys]
        simpa using within
      obtain ⟨found, least⟩ := oldestOf_spec first (first :: rest) inside
      have bound := least sequence (List.mem_cons_of_mem _ (by rw [← keys, ← AList.mem_keys]; exact member))
      have near := window sequence member
      have value := ahead_eq_offset_sub near (inside _ found)
      rw [List.headD_cons, offset]
      rw [Serial.ahead] at value
      have nonneg : 0 ≤ (sequence - oldestOf first (first :: rest)).toInt := by omega
      rw [BitVec.toInt_eq_toNat_cond] at nonneg value
      split_ifs at nonneg value with small <;> omega

theorem newestOf_mem {pending : Pending} {start : BitVec 16} (window : Window pending start) :
    ∀ sequence ∈ pending, offset start sequence ≤ offset start (newestOf start pending.keys) := by
  intro sequence member
  have inside : ∀ key ∈ start :: pending.keys, offset start key < 2 ^ 15 := by
    intro key within
    rcases List.mem_cons.mp within with rfl | later
    · simp [offset]
    · exact window key (AList.mem_keys.mpr later)
  exact (newestOf_spec start pending.keys inside).2 sequence
    (List.mem_cons_of_mem _ (AList.mem_keys.mp member))

/-- The span reaches every pending sequence and stays within half the space. -/
theorem span_spec {g : TwccFeedbackGenerator} (windowed : Windowed g) :
    g.span ≤ 2 ^ 15 ∧ ∀ sequence ∈ g.pending, offset g.reportBase sequence < g.span := by
  have window := window_reportBase windowed
  have inside : ∀ key ∈ g.reportBase :: g.pending.keys, offset g.reportBase key < 2 ^ 15 := by
    intro key within
    rcases List.mem_cons.mp within with rfl | later
    · simp [offset]
    · exact window key (AList.mem_keys.mpr later)
  have newest := inside _ (newestOf_spec g.reportBase g.pending.keys inside).1
  refine ⟨by rw [span]; exact newest, ?_⟩
  intro sequence member
  exact Nat.lt_succ_of_le (newestOf_mem window sequence member)

/-! ## The walk covers a plan -/

/-- After some steps of the walk: `reported` ends with a received packet (or is
empty), and `gap` missing sequences follow it. -/
structure Covers (pending : Pending) (base : BitVec 16) (startUs : Int) (walk : Walk)
    (reported : List Entry) (gap : Nat) : Prop where
  tracks : Tracks pending base startUs (reported ++ List.replicate gap none)
  symbols : walk.symbols = (reported ++ List.replicate gap none).map symbolOf
  deltas : walk.deltas = reported.flatMap fieldOf
  clock : walk.clockUs = startUs + units reported * kDeltaUnitUs
  emitCount : walk.emitCount = reported.length
  endsReceived : reported = [] ∨ ∃ front deltaUnits, reported = front ++ [some deltaUnits]
  sized : reported = [] ∨ (∃ n deltaUnits, reported = List.replicate n none ++ [some deltaUnits]) ∨
    20 + (reported.length + 6) / 7 * 2 + (reported.flatMap fieldOf).length ≤ kMaxReportBytes

/-- The first pending packet of the span arrived in the 64 ms of the reference. -/
def FirstNear (pending : Pending) (base : BitVec 16) (startUs : Int) : Prop :=
  ∀ k arrival, (∀ i < k, pending.lookup (sequenceAt base i) = none) →
    pending.lookup (sequenceAt base k) = some arrival →
    startUs ≤ arrival.atUs ∧ arrival.atUs < startUs + kReferenceTimeUnitUs

theorem Covers.skip {pending : Pending} {base : BitVec 16} {startUs : Int} {walk : Walk}
    {reported : List Entry} {gap : Nat} (covers : Covers pending base startUs walk reported gap)
    (absent : pending.lookup (sequenceAt base (reported.length + gap)) = none) :
    Covers pending base startUs { walk with symbols := walk.symbols ++ [kNotReceived] }
      reported (gap + 1) where
  tracks := by
    rw [List.replicate_succ', ← List.append_assoc, tracks_append]
    exact ⟨covers.tracks, by
      rw [List.length_append, List.length_replicate]
      exact ⟨absent, trivial⟩⟩
  symbols := by
    rw [List.replicate_succ', ← List.append_assoc, List.map_append, ← covers.symbols]
    rfl
  deltas := covers.deltas
  clock := covers.clock
  emitCount := covers.emitCount
  endsReceived := covers.endsReceived
  sized := covers.sized

theorem fieldOf_length (deltaUnits : Int) :
    (fieldOf (some deltaUnits)).length = if isSmall deltaUnits then 1 else 2 := by
  rw [fieldOf, deltaField]
  split_ifs <;> rfl

theorem Covers.receive {pending : Pending} {base : BitVec 16} {startUs : Int} {walk : Walk}
    {reported : List Entry} {gap : Nat} (covers : Covers pending base startUs walk reported gap)
    {arrival : Arrival}
    (present : pending.lookup (sequenceAt base (reported.length + gap)) = some arrival)
    {deltaUnits : Int}
    (quantised : deltaUnits = floorDiv (arrival.atUs - walk.clockUs) kDeltaUnitUs)
    (fits : Fits16 deltaUnits)
    (room : ¬(0 < walk.emitCount ∧ kMaxReportBytes < 20 + (walk.symbols.length + 1 + 6) / 7 * 2 +
      (walk.deltas.length + (if isSmall deltaUnits then 1 else 2)))) :
    Covers pending base startUs {
        clockUs := walk.clockUs + deltaUnits * kDeltaUnitUs
        symbols := walk.symbols ++ [if isSmall deltaUnits then kSmallDelta else kLargeDelta]
        deltas := walk.deltas ++ deltaField deltaUnits
        emitCount := walk.symbols.length + 1 }
      (reported ++ List.replicate gap none ++ [some deltaUnits]) 0 := by
  have count : walk.symbols.length = reported.length + gap := by
    rw [covers.symbols, List.length_map, List.length_append, List.length_replicate]
  have bytes : (reported ++ List.replicate gap none ++ [some deltaUnits]).flatMap fieldOf =
      walk.deltas ++ deltaField deltaUnits := by
    simp [covers.deltas, fieldOf]
  have total : units (reported ++ List.replicate gap none ++ [some deltaUnits]) =
      units reported + deltaUnits := by
    simp [units]
  constructor
  · have moved : startUs + units (reported ++ List.replicate gap none) * kDeltaUnitUs =
        walk.clockUs := by
      rw [units_append, units_replicate_none, add_zero, covers.clock]
    rw [List.replicate_zero, List.append_nil, tracks_append]
    refine ⟨covers.tracks, ?_⟩
    rw [List.length_append, List.length_replicate, moved]
    refine ⟨⟨arrival, present, fits, ?_⟩, trivial⟩
    rw [floorDiv_eq_ediv _ _ (by decide), kDeltaUnitUs] at quantised
    rw [kDeltaUnitUs]
    omega
  · rw [List.replicate_zero, List.append_nil, List.map_append, ← covers.symbols]
    rfl
  · exact bytes.symm
  · dsimp only
    rw [total, covers.clock]
    ring
  · simp [count, Nat.add_assoc]
  · exact Or.inr ⟨_, _, rfl⟩
  · right
    by_cases empty : reported = []
    · subst empty
      exact Or.inl ⟨gap, deltaUnits, rfl⟩
    · right
      have positive : 0 < walk.emitCount := by
        rw [covers.emitCount]
        exact List.length_pos_iff.mpr empty
      rw [bytes, List.length_append, List.length_append, List.length_append, List.length_replicate,
        List.length_singleton]
      have width := fieldOf_length deltaUnits
      rw [fieldOf] at width
      rw [count] at room
      have within := fun large => room ⟨positive, large⟩
      rw [width]
      omega

theorem tracks_replicate_none {pending : Pending} {base : BitVec 16} {startUs : Int} {gap : Nat}
    (tracks : Tracks pending base startUs (List.replicate gap none)) (i : Nat) (inside : i < gap) :
    pending.lookup (sequenceAt base i) = none := by
  have absent := tracks.isSome_iff i none (by rw [List.getElem?_replicate, if_pos inside])
  rw [AList.lookup_eq_none, ← absent]
  simp

/-- The rest of the walk keeps covering a plan, and ends with a received packet
as soon as one is left in the span. -/
theorem walkSpan_covers {pending : Pending} {base : BitVec 16} {startUs : Int}
    (near : FirstNear pending base startUs) (n : Nat) (walk : Walk) (reported : List Entry)
    (gap : Nat) (covers : Covers pending base startUs walk reported gap) :
    ∃ reported' gap',
      Covers pending base startUs
        (walkSpan pending base (List.range' (reported.length + gap) n) walk) reported' gap' ∧
      reported'.length ≤ reported.length + gap + n ∧
      (reported ≠ [] ∨
        (∃ k, reported.length + gap ≤ k ∧ k < reported.length + gap + n ∧
          sequenceAt base k ∈ pending) → reported' ≠ []) := by
  induction n generalizing walk reported gap with
  | zero =>
    refine ⟨reported, gap, covers, by omega, ?_⟩
    rintro (nonempty | ⟨k, low, high, -⟩)
    · exact nonempty
    · omega
  | succ n ih =>
    rw [List.range'_succ, walkSpan]
    cases present : pending.lookup (sequenceAt base (reported.length + gap)) with
    | none =>
      obtain ⟨reported', gap', covers', short, progress⟩ := ih _ _ _ (covers.skip present)
      refine ⟨reported', gap', covers', by omega, ?_⟩
      rintro (nonempty | ⟨k, low, high, member⟩)
      · exact progress (Or.inl nonempty)
      · refine progress (Or.inr ⟨k, ?_, by omega, member⟩)
        rcases Nat.eq_or_lt_of_le low with rfl | later
        · exact absurd member (AList.lookup_eq_none.mp present)
        · omega
    | some arrival =>
      dsimp only
      -- the first received packet always fits: its delta is under 64 ms
      have firstFits : reported = [] →
          Fits16 (floorDiv (arrival.atUs - walk.clockUs) kDeltaUnitUs) := by
        rintro rfl
        have early := near gap arrival
          (fun i inside => tracks_replicate_none (by simpa using covers.tracks) i inside)
          (by rwa [List.length_nil, Nat.zero_add] at present)
        have clock := covers.clock
        rw [units_nil, zero_mul, add_zero] at clock
        rw [floorDiv_eq_ediv _ _ (by decide), Fits16, clock, kDeltaUnitUs]
        rw [kReferenceTimeUnitUs] at early
        omega
      by_cases wide : floorDiv (arrival.atUs - walk.clockUs) kDeltaUnitUs < -32768 ∨
          32767 < floorDiv (arrival.atUs - walk.clockUs) kDeltaUnitUs
      · rw [if_pos wide]
        refine ⟨reported, gap, covers, by omega, fun _ empty => ?_⟩
        have fits := firstFits empty
        rw [Fits16] at fits
        omega
      rw [if_neg wide]
      by_cases full : 0 < walk.emitCount ∧
          kMaxReportBytes < 20 + (walk.symbols.length + 1 + 6) / 7 * 2 + (walk.deltas.length +
            (if isSmall (floorDiv (arrival.atUs - walk.clockUs) kDeltaUnitUs) then 1 else 2))
      · rw [if_pos full]
        refine ⟨reported, gap, covers, by omega, fun _ empty => ?_⟩
        rw [covers.emitCount, empty] at full
        exact absurd full.1 (lt_irrefl 0)
      · rw [if_neg full]
        have count : reported.length + gap + 1 =
            (reported ++ List.replicate gap none ++
              [some (floorDiv (arrival.atUs - walk.clockUs) kDeltaUnitUs)]).length + 0 := by
          simp [Nat.add_assoc]
        have fits : Fits16 (floorDiv (arrival.atUs - walk.clockUs) kDeltaUnitUs) := by
          rw [Fits16]
          omega
        obtain ⟨reported', gap', covers', short, progress⟩ :=
          ih _ _ _ (covers.receive present rfl fits full)
        rw [← count] at covers' short
        exact ⟨reported', gap', covers', by omega, fun _ => progress (Or.inl (by simp))⟩

/-- What one report says: its plan, and that the walk wrote it down. -/
structure Plan (g : TwccFeedbackGenerator) (plan : List Entry) : Prop where
  tracks : Tracks g.pending g.reportBase (g.referenceUnits * kReferenceTimeUnitUs) plan
  symbols : g.reportWalk.symbols.take g.reportWalk.emitCount = plan.map symbolOf
  deltas : g.reportWalk.deltas = plan.flatMap fieldOf
  emitCount : g.reportWalk.emitCount = plan.length
  endsReceived : ∃ front deltaUnits, plan = front ++ [some deltaUnits]
  sized : (∃ n deltaUnits, plan = List.replicate n none ++ [some deltaUnits]) ∨
    20 + (plan.length + 6) / 7 * 2 + (plan.flatMap fieldOf).length ≤ kMaxReportBytes
  short : plan.length ≤ 2 ^ 15

theorem findSome_range {α : Type} (f : Nat → Option α) (n k : Nat) (value : α) (inside : k < n)
    (before : ∀ i < k, f i = none) (here : f k = some value) :
    (List.range n).findSome? f = some value := by
  have split : List.range n = List.range k ++ k :: List.range' (k + 1) (n - (k + 1)) := by
    have joined := List.range'_append_1 (s := 0) (m := k) (n := n - (k + 1) + 1)
    rw [Nat.zero_add, show k + (n - (k + 1) + 1) = n by omega, List.range'_succ] at joined
    rw [List.range_eq_range', List.range_eq_range', joined]
  rw [split, List.findSome?_append, List.findSome?_eq_none_iff.mpr fun i member =>
    before i (List.mem_range.mp member)]
  simp [here]

theorem firstNear_reference {g : TwccFeedbackGenerator} (windowed : Windowed g) :
    FirstNear g.pending g.reportBase (g.referenceUnits * kReferenceTimeUnitUs) := by
  intro k arrival before present
  have member : sequenceAt g.reportBase k ∈ g.pending :=
    AList.lookup_isSome.mp (by rw [present]; rfl)
  have inside := (span_spec windowed).2 _ member
  have first : firstArrivalUs g.pending g.reportBase g.span = arrival.atUs := by
    -- a sequence past the span would wrap around to one before it
    have small : k < g.span := by
      by_contra far
      have wrapped := before (offset g.reportBase (sequenceAt g.reportBase k)) (by omega)
      rw [sequenceAt_offset, present] at wrapped
      cases wrapped
    rw [firstArrivalUs, findSome_range _ g.span k arrival small before present]
  rw [referenceUnits, first, floorDiv_eq_ediv _ _ (by decide), kReferenceTimeUnitUs]
  omega

theorem plan_exists {g : TwccFeedbackGenerator} (windowed : Windowed g)
    (nonempty : ∃ sequence, sequence ∈ g.pending) : ∃ plan, Plan g plan := by
  obtain ⟨sequence, member⟩ := nonempty
  have span := span_spec windowed
  have start : Covers g.pending g.reportBase (g.referenceUnits * kReferenceTimeUnitUs)
      { clockUs := g.referenceUnits * kReferenceTimeUnitUs } [] 0 :=
    ⟨trivial, rfl, rfl, by simp, rfl, Or.inl rfl, Or.inl rfl⟩
  obtain ⟨plan, gap, covers, short, progress⟩ :=
    walkSpan_covers (firstNear_reference windowed) g.span _ [] 0 start
  rw [List.length_nil, Nat.zero_add, ← List.range_eq_range'] at covers
  change Covers _ _ _ g.reportWalk plan gap at covers
  have reported : plan ≠ [] := progress (Or.inr ⟨offset g.reportBase sequence, by simp,
    by simpa using span.2 sequence member, by rwa [sequenceAt_offset]⟩)
  refine ⟨plan, ?_, ?_, covers.deltas, covers.emitCount, covers.endsReceived.resolve_left reported,
    covers.sized.resolve_left reported, by simpa using short.trans (by simpa using span.1)⟩
  · exact ((tracks_append _ _ _ _).mp covers.tracks).1
  · rw [covers.symbols, covers.emitCount, List.map_append]
    exact List.take_left' (List.length_map _)

end Mello.Transport.TwccReport
