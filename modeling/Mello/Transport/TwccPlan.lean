import Mello.Transport.TwccChunks

/-!
What a report says, before it is bytes: for each sequence of the span either
nothing or a whole number of 250 us units. The quantised clock of a plan runs
from the reference time, and a plan tracks the pending arrivals when every
delta is the floor of the distance from that clock. The walk of
`build_feedback` builds such a plan, and the parser's second pass reads it back.
-/

namespace Mello.Transport.TwccPlan
open Mello.Library Twcc TwccChunks TwccFeedbackGenerator

abbrev Entry := Option Int

def symbolOf : Entry → Byte
  | none => kNotReceived
  | some deltaUnits => if isSmall deltaUnits then kSmallDelta else kLargeDelta

def fieldOf : Entry → List Byte
  | none => []
  | some deltaUnits => deltaField deltaUnits

/-- The units a plan moves the clock by. -/
def units (plan : List Entry) : Int := (plan.map fun entry => entry.getD 0).sum

def Fits16 (deltaUnits : Int) : Prop := -32768 ≤ deltaUnits ∧ deltaUnits ≤ 32767

/-- Every entry of the plan agrees with the pending arrivals, on a clock that
starts at `clockUs`. -/
def Tracks (pending : Pending) : BitVec 16 → Int → List Entry → Prop
  | _, _, [] => True
  | sequence, clockUs, none :: rest =>
      pending.lookup sequence = none ∧ Tracks pending (sequence + 1) clockUs rest
  | sequence, clockUs, some deltaUnits :: rest =>
      (∃ arrival, pending.lookup sequence = some arrival ∧ Fits16 deltaUnits ∧
        0 ≤ arrival.atUs - (clockUs + deltaUnits * kDeltaUnitUs) ∧
        arrival.atUs - (clockUs + deltaUnits * kDeltaUnitUs) < kDeltaUnitUs) ∧
      Tracks pending (sequence + 1) (clockUs + deltaUnits * kDeltaUnitUs) rest

/-- What the second pass makes of a plan. -/
def parsed : BitVec 16 → Int → List Entry → List TwccPacketResult
  | _, _, [] => []
  | sequence, clockUs, none :: rest => { sequence } :: parsed (sequence + 1) clockUs rest
  | sequence, clockUs, some deltaUnits :: rest =>
      { sequence, received := true, arrivalTimeUs := clockUs + deltaUnits * kDeltaUnitUs } ::
        parsed (sequence + 1) (clockUs + deltaUnits * kDeltaUnitUs) rest

/-! ## Small facts -/

theorem floorDiv_eq_ediv (value divisor : Int) (positive : 0 < divisor) :
    floorDiv value divisor = value / divisor := by
  have sign : decide (divisor < 0) = false := by simpa using positive.le
  have split := Int.tmod_add_mul_tdiv value divisor
  have size := Int.tmod_lt_of_pos value positive
  have low := Int.lt_tmod_of_pos value positive
  rw [floorDiv, sign]
  symm
  rcases lt_or_ge value 0 with negative | nonneg
  · have remainder := Int.tmod_nonneg divisor (a := -value) (by omega)
    rw [Int.neg_tmod] at remainder
    by_cases exact : value.tmod divisor = 0
    · rw [if_neg (by simp [exact]), Int.ediv_eq_iff_of_pos positive]
      constructor <;> nlinarith
    · rw [if_pos ⟨exact, by simpa using negative⟩, Int.ediv_eq_iff_of_pos positive]
      have below : value.tmod divisor < 0 := lt_of_le_of_ne (by omega) exact
      constructor <;> nlinarith
  · have remainder : 0 ≤ value.tmod divisor := Int.tmod_nonneg divisor nonneg
    rw [if_neg (by simp [not_lt.mpr nonneg]), Int.ediv_eq_iff_of_pos positive]
    constructor <;> nlinarith

theorem isSymbol_symbolOf (entry : Entry) : IsSymbol (symbolOf entry) := by
  cases entry with
  | none => exact Or.inl rfl
  | some deltaUnits =>
    rw [symbolOf]
    split_ifs
    · exact Or.inr (Or.inl rfl)
    · exact Or.inr (Or.inr rfl)

theorem isSmall_iff (deltaUnits : Int) :
    isSmall deltaUnits = true ↔ 0 ≤ deltaUnits ∧ deltaUnits ≤ 255 := by
  simp [isSmall]

@[simp] theorem units_nil : units [] = 0 := rfl

theorem units_append (front back : List Entry) : units (front ++ back) = units front + units back := by
  simp [units]

@[simp] theorem units_replicate_none (gap : Nat) : units (List.replicate gap none) = 0 := by
  simp [units]

@[simp] theorem sequenceAt_zero (base : BitVec 16) : sequenceAt base 0 = base := by
  simp [sequenceAt]

theorem sequenceAt_succ (base : BitVec 16) (j : Nat) :
    sequenceAt (base + 1) j = sequenceAt base (j + 1) := by
  simp only [sequenceAt, BitVec.ofNat_add, BitVec.add_assoc, BitVec.add_comm (BitVec.ofNat 16 j)]
  rfl

/-! ## Tracking -/

theorem tracks_append {pending : Pending} (front back : List Entry) (sequence : BitVec 16)
    (clockUs : Int) :
    Tracks pending sequence clockUs (front ++ back) ↔
      Tracks pending sequence clockUs front ∧
      Tracks pending (sequenceAt sequence front.length)
        (clockUs + units front * kDeltaUnitUs) back := by
  induction front generalizing sequence clockUs with
  | nil => simp [Tracks]
  | cons entry front ih =>
    cases entry with
    | none =>
      simp only [List.cons_append, Tracks, ih, List.length_cons, sequenceAt_succ, and_assoc]
      simp [units]
    | some deltaUnits =>
      simp only [List.cons_append, Tracks, ih, List.length_cons, sequenceAt_succ, and_assoc]
      simp [units, add_mul, add_assoc]

/-- An entry of a tracking plan is present exactly when its sequence is pending. -/
theorem Tracks.isSome_iff {pending : Pending} {plan : List Entry} {sequence : BitVec 16}
    {clockUs : Int} (tracks : Tracks pending sequence clockUs plan) (i : Nat) (entry : Entry)
    (found : plan[i]? = some entry) :
    entry.isSome = true ↔ sequenceAt sequence i ∈ pending := by
  induction plan generalizing sequence clockUs i with
  | nil => simp at found
  | cons first rest ih =>
    cases i with
    | zero =>
      obtain rfl : first = entry := by simpa using found
      rw [sequenceAt_zero, ← AList.lookup_isSome]
      cases first with
      | none => simp [tracks.1]
      | some deltaUnits =>
        obtain ⟨⟨arrival, present, -⟩, -⟩ := tracks
        simp [present]
    | succ i =>
      rw [← sequenceAt_succ]
      cases first with
      | none => exact ih tracks.2 i (by simpa using found)
      | some deltaUnits => exact ih tracks.2 i (by simpa using found)

@[simp] theorem parsed_length (sequence : BitVec 16) (clockUs : Int) (plan : List Entry) :
    (parsed sequence clockUs plan).length = plan.length := by
  induction plan generalizing sequence clockUs with
  | nil => rfl
  | cons entry rest ih => cases entry <;> simp [parsed, ih]

theorem parsed_get (sequence : BitVec 16) (clockUs : Int) (plan : List Entry) (i : Nat)
    (result : TwccPacketResult) (found : (parsed sequence clockUs plan)[i]? = some result) :
    result.sequence = sequenceAt sequence i ∧
      ∃ entry, plan[i]? = some entry ∧ result.received = entry.isSome := by
  induction plan generalizing sequence clockUs i with
  | nil => simp [parsed] at found
  | cons first rest ih =>
    cases i with
    | zero =>
      cases first <;>
        · simp only [parsed, List.getElem?_cons_zero, Option.some.injEq] at found
          simp [← found]
    | succ i =>
      rw [← sequenceAt_succ]
      cases first <;>
        · simp only [parsed, List.getElem?_cons_succ] at found
          simpa using ih _ _ i found

/-- The parsed arrivals of a plan, on any clock: each is the floor of the true
arrival to the delta unit, up to the difference of the two clocks. -/
theorem Tracks.parsed_arrival {pending : Pending} {plan : List Entry} {sequence : BitVec 16}
    {clockUs : Int} (tracks : Tracks pending sequence clockUs plan) (readUs : Int) (i : Nat)
    (result : TwccPacketResult) (found : (parsed sequence readUs plan)[i]? = some result)
    (received : result.received = true) :
    ∃ arrival, pending.lookup result.sequence = some arrival ∧
      0 ≤ arrival.atUs - (result.arrivalTimeUs + (clockUs - readUs)) ∧
      arrival.atUs - (result.arrivalTimeUs + (clockUs - readUs)) < kDeltaUnitUs := by
  induction plan generalizing sequence clockUs readUs i with
  | nil => simp [parsed] at found
  | cons first rest ih =>
    cases first with
    | none =>
      cases i with
      | zero =>
        simp only [parsed, List.getElem?_cons_zero, Option.some.injEq] at found
        simp [← found] at received
      | succ i => exact ih tracks.2 readUs i (by simpa [parsed] using found)
    | some deltaUnits =>
      obtain ⟨⟨arrival, present, -, low, high⟩, later⟩ := tracks
      cases i with
      | zero =>
        simp only [parsed, List.getElem?_cons_zero, Option.some.injEq] at found
        subst found
        exact ⟨arrival, present, by dsimp only; omega, by dsimp only; omega⟩
      | succ i =>
        have next := ih later (readUs + deltaUnits * kDeltaUnitUs) i (by simpa [parsed] using found)
        rwa [add_sub_add_right_eq_sub] at next

/-! ## The second pass reads a plan back -/

theorem toNat_ofInt_small {deltaUnits : Int} (small : isSmall deltaUnits = true) :
    ((BitVec.ofInt 8 deltaUnits).toNat : Int) = deltaUnits := by
  rw [isSmall_iff] at small
  rw [BitVec.toNat_ofInt]
  omega

theorem toInt_ofInt_large {deltaUnits : Int} (fits : Fits16 deltaUnits) :
    (BitVec.ofInt 16 deltaUnits).toInt = deltaUnits := by
  obtain ⟨low, high⟩ := fits
  rw [BitVec.toInt_ofInt]
  exact Int.bmod_eq_of_le_mul_two (by norm_num; omega) (by norm_num; omega)

theorem readDeltas_plan {data rest : List Byte} {packetSize offset : Nat} (plan : List Entry)
    (sequence : BitVec 16) (clockUs : Int)
    (fits : ∀ deltaUnits, some deltaUnits ∈ plan → Fits16 deltaUnits)
    (here : data.drop offset = plan.flatMap fieldOf ++ rest)
    (inside : offset + (plan.flatMap fieldOf).length ≤ packetSize) :
    readDeltas data packetSize (plan.map symbolOf) sequence offset clockUs =
      .ok (parsed sequence clockUs plan) := by
  induction plan generalizing sequence clockUs offset with
  | nil => rfl
  | cons entry plan ih =>
    have fits' : ∀ deltaUnits, some deltaUnits ∈ plan → Fits16 deltaUnits :=
      fun deltaUnits member => fits deltaUnits (List.mem_cons_of_mem _ member)
    rw [List.flatMap_cons, List.append_assoc] at here
    rw [List.flatMap_cons, List.length_append] at inside
    cases entry with
    | none =>
      have next := ih (sequence + 1) clockUs fits' here (by simpa [fieldOf] using inside)
      simp only [List.map_cons, symbolOf, readDeltas, kNotReceived, parsed]
      rw [if_neg (by decide), if_neg (by decide), next]
      rfl
    | some deltaUnits =>
      by_cases small : isSmall deltaUnits = true
      · simp only [fieldOf, deltaField, small, ↓reduceIte, List.length_singleton] at here inside
        have next := ih (sequence + 1) (clockUs + deltaUnits * kDeltaUnitUs) fits'
          (drop_succ_of_drop here) (by omega)
        simp only [List.map_cons, symbolOf, small, ↓reduceIte, readDeltas, kSmallDelta, parsed]
        rw [if_neg (by omega), byteAt_of_drop here, ok_bind]
        rw [toNat_ofInt_small small, next]
        rfl
      · simp only [fieldOf, deltaField, small, Bool.false_eq_true, ↓reduceIte, u16Bytes_length]
          at here inside
        have next := ih (sequence + 1) (clockUs + deltaUnits * kDeltaUnitUs) fits'
          (drop_add_of_drop here) (by rw [u16Bytes_length]; omega)
        simp only [List.map_cons, symbolOf, small, Bool.false_eq_true, ↓reduceIte, readDeltas,
          kLargeDelta, parsed]
        rw [if_neg (by decide), if_neg (by omega), readU16_of_drop here, ok_bind]
        rw [toInt_ofInt_large (fits deltaUnits List.mem_cons_self)]
        rw [u16Bytes_length] at next
        rw [next]
        rfl

theorem Tracks.fits {pending : Pending} {plan : List Entry} {sequence : BitVec 16} {clockUs : Int}
    (tracks : Tracks pending sequence clockUs plan) (deltaUnits : Int)
    (member : some deltaUnits ∈ plan) : Fits16 deltaUnits := by
  induction plan generalizing sequence clockUs with
  | nil => simp at member
  | cons entry rest ih =>
    cases entry with
    | none => exact ih tracks.2 (by simpa using member)
    | some first =>
      obtain ⟨⟨-, -, here, -⟩, later⟩ := tracks
      rcases List.mem_cons.mp member with same | after
      · exact Option.some.inj same ▸ here
      · exact ih later after

end Mello.Transport.TwccPlan
