import Mathlib

/-!
Envelopes over a list of levels. A ramp goes down to each level before it comes, and a follower goes
back up to 1 by a share of the rest with each step, but never over the level.
-/

namespace Mello.Library.Envelope

variable {K : Type*} [Field K] [LinearOrder K]

/-- A level, or less where the ramp ahead of it is more than the slope below it. -/
def under (slope level : K) : List K → K
  | [] => level
  | ahead :: _ => min level (ahead + slope)

def ramp (slope : K) : List K → List K
  | [] => []
  | level :: rest =>
    let later := ramp slope rest
    under slope level later :: later

/-- From `gain` on, up by a share `release` of what is missing to 1, and at most to the level. -/
def follow (release : K) : K → List K → List K
  | _, [] => []
  | gain, level :: rest =>
    let next := min (gain + (1 - gain) * release) level
    next :: follow release next rest

theorem ramp_cons (slope level : K) (rest : List K) : ramp slope (level :: rest) = under slope level (ramp slope rest) :: ramp slope rest := rfl

/-- The ramp falls by at most the slope. -/
theorem ramp_isChain (slope : K) (levels : List K) : (ramp slope levels).IsChain fun a b => a ≤ b + slope := by
  induction levels with
  | nil => exact .nil
  | cons level rest ih =>
    rw [ramp_cons]
    cases ahead : ramp slope rest with
    | nil => exact .singleton level
    | cons first later =>
      rw [ahead] at ih
      exact .cons_cons (min_le_right _ _) ih

/-- A follower of a ramp is under the levels of the ramp. -/
theorem follow_ramp_le (release gain slope : K) (levels : List K) :
    List.Forall₂ (· ≤ ·) (follow release gain (ramp slope levels)) levels := by
  induction levels generalizing gain with
  | nil => exact .nil
  | cons level rest ih =>
    rw [ramp_cons, follow]
    refine .cons ?_ (ih _)
    cases ramp slope rest with
    | nil => exact min_le_right _ _
    | cons first later => exact (min_le_right _ _).trans (min_le_left _ _)

theorem follow_replicate (release : K) (n : ℕ) : follow release 1 (List.replicate n 1) = List.replicate n 1 := by
  induction n with
  | zero => rfl
  | succ n ih =>
    rw [List.replicate_succ, follow, sub_self, zero_mul, add_zero, min_self, ih]

section Ordered

variable [IsStrictOrderedRing K]

theorem ramp_pos {slope : K} (rising : 0 < slope) {levels : List K} (pos : ∀ level ∈ levels, 0 < level) :
    ∀ level ∈ ramp slope levels, 0 < level := by
  induction levels with
  | nil => exact fun level member => absurd member List.not_mem_nil
  | cons level rest ih =>
    obtain ⟨first, later⟩ := List.forall_mem_cons.mp pos
    rw [ramp_cons]
    refine List.forall_mem_cons.mpr ⟨?_, ih later⟩
    cases ahead : ramp slope rest with
    | nil => exact first
    | cons next tail =>
      have above := ih later next (ahead ▸ List.mem_cons_self)
      exact lt_min first (by linarith)

/-- Where every level is 1, so is the ramp. -/
theorem ramp_replicate {slope : K} (rising : 0 < slope) (n : ℕ) : ramp slope (List.replicate n 1) = List.replicate n 1 := by
  induction n with
  | zero => rfl
  | succ n ih =>
    rw [List.replicate_succ, ramp_cons, ih]
    cases n with
    | zero => rfl
    | succ n =>
      rw [List.replicate_succ, under, min_eq_left (by linarith)]

variable {release gain : K} {levels : List K}

/-- A gain in `(0, 1]`. -/
def IsGain (gain : K) : Prop := 0 < gain ∧ gain ≤ 1

/-- Without a level in its way, a gain comes nearer to 1. -/
theorem IsGain.rise (isGain : IsGain gain) (nonneg : 0 ≤ release) (le_one : release ≤ 1) :
    gain ≤ gain + (1 - gain) * release ∧ gain + (1 - gain) * release ≤ 1 := by
  have rest : 0 ≤ 1 - gain := sub_nonneg.mpr isGain.2
  have more : 0 ≤ (1 - gain) * release := mul_nonneg rest nonneg
  have less : (1 - gain) * release ≤ 1 - gain := mul_le_of_le_one_right rest le_one
  constructor <;> linarith

theorem follow_isGain (nonneg : 0 ≤ release) (le_one : release ≤ 1) (isGain : IsGain gain) (pos : ∀ level ∈ levels, 0 < level) :
    ∀ g ∈ follow release gain levels, IsGain g := by
  induction levels generalizing gain with
  | nil => exact fun g member => absurd member List.not_mem_nil
  | cons level rest ih =>
    obtain ⟨first, later⟩ := List.forall_mem_cons.mp pos
    obtain ⟨up, top⟩ := isGain.rise nonneg le_one
    have next : IsGain (min (gain + (1 - gain) * release) level) :=
      ⟨lt_min (isGain.1.trans_le up) first, (min_le_left _ _).trans top⟩
    exact List.forall_mem_cons.mpr ⟨next, ih next later⟩

/-- Over levels that fall by at most the slope, so does the follower. -/
theorem follow_isChain {slope : K} (nonneg : 0 ≤ release) (le_one : release ≤ 1) (isGain : IsGain gain) (falling : 0 ≤ slope)
    (pos : ∀ level ∈ levels, 0 < level) (chain : levels.IsChain fun a b => a ≤ b + slope) :
    (follow release gain levels).IsChain fun a b => a - slope ≤ b := by
  induction levels generalizing gain with
  | nil => exact .nil
  | cons level rest ih =>
    obtain ⟨first, later⟩ := List.forall_mem_cons.mp pos
    obtain ⟨up, top⟩ := isGain.rise nonneg le_one
    have next : IsGain (min (gain + (1 - gain) * release) level) :=
      ⟨lt_min (isGain.1.trans_le up) first, (min_le_left _ _).trans top⟩
    cases rest with
    | nil => exact .singleton _
    | cons other rest =>
      obtain ⟨fall, tail⟩ := List.isChain_cons_cons.mp chain
      refine .cons_cons ?_ (ih next later tail)
      have again := (next.rise nonneg le_one).1
      have under : min (gain + (1 - gain) * release) level ≤ level := min_le_right _ _
      exact le_min (by linarith) (by linarith)

end Ordered

end Mello.Library.Envelope
