import Mello.Library.Envelope

/-!
The peak limiter of the clip mix, in exact arithmetic. The frames are pairs of a left and a right sample.
-/

namespace Mello.Replay.ClipLimiter
open Mello.Library Envelope

variable {K : Type*} [Field K] [LinearOrder K]

/-- The constants of the limiter, in their ranges. The lookahead is in frames. -/
structure Limits (K : Type*) [Field K] [LinearOrder K] where
  ceiling : K
  lookahead : K
  release : K
  ceiling_pos : 0 < ceiling
  lookahead_pos : 0 < lookahead
  release_nonneg : 0 ≤ release
  release_le_one : release ≤ 1

def kClipAudioRate : ℕ := 48000

/-- A ceiling of -1 dBFS, 5 ms of lookahead and 100 ms of release. -/
noncomputable def clipLimits : Limits ℝ where
  ceiling := 10 ^ (-1 / 20 : ℝ)
  lookahead := kClipAudioRate * 0.005
  release := 1 - Real.exp (-1 / (kClipAudioRate * 0.1))
  ceiling_pos := Real.rpow_pos_of_pos (by norm_num) _
  lookahead_pos := by norm_num [kClipAudioRate]
  release_nonneg := sub_nonneg.mpr (Real.exp_le_one_iff.mpr (by norm_num [kClipAudioRate]))
  release_le_one := sub_le_self 1 (Real.exp_pos _).le

variable (l : Limits K)

def peak (frame : K × K) : K := max |frame.1| |frame.2|

/-- The gain that a frame needs. -/
def needed (frame : K × K) : K := if l.ceiling < peak frame then l.ceiling / peak frame else 1

def target (stereo : List (K × K)) : List K := ramp (1 / l.lookahead) (stereo.map (needed l))

def gains (stereo : List (K × K)) : List K := follow l.release 1 (target l stereo)

def limit (stereo : List (K × K)) : List (K × K) :=
  List.zipWith (fun g frame => (frame.1 * g, frame.2 * g)) (gains l stereo) stereo

theorem gains_le_needed (stereo : List (K × K)) : List.Forall₂ (fun g frame => g ≤ needed l frame) (gains l stereo) stereo := by
  have levels : List.Forall₂ (· ≤ ·) (gains l stereo) (stereo.map (needed l)) := follow_ramp_le _ _ _ _
  exact List.forall₂_map_right_iff.mp levels

theorem limit_eq_map (stereo : List (K × K)) :
    limit l stereo = ((gains l stereo).zip stereo).map fun pair => (pair.2.1 * pair.1, pair.2.2 * pair.1) := by
  unfold limit
  rw [List.map_zip_eq_zipWith]
  rfl

section Gain

variable [IsStrictOrderedRing K]

theorem needed_pos (frame : K × K) : 0 < needed l frame := by
  unfold needed
  split_ifs with loud
  · exact div_pos l.ceiling_pos (l.ceiling_pos.trans loud)
  · exact one_pos

/-- With the gain that it needs, or less, a frame is within the ceiling. -/
theorem peak_mul_le {frame : K × K} {g : K} (le : g ≤ needed l frame) : peak frame * g ≤ l.ceiling := by
  have nonneg : 0 ≤ peak frame := (abs_nonneg _).trans (le_max_left _ _)
  unfold needed at le
  split_ifs at le with loud
  · exact (le_div_iff₀' (l.ceiling_pos.trans loud)).mp le
  · calc
      peak frame * g ≤ peak frame * 1 := mul_le_mul_of_nonneg_left le nonneg
      _ = peak frame := mul_one _
      _ ≤ l.ceiling := not_lt.mp loud

theorem abs_mul_le {frame : K × K} {g : K} (pos : 0 < g) (le : g ≤ needed l frame) :
    |frame.1 * g| ≤ l.ceiling ∧ |frame.2 * g| ≤ l.ceiling := by
  have bound := peak_mul_le l le
  have one {x : K} (within : |x| ≤ peak frame) : |x * g| ≤ l.ceiling := by
    rw [abs_mul, abs_of_pos pos]
    exact (mul_le_mul_of_nonneg_right within pos.le).trans bound
  exact ⟨one (le_max_left _ _), one (le_max_right _ _)⟩

theorem target_pos (stereo : List (K × K)) : ∀ level ∈ target l stereo, 0 < level := by
  refine ramp_pos (one_div_pos.mpr l.lookahead_pos) fun level member => ?_
  obtain ⟨frame, _, rfl⟩ := List.mem_map.mp member
  exact needed_pos l frame

theorem gains_isGain (stereo : List (K × K)) : ∀ g ∈ gains l stereo, IsGain g :=
  follow_isGain l.release_nonneg l.release_le_one ⟨one_pos, le_rfl⟩ (target_pos l stereo)

theorem gains_isChain (stereo : List (K × K)) : (gains l stereo).IsChain fun g next => g - 1 / l.lookahead ≤ next :=
  follow_isChain l.release_nonneg l.release_le_one ⟨one_pos, le_rfl⟩ (one_div_pos.mpr l.lookahead_pos).le
    (target_pos l stereo) (ramp_isChain _ _)

theorem gains_of_quiet {stereo : List (K × K)} (quiet : ∀ frame ∈ stereo, |frame.1| ≤ l.ceiling ∧ |frame.2| ≤ l.ceiling) :
    gains l stereo = List.replicate stereo.length 1 := by
  have flat : stereo.map (needed l) = List.replicate stereo.length 1 := by
    refine List.eq_replicate_iff.mpr ⟨List.length_map _, fun level member => ?_⟩
    obtain ⟨frame, here, rfl⟩ := List.mem_map.mp member
    exact if_neg (not_lt.mpr (max_le (quiet frame here).1 (quiet frame here).2))
  unfold gains target
  rw [flat, ramp_replicate (one_div_pos.mpr l.lookahead_pos), follow_replicate]

/-- What is limited is within the ceiling, with gains that do not step down, and what was within it stays
as it is. -/
theorem limit_spec (stereo : List (K × K)) :
    (limit l stereo).length = stereo.length ∧
    (∀ frame ∈ limit l stereo, |frame.1| ≤ l.ceiling ∧ |frame.2| ≤ l.ceiling) ∧
    (∀ g ∈ gains l stereo, 0 < g ∧ g ≤ 1) ∧
    (gains l stereo).IsChain (fun g next => g - 1 / l.lookahead ≤ next) ∧
    ((∀ frame ∈ stereo, |frame.1| ≤ l.ceiling ∧ |frame.2| ≤ l.ceiling) → limit l stereo = stereo) := by
  obtain ⟨same, under⟩ := List.forall₂_iff_zip.mp (gains_le_needed l stereo)
  refine ⟨?_, ?_, gains_isGain l stereo, gains_isChain l stereo, ?_⟩
  · rw [limit, List.length_zipWith, same, min_self]
  · intro frame member
    rw [limit_eq_map] at member
    obtain ⟨⟨g, source⟩, here, rfl⟩ := List.mem_map.mp member
    exact abs_mul_le l (gains_isGain l stereo g (List.of_mem_zip here).1).1 (under here)
  · intro quiet
    rw [limit, gains_of_quiet l quiet]
    refine List.ext_getElem (by rw [List.length_zipWith, List.length_replicate, min_self]) fun i inside there => ?_
    rw [List.getElem_zipWith, List.getElem_replicate, mul_one, mul_one]

end Gain

/-- Two peaks that overlap. -/
noncomputable def peaks : List (ℝ × ℝ) := [(1 / 2, 0), (0, 1), (-2, 1 / 3), (1 / 8, 0)]

theorem limit_spec_peaks :
    (limit clipLimits peaks).length = peaks.length ∧
    (∀ frame ∈ limit clipLimits peaks, |frame.1| ≤ 10 ^ (-1 / 20 : ℝ) ∧ |frame.2| ≤ 10 ^ (-1 / 20 : ℝ)) ∧
    (∀ g ∈ gains clipLimits peaks, 0 < g ∧ g ≤ 1) ∧
    (gains clipLimits peaks).IsChain (fun g next => g - 1 / clipLimits.lookahead ≤ next) ∧
    ((∀ frame ∈ peaks, |frame.1| ≤ 10 ^ (-1 / 20 : ℝ) ∧ |frame.2| ≤ 10 ^ (-1 / 20 : ℝ)) →
      limit clipLimits peaks = peaks) := limit_spec clipLimits peaks

end Mello.Replay.ClipLimiter
