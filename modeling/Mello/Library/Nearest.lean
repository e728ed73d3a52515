import Mathlib

/-!
Rounding to the multiples of a step.
-/

namespace Mello.Library.Nearest

/-- The multiple next to a number, the upper one of two. -/
def nearest (step : ℕ) (x : ℚ) : ℕ := (round (x / step)).toNat * step

variable {step n : ℕ} {x y : ℚ}

theorem dvd_nearest (step : ℕ) (x : ℚ) : step ∣ nearest step x := Dvd.intro_left _ rfl

theorem round_mono (le : x ≤ y) : round x ≤ round y := by
  rw [round_eq, round_eq]
  exact Int.floor_mono (by linarith)

theorem nearest_mono (step : ℕ) (le : x ≤ y) : nearest step x ≤ nearest step y :=
  Nat.mul_le_mul_right _ (Int.toNat_le_toNat (round_mono (div_le_div_of_nonneg_right le (Nat.cast_nonneg _))))

theorem nearest_of_dvd (pos : 0 < step) (multiple : step ∣ n) : nearest step n = n := by
  obtain ⟨count, rfl⟩ := multiple
  have unit : (step : ℚ) ≠ 0 := Nat.cast_ne_zero.mpr pos.ne'
  rw [nearest, Nat.cast_mul, mul_div_cancel_left₀ _ unit, round_natCast, Int.toNat_natCast, mul_comm]

theorem nearest_le_of_le (pos : 0 < step) (multiple : step ∣ n) (le : x ≤ n) : nearest step x ≤ n :=
  (nearest_mono step le).trans_eq (nearest_of_dvd pos multiple)

/-- Numbers less than a step apart have multiples at most a step apart. -/
theorem nearest_le_add (pos : 0 < step) (near : x < y + step) : nearest step x ≤ nearest step y + step := by
  have unit : (0 : ℚ) < step := Nat.cast_pos.mpr pos
  have next : round (x / step) ≤ round (y / step) + 1 := by
    rw [← round_add_one]
    refine round_mono ?_
    rw [div_add_one unit.ne']
    exact div_le_div_of_nonneg_right near.le unit.le
  calc nearest step x ≤ ((round (y / step)).toNat + 1) * step := Nat.mul_le_mul_right _ (by omega)
    _ = nearest step y + step := by rw [Nat.add_mul, Nat.one_mul, nearest]

/-- A multiple is at most half a step away. -/
theorem abs_nearest_sub_le (pos : 0 < step) (nonneg : 0 ≤ x) : |(nearest step x : ℚ) - x| ≤ step / 2 := by
  have unit : (0 : ℚ) < step := Nat.cast_pos.mpr pos
  have whole : 0 ≤ round (x / step) := by
    rw [← round_zero (α := ℚ)]
    exact round_mono (by positivity)
  have cast : (nearest step x : ℚ) = round (x / step) * step := by
    rw [nearest, Nat.cast_mul]
    congr 1
    exact_mod_cast Int.toNat_of_nonneg whole
  have parts : (nearest step x : ℚ) - x = (round (x / step) - x / step) * step := by
    rw [cast, sub_mul, div_mul_cancel₀ _ unit.ne']
  rw [parts, abs_mul, abs_of_pos unit, abs_sub_comm]
  calc |x / step - round (x / step)| * step ≤ 1 / 2 * step := mul_le_mul_of_nonneg_right (abs_sub_round _) unit.le
    _ = step / 2 := by ring

end Mello.Library.Nearest
