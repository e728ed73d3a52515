import Mathlib

/-!
Serial numbers modulo a power of two. A wire field of `w` bits carries an
unbounded counter; the reader recovers the counter from a value it already
knows, as long as the two are less than half the space apart.
-/

namespace Mello.Library.Serial

variable {w : Nat}

/-- The signed distance from `b` to `a`: the difference read as a signed
`w`-bit number. -/
def ahead (a b : BitVec w) : Int := (a - b).toInt

/-- The counter value nearest to `anchor` whose low bits are `s`. -/
def unwrapNear (anchor : Int) (s : BitVec w) : Int :=
  anchor + ahead s (BitVec.ofInt w anchor)

@[simp] theorem ahead_self (a : BitVec w) : ahead a a = 0 := by
  simp [ahead]

theorem ahead_ofInt (x y : Int) :
    ahead (BitVec.ofInt w x) (BitVec.ofInt w y) = (x - y).bmod (2 ^ w) := by
  rw [ahead, BitVec.toInt_sub, BitVec.toInt_ofInt, BitVec.toInt_ofInt,
    Int.bmod_sub_bmod, Int.sub_bmod_bmod]

theorem ofInt_sub (x y : Int) : BitVec.ofInt w (x - y) = BitVec.ofInt w x - BitVec.ofInt w y := by
  rw [Int.sub_eq_add_neg, BitVec.ofInt_add, BitVec.ofInt_neg, BitVec.sub_eq_add_neg]

/-- Less than half the space apart, the signed distance is the true one. -/
theorem ahead_ofInt_of_near {x y : Int} (low : -(2 ^ w : Int) ≤ 2 * (x - y))
    (high : 2 * (x - y) < (2 ^ w : Int)) :
    ahead (BitVec.ofInt w x) (BitVec.ofInt w y) = x - y := by
  rw [ahead_ofInt]
  have cast : ((2 ^ w : Nat) : Int) = (2 ^ w : Int) := by norm_num
  apply Int.bmod_eq_of_le_mul_two <;> omega

theorem ofInt_unwrapNear (anchor : Int) (s : BitVec w) :
    BitVec.ofInt w (unwrapNear anchor s) = s := by
  rw [unwrapNear, BitVec.ofInt_add, ahead, BitVec.ofInt_toInt]
  exact add_sub_cancel _ _

theorem unwrapNear_sub_anchor (anchor : Int) (s : BitVec w) :
    unwrapNear anchor s - anchor = ahead s (BitVec.ofInt w anchor) := by
  rw [unwrapNear, add_sub_cancel_left]

/-- Unwrapping recovers any counter value less than half the space away. -/
theorem unwrapNear_ofInt {anchor value : Int} (low : -(2 ^ w : Int) ≤ 2 * (value - anchor))
    (high : 2 * (value - anchor) < (2 ^ w : Int)) :
    unwrapNear anchor (BitVec.ofInt w value) = value := by
  rw [unwrapNear, ahead_ofInt_of_near low high]
  omega

theorem two_mul_ahead_lt (a b : BitVec w) : 2 * ahead a b < (2 ^ w : Int) := by
  have bound := BitVec.two_mul_toInt_lt (x := a - b)
  simpa [ahead] using bound

theorem le_two_mul_ahead (a b : BitVec w) : -(2 ^ w : Int) ≤ 2 * ahead a b := by
  have bound := BitVec.le_two_mul_toInt (x := a - b)
  simpa [ahead] using bound

end Mello.Library.Serial
