import Mathlib

/-!
Fixed-width fields packed downwards into a word: field `i` stands at bit
`top - width * i`. Reading a field back needs only that the fields fit in their
width and that the header leaves their bits clear.
-/

namespace Mello.Library.BitFields

variable {n : Nat}

/-- The word of `width` ones. -/
def mask (n width : Nat) : BitVec n := BitVec.ofNat n (2 ^ width - 1)

/-- Field `i` of a word whose first field stands at bit `top`. -/
def field (width top : Nat) (word : BitVec n) (i : Nat) : BitVec n :=
  (word >>> (top - width * i)) &&& mask n width

/-- Ors the values into the word, one field each, from field `j` on. -/
def orFields (width top : Nat) : Nat → BitVec n → List (BitVec n) → BitVec n
  | _, word, [] => word
  | j, word, value :: rest =>
      orFields width top (j + 1) (word ||| (value <<< (top - width * j))) rest

theorem getLsbD_mask (width p : Nat) :
    (mask n width).getLsbD p = (decide (p < n) && decide (p < width)) := by
  rw [mask, BitVec.getLsbD_ofNat, Nat.testBit_two_pow_sub_one]

theorem getLsbD_eq_false_of_small {value : BitVec n} {width p : Nat}
    (small : value.toNat < 2 ^ width) (outside : width ≤ p) : value.getLsbD p = false := by
  rw [BitVec.getLsbD]
  apply Nat.testBit_lt_two_pow
  exact lt_of_lt_of_le small (Nat.pow_le_pow_right (by decide) outside)

/-- The fields from `j` on leave every higher bit as it was. -/
theorem getLsbD_orFields_above {width top : Nat} (values : List (BitVec n)) (j : Nat)
    (word : BitVec n) (small : ∀ value ∈ values, value.toNat < 2 ^ width)
    (room : width * (j + values.length) ≤ top + width) (p : Nat)
    (above : top + width - width * j ≤ p) :
    (orFields width top j word values).getLsbD p = word.getLsbD p := by
  induction values generalizing j word with
  | nil => rfl
  | cons value rest ih =>
    rw [List.length_cons, Nat.mul_add, Nat.mul_succ] at room
    have next : top + width - width * (j + 1) ≤ p := by rw [Nat.mul_succ]; omega
    have room' : width * (j + 1 + rest.length) ≤ top + width := by
      rw [Nat.mul_add, Nat.mul_succ]
      omega
    rw [orFields, ih (j + 1) _ (fun other member => small other (List.mem_cons_of_mem _ member))
      room' next,
      BitVec.getLsbD_or, BitVec.getLsbD_shiftLeft]
    have high : value.getLsbD (p - (top - width * j)) = false :=
      getLsbD_eq_false_of_small (small value List.mem_cons_self) (by omega)
    simp [high]

/-- Every packed field reads back as the value that was put there. -/
theorem field_orFields {width top : Nat} (values : List (BitVec n)) (j : Nat) (word : BitVec n)
    (small : ∀ value ∈ values, value.toNat < 2 ^ width)
    (clear : ∀ p, p < top + width - width * j → word.getLsbD p = false)
    (room : width * (j + values.length) ≤ top + width) (fits : top + width ≤ n)
    (i : Nat) (value : BitVec n) (found : values[i]? = some value) :
    field width top (orFields width top j word values) (j + i) = value := by
  induction values generalizing j word i with
  | nil => simp at found
  | cons first rest ih =>
    have small' : ∀ value ∈ rest, value.toNat < 2 ^ width :=
      fun other member => small other (List.mem_cons_of_mem _ member)
    rw [List.length_cons, Nat.mul_add, Nat.mul_succ] at room
    have room' : width * (j + 1 + rest.length) ≤ top + width := by
      rw [Nat.mul_add, Nat.mul_succ]
      omega
    cases i with
    | zero =>
      obtain rfl : first = value := by simpa using found
      apply BitVec.eq_of_getLsbD_eq
      intro p inside
      rw [Nat.add_zero, field, BitVec.getLsbD_and, BitVec.getLsbD_ushiftRight, getLsbD_mask, orFields]
      by_cases low : p < width
      · rw [getLsbD_orFields_above rest (j + 1) _ small' room' _ (by rw [Nat.mul_succ]; omega),
          BitVec.getLsbD_or, BitVec.getLsbD_shiftLeft, clear _ (by omega)]
        have position : top - width * j + p < n := by omega
        simp [low, inside, position]
      · rw [getLsbD_eq_false_of_small (small first List.mem_cons_self) (not_lt.mp low)]
        simp [low]
    | succ i =>
      have later : rest[i]? = some value := by simpa using found
      have step := ih (j + 1) (word ||| (first <<< (top - width * j))) small' (by
        intro p below
        rw [Nat.mul_succ] at below
        rw [BitVec.getLsbD_or, BitVec.getLsbD_shiftLeft, clear p (by omega)]
        simp
        omega) room' i later
      rw [orFields, show j + (i + 1) = j + 1 + i by omega]
      exact step

end Mello.Library.BitFields
