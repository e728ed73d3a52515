import Mathlib

/-!
Words as bytes, the least significant first.
-/

namespace Mello.Library.LittleEndian

abbrev Byte := BitVec 8

def number : List Byte → Nat
  | [] => 0
  | byte :: rest => byte.toNat + 256 * number rest

/-- The lowest `count` bytes of a value. -/
def digits : Nat → Nat → List Byte
  | 0, _ => []
  | count + 1, value => BitVec.ofNat 8 value :: digits count (value / 256)

/-- The word that the bytes begin with. -/
def word (count : Nat) (bytes : List Byte) : BitVec (8 * count) := BitVec.ofNat _ (number (bytes.take count))

def wordBytes (count : Nat) (value : BitVec (8 * count)) : List Byte := digits count value.toNat

@[simp] theorem length_digits (count value : Nat) : (digits count value).length = count := by
  induction count generalizing value with
  | zero => rfl
  | succ count ih => rw [digits, List.length_cons, ih]

@[simp] theorem length_wordBytes (count : Nat) (value : BitVec (8 * count)) : (wordBytes count value).length = count :=
  length_digits count _

theorem number_digits (count value : Nat) : number (digits count value) = value % 256 ^ count := by
  induction count generalizing value with
  | zero => rw [digits, number, pow_zero, Nat.mod_one]
  | succ count ih =>
    rw [digits, number, ih, BitVec.toNat_ofNat, pow_succ' 256, Nat.mod_mul]

theorem number_lt (bytes : List Byte) : number bytes < 256 ^ bytes.length := by
  induction bytes with
  | nil => exact Nat.one_pos
  | cons byte rest ih =>
    have small := byte.isLt
    rw [number, List.length_cons, pow_succ]
    omega

theorem toNat_word (count : Nat) (bytes : List Byte) : (word count bytes).toNat = number (bytes.take count) := by
  have wide : 256 ^ count = 2 ^ (8 * count) := by
    rw [pow_mul]
    rfl
  rw [word, BitVec.toNat_ofNat]
  refine Nat.mod_eq_of_lt ((number_lt _).trans_le ?_)
  rw [← wide]
  exact Nat.pow_le_pow_right (by decide) (List.length_take_le count bytes)

/-- What was written is read. -/
theorem word_wordBytes_append (count : Nat) (value : BitVec (8 * count)) (rest : List Byte) :
    word count (wordBytes count value ++ rest) = value := by
  have wide : 256 ^ count = 2 ^ (8 * count) := by
    rw [pow_mul]
    rfl
  have written : number (wordBytes count value) = value.toNat := by
    rw [wordBytes, number_digits, wide, Nat.mod_eq_of_lt value.isLt]
  rw [word, List.take_left' (length_wordBytes count value), written, BitVec.ofNat_toNat, BitVec.setWidth_eq]

end Mello.Library.LittleEndian
