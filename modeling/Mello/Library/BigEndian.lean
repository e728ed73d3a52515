import Mathlib

/-!
Natural numbers as bytes, the most significant first.
-/

namespace Mello.Library.BigEndian

abbrev Byte := BitVec 8

def number (bytes : List Byte) : Nat := bytes.foldl (fun value byte => value * 256 + byte.toNat) 0

/-- The lowest `count` bytes of a value. -/
def digits : Nat → Nat → List Byte
  | 0, _ => []
  | count + 1, value => BitVec.ofNat 8 (value / 256 ^ count) :: digits count value

@[simp] theorem length_digits (count value : Nat) : (digits count value).length = count := by
  induction count with
  | zero => rfl
  | succ count ih => rw [digits, List.length_cons, ih]

theorem foldl_number (bytes : List Byte) (start : Nat) :
    bytes.foldl (fun value byte => value * 256 + byte.toNat) start = start * 256 ^ bytes.length + number bytes := by
  induction bytes generalizing start with
  | nil => simp [number]
  | cons byte rest ih =>
    unfold number
    rw [List.foldl_cons, List.foldl_cons, ih, ih (0 * 256 + byte.toNat), List.length_cons, pow_succ]
    ring

theorem number_cons (byte : Byte) (rest : List Byte) :
    number (byte :: rest) = byte.toNat * 256 ^ rest.length + number rest := by
  rw [number, List.foldl_cons, foldl_number, Nat.zero_mul, Nat.zero_add]

theorem number_lt (bytes : List Byte) : number bytes < 256 ^ bytes.length := by
  induction bytes with
  | nil => decide
  | cons byte rest ih =>
    have top : byte.toNat < 256 := byte.isLt
    rw [number_cons, List.length_cons, pow_succ]
    calc byte.toNat * 256 ^ rest.length + number rest
        < byte.toNat * 256 ^ rest.length + 256 ^ rest.length := Nat.add_lt_add_left ih _
      _ = (byte.toNat + 1) * 256 ^ rest.length := by ring
      _ ≤ 256 * 256 ^ rest.length := Nat.mul_le_mul_right _ top
      _ = 256 ^ rest.length * 256 := Nat.mul_comm _ _

theorem number_digits_mod (count value : Nat) : number (digits count value) = value % 256 ^ count := by
  induction count with
  | zero => simp [digits, number, Nat.mod_one]
  | succ count ih =>
    have split : value % (256 ^ count * 256) = value % 256 ^ count + 256 ^ count * (value / 256 ^ count % 256) :=
      Nat.mod_mul
    rw [digits, number_cons, length_digits, ih, BitVec.toNat_ofNat, pow_succ 256, split, Nat.mul_comm, Nat.add_comm]

theorem number_digits {count value : Nat} (fits : value < 256 ^ count) : number (digits count value) = value := by
  rw [number_digits_mod, Nat.mod_eq_of_lt fits]

end Mello.Library.BigEndian
