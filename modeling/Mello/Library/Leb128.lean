import Mello.Library.LittleEndian

/-!
Numbers as bytes of seven bits, the lowest first; every byte but the last has its high bit set.
-/

namespace Mello.Library.Leb128
open LittleEndian

def encode (n : ℕ) : List Byte :=
  if n < 128 then [BitVec.ofNat 8 n] else BitVec.ofNat 8 (n % 128 + 128) :: encode (n / 128)
termination_by n
decreasing_by omega

/-- The number of at most `most` bytes that the bytes begin with, and the bytes after it. -/
def decode : ℕ → List Byte → Option (ℕ × List Byte)
  | 0, _ | _, [] => none
  | most + 1, byte :: rest =>
    if byte.toNat < 128 then some (byte.toNat, rest)
    else (decode most rest).map fun (high, rest) => (byte.toNat - 128 + 128 * high, rest)

theorem encode_of_lt {n : ℕ} (small : n < 128) : encode n = [BitVec.ofNat 8 n] := by
  rw [encode, if_pos small]

theorem encode_of_le {n : ℕ} (large : 128 ≤ n) : encode n = BitVec.ofNat 8 (n % 128 + 128) :: encode (n / 128) := by
  rw [encode, if_neg (not_lt.mpr large)]

theorem decode_cons (most : ℕ) (byte : Byte) (rest : List Byte) :
    decode (most + 1) (byte :: rest) =
      if byte.toNat < 128 then some (byte.toNat, rest)
      else (decode most rest).map fun (high, rest) => (byte.toNat - 128 + 128 * high, rest) := rfl

theorem decode_nil (most : ℕ) : decode most [] = none := by
  cases most with
  | _ => rfl

/-- What was encoded is decoded, where its bytes are few enough. -/
theorem decode_encode_append {most n : ℕ} (fits : n < 128 ^ (most + 1)) (rest : List Byte) :
    decode (most + 1) (encode n ++ rest) = some (n, rest) := by
  induction most generalizing n with
  | zero =>
    have small : n < 128 := fits
    have byte : (BitVec.ofNat 8 n).toNat = n := Nat.mod_eq_of_lt (by omega)
    rw [encode_of_lt small, List.singleton_append, decode_cons, byte, if_pos small]
  | succ most ih =>
    by_cases small : n < 128
    · have byte : (BitVec.ofNat 8 n).toNat = n := Nat.mod_eq_of_lt (by omega)
      rw [encode_of_lt small, List.singleton_append, decode_cons, byte, if_pos small]
    · have byte : (BitVec.ofNat 8 (n % 128 + 128)).toNat = n % 128 + 128 := Nat.mod_eq_of_lt (by omega)
      have high : n / 128 < 128 ^ (most + 1) := Nat.div_lt_of_lt_mul (fits.trans_eq (Nat.pow_succ' ..))
      rw [encode_of_le (not_lt.mp small), List.cons_append, decode_cons, byte, if_neg (by omega), ih high, Option.map_some]
      dsimp only
      rw [Nat.add_sub_cancel, Nat.mod_add_div]

end Mello.Library.Leb128
