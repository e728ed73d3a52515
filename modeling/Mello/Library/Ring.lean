import Mello.Library.Serial

/-!
Words of a fixed width on a ring. Seen from a base, the words stand in a row, and a list
of words that is sorted can be cut at any of them.
-/

namespace Mello.Library.Ring
open Serial

variable {w : ℕ} {base a b : BitVec w}

/-- How far a word is past the base. -/
def past (base a : BitVec w) : ℕ := (a - base).toNat

theorem past_self (base : BitVec w) : past base base = 0 := by rw [past, BitVec.sub_self, BitVec.toNat_zero]

theorem past_inj (same : past base a = past base b) : a = b := by
  have words : a - base = b - base := BitVec.eq_of_toNat_eq same
  rw [← BitVec.sub_add_cancel a base, words, BitVec.sub_add_cancel]

/-- Between two words, the difference of what they are past the base. -/
theorem past_eq_sub (le : past base a ≤ past base b) : past a b = past base b - past base a := by
  have parts : b - a = (b - base) - (a - base) := (sub_sub_sub_cancel_right b a base).symm
  unfold past at le ⊢
  rw [parts, BitVec.toNat_sub_of_le (BitVec.le_def.mpr le)]

theorem past_of_le (le : base ≤ a) : past base a = a.toNat - base.toNat := BitVec.toNat_sub_of_le le

theorem past_of_lt (lt : a < base) : past base a = 2 ^ w + a.toNat - base.toNat := by
  have less := BitVec.lt_def.mp lt
  have bound := base.isLt
  unfold past
  rw [BitVec.toNat_sub, Nat.mod_eq_of_lt (by omega)]
  omega

/-- Two words are a whole turn apart, there and back. -/
theorem past_add_past (apart : a ≠ b) : past a b + past b a = 2 ^ w := by
  have first := a.isLt
  have second := b.isLt
  rcases Nat.lt_or_gt_of_ne fun same => apart (BitVec.eq_of_toNat_eq same) with less | more
  · have lt := BitVec.lt_def.mpr less
    rw [past_of_le (BitVec.le_of_lt lt), past_of_lt lt]
    omega
  · have lt := BitVec.lt_def.mpr more
    rw [past_of_lt lt, past_of_le (BitVec.le_of_lt lt)]
    omega

/-- Less than half the ring past the base is ahead of it. -/
theorem ahead_of_past (near : 2 * past base a < 2 ^ w) : ahead a base = past base a := by
  unfold ahead past at *
  exact BitVec.toInt_eq_toNat_of_lt near

/-- A list of words in the order in which they come after the base. -/
def InOrder (base : BitVec w) (words : List (BitVec w)) : Prop := words.Pairwise fun a b => past base a < past base b

/-- A sorted list of words, cut at one of them, is in order from there. -/
theorem inOrder_rotate {words : List (BitVec w)} (sorted : words.Pairwise (· < ·)) {start : ℕ} (inside : start < words.length) :
    InOrder words[start] (words.rotate start) := by
  unfold InOrder
  rw [List.rotate_eq_drop_append_take inside.le]
  have cut : words.take start ++ words.drop start = words := List.take_append_drop start words
  have parts := cut ▸ sorted
  obtain ⟨before, after, cross⟩ := List.pairwise_append.mp parts
  have head : words.drop start = words[start] :: words.drop (start + 1) := List.drop_eq_getElem_cons inside
  have low : ∀ a ∈ words.take start, a < words[start] := fun a member => cross a member _ (head ▸ List.mem_cons_self)
  have high : ∀ a ∈ words.drop start, words[start] ≤ a := by
    intro a member
    rw [head] at member after
    rcases List.mem_cons.mp member with rfl | later
    · exact BitVec.le_refl _
    · exact BitVec.le_of_lt ((List.pairwise_cons.mp after).1 a later)
  refine List.pairwise_append.mpr ⟨?_, ?_, ?_⟩
  · refine after.imp_of_mem fun {a b} here there less => ?_
    have le := BitVec.le_def.mp (high a here)
    have lt := BitVec.lt_def.mp less
    rw [past_of_le (high a here), past_of_le (high b there)]
    omega
  · refine before.imp_of_mem fun {a b} here there less => ?_
    have lt := BitVec.lt_def.mp less
    have bound := words[start].isLt
    rw [past_of_lt (low a here), past_of_lt (low b there)]
    omega
  · intro a here b there
    have bound := a.isLt
    have le := BitVec.le_def.mp (high a here)
    rw [past_of_le (high a here), past_of_lt (low b there)]
    omega

end Mello.Library.Ring
