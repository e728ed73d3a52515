import Mathlib

/-!
A log on a wheel of `n` slots: entry `k` goes to slot `k % n` and takes the place of
entry `k - n` there, so the slots hold the last `n` entries.
-/

namespace Mello.Library.Wheel

variable {α : Type*} {n k : ℕ} {slots log : List α}

/-- Two numbers less than one turn apart have slots of their own. -/
theorem mod_ne_mod {later : ℕ} (less : k < later) (near : later < k + n) : k % n ≠ later % n := by
  intro same
  have turns : (later - k) % n = 0 := Nat.sub_mod_eq_zero_of_mod_eq same.symm
  rw [Nat.mod_eq_of_lt (by omega)] at turns
  omega

structure Holds (n : ℕ) (slots log : List α) : Prop where
  size : slots.length = n
  held : ∀ k entry, log[k]? = some entry → log.length ≤ k + n → slots[k % n]? = some entry

theorem holds_nil (size : slots.length = n) : Holds n slots [] := ⟨size, nofun⟩

theorem Holds.push (holds : Holds n slots log) (some : 0 < n) (entry : α) :
    Holds n (slots.set (log.length % n) entry) (log ++ [entry]) := by
  have inside : log.length % n < slots.length := (Nat.mod_lt _ some).trans_eq holds.size.symm
  refine ⟨List.length_set.trans holds.size, ?_⟩
  intro k other found recent
  rw [List.length_append, List.length_singleton] at recent
  rcases Nat.lt_trichotomy k log.length with older | rfl | newer
  · rw [List.getElem?_append_left older] at found
    rw [List.getElem?_set_ne (mod_ne_mod older (by omega)).symm]
    exact holds.held k other found (by omega)
  · rw [List.getElem?_concat_length] at found
    rw [List.getElem?_set_self inside]
    exact found
  · rw [List.getElem?_eq_none (by
      rw [List.length_append, List.length_singleton]
      exact newer)] at found
    cases found

/-- An entry a turn behind has left its slot to a later one. -/
theorem Holds.replaced (holds : Holds n slots log) (some : 0 < n) (old : k + n < log.length) :
    ∃ later entry, k < later ∧ log[later]? = .some entry ∧ slots[k % n]? = .some entry := by
  have turns := Nat.div_add_mod (log.length - 1 - k) n
  have rest := Nat.mod_lt (log.length - 1 - k) some
  have inside : k + n * ((log.length - 1 - k) / n) < log.length := by omega
  have later := holds.held _ _ (List.getElem?_eq_getElem inside) (by omega)
  rw [Nat.add_mul_mod_self_left] at later
  refine ⟨_, _, ?_, List.getElem?_eq_getElem inside, later⟩
  omega

/-- The entries from `first` on, by their numbers. -/
theorem filterMap_range' (log : List α) (first count : ℕ) (all : first + count = log.length) :
    (List.range' first count).filterMap (log[·]?) = log.drop first := by
  induction count generalizing first with
  | zero =>
    exact (List.drop_eq_nil_of_le all.ge).symm
  | succ count ih =>
    have inside : first < log.length := by omega
    rw [List.range'_succ, List.filterMap_cons_some (List.getElem?_eq_getElem inside), ih (first + 1) (by omega)]
    exact (List.drop_eq_getElem_cons inside).symm

end Mello.Library.Wheel
