import Mathlib

/-! Lists whose items carry consecutive integers, by a numbering of the items. -/

namespace Mello.Library

variable {α : Type*}

/-- The items are numbered upwards from `start` without a gap. -/
def Consecutive (number : α → Int) (start : Int) (items : List α) : Prop :=
  ∀ (i : Nat) (item : α), items[i]? = some item → number item = start + i

namespace Consecutive

variable {number : α → Int} {start : Int} {items front back : List α}

theorem nil : Consecutive number start [] := by
  intro i item found
  simp at found

theorem singleton (item : α) : Consecutive number (number item) [item] := by
  intro i other found
  obtain ⟨rfl, rfl⟩ : i = 0 ∧ item = other := by
    cases i <;> simp_all
  simp

theorem append (first : Consecutive number start front)
    (second : Consecutive number (start + front.length) back) :
    Consecutive number start (front ++ back) := by
  intro i item found
  rw [List.getElem?_append] at found
  split_ifs at found with inside
  · exact first i item found
  · rw [second _ _ found]
    omega

theorem drop (run : Consecutive number start items) (count : Nat) :
    Consecutive number (start + count) (items.drop count) := by
  intro i item found
  rw [List.getElem?_drop] at found
  rw [run _ _ found]
  push_cast
  ring

theorem map_iff {β : Type*} {f : β → α} {others : List β} :
    Consecutive number start (others.map f) ↔ Consecutive (number ∘ f) start others := by
  constructor
  · intro run i item found
    exact run i (f item) (by rw [List.getElem?_map, found]; rfl)
  · intro run i item found
    rw [List.getElem?_map] at found
    obtain ⟨other, here, rfl⟩ := Option.map_eq_some_iff.mp found
    exact run i other here

/-- What is left after dropping from the front is consecutive. -/
theorem of_suffix {later : List α} (run : Consecutive number start items) (suffix : later <:+ items) :
    ∃ first, Consecutive number first later := by
  obtain ⟨gone, rfl⟩ := suffix
  exact ⟨start + gone.length, by simpa using run.drop gone.length⟩

/-- Consecutive numbers increase, so they are distinct. -/
theorem pairwise (run : Consecutive number start items) :
    items.Pairwise fun a b => number a < number b := by
  rw [List.pairwise_iff_getElem]
  intro i j hi hj before
  rw [run i items[i] (List.getElem?_eq_getElem hi), run j items[j] (List.getElem?_eq_getElem hj)]
  omega

/-- Items of a list numbered from 0 that are consecutive among themselves stand
side by side in it. -/
theorem infix_of_subset {all : List α} (whole : Consecutive number 0 all) {first : Nat}
    (run : Consecutive number first items) (subset : ∀ item ∈ items, item ∈ all) :
    (all.drop first).take items.length = items := by
  apply List.ext_getElem?
  intro i
  rw [List.getElem?_take]
  split_ifs with inside
  · have found := List.getElem?_eq_getElem inside
    obtain ⟨j, place⟩ := List.mem_iff_getElem?.mp (subset _ (List.mem_of_getElem? found))
    have here := run i _ found
    have there := whole j _ place
    obtain rfl : j = first + i := by omega
    rw [List.getElem?_drop, place, found]
  · exact (List.getElem?_eq_none (not_lt.mp inside)).symm

end Consecutive

end Mello.Library
