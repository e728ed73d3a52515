import Mathlib

/-! Lists in which every item follows on from the one before it, the first from
a given item or from nothing. -/

namespace Mello.Library

variable {α : Type*} {follows : Option α → α → Prop} {previous : Option α}

def Linked (follows : Option α → α → Prop) : Option α → List α → Prop
  | _, [] => True
  | previous, item :: rest => follows previous item ∧ Linked follows (some item) rest

namespace Linked

theorem append_iff {front back : List α} :
    Linked follows previous (front ++ back) ↔
      Linked follows previous front ∧ Linked follows (front.getLast?.or previous) back := by
  induction front generalizing previous with
  | nil => simp [Linked]
  | cons item rest ih =>
    have last : ((item :: rest).getLast?).or previous = rest.getLast?.or (some item) := by
      rw [List.getLast?_cons]
      cases rest.getLast? <;> rfl
    rw [List.cons_append, Linked, Linked, ih, last, and_assoc]

theorem concat_iff {front : List α} {item : α} :
    Linked follows previous (front ++ [item]) ↔
      Linked follows previous front ∧ follows (front.getLast?.or previous) item := by
  rw [append_iff, Linked, Linked, and_true]

/-- Items that follow anything can always be added. -/
theorem append_of_free {front back : List α} (linked : Linked follows previous front)
    (free : ∀ item ∈ back, ∀ other, follows other item) : Linked follows previous (front ++ back) := by
  rw [append_iff]
  refine ⟨linked, ?_⟩
  generalize front.getLast?.or previous = start
  induction back generalizing start with
  | nil => trivial
  | cons item rest ih =>
    exact ⟨free item List.mem_cons_self start,
      ih (fun other member => free other (List.mem_cons_of_mem _ member)) _⟩

/-- A list may start from anything that its first item follows. -/
theorem restart {items : List α} {other : Option α} (linked : Linked follows previous items)
    (free : ∀ item, follows previous item → follows other item) : Linked follows other items := by
  cases items with
  | nil => trivial
  | cons item rest => exact ⟨free item linked.1, linked.2⟩

/-- Every item but the first follows the one before it. -/
theorem adjacent {items : List α} (linked : Linked follows previous items) {i : Nat} {item next : α}
    (here : items[i]? = some item) (behind : items[i + 1]? = some next) : follows (some item) next := by
  induction items generalizing previous i with
  | nil => cases here
  | cons head rest ih =>
    cases i with
    | zero =>
      obtain rfl := Option.some.inj here
      cases rest with
      | nil => cases behind
      | cons other more =>
        obtain rfl := Option.some.inj behind
        exact linked.2.1
    | succ i => exact ih linked.2 here behind

end Linked

end Mello.Library
