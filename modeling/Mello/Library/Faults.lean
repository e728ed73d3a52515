import Mathlib.Data.List.Basic
import Mathlib.Tactic.Common

/-!
Computations that may refuse their input, and that must never go wrong in any
other way. Two runs agree when both end with one value, of which a condition
holds, or both refuse: two buffers that differ only where the program does not
look give runs that agree, and a run that agrees with itself has no other fault.
-/

namespace Mello.Library.Faults

variable {ε α β : Type}

inductive Agree (refused : ε) (holds : α → Prop) : Except ε α → Except ε α → Prop
  | done {value : α} (good : holds value) : Agree refused holds (.ok value) (.ok value)
  | refused : Agree refused holds (.error refused) (.error refused)

namespace Agree

variable {refused : ε} {holds : α → Prop} {after : β → Prop}

theorem pure {value : α} (good : holds value) :
    Agree refused holds (Pure.pure value) (Pure.pure value) := .done good

theorem bind {first second : Except ε α} {f g : α → Except ε β}
    (heads : Agree refused holds first second)
    (tails : ∀ value, holds value → Agree refused after (f value) (g value)) :
    Agree refused after (first >>= f) (second >>= g) := by
  cases heads with
  | done good => exact tails _ good
  | refused => exact .refused

/-- The early exit of a check: one branch throws and never reaches what follows. -/
theorem guard {condition : Prop} [Decidable condition] {f g : Unit → Except ε β}
    (tails : ¬condition → Agree refused after (f ()) (g ())) :
    Agree refused after
      (if condition then (throw refused : Except ε Unit) >>= f else f ())
      (if condition then (throw refused : Except ε Unit) >>= g else g ()) := by
  by_cases failed : condition
  · rw [if_pos failed, if_pos failed]
    exact .refused
  · rw [if_neg failed, if_neg failed]
    exact tails failed

theorem imp {weaker : α → Prop} {first second : Except ε α} (agree : Agree refused holds first second)
    (implied : ∀ value, holds value → weaker value) : Agree refused weaker first second := by
  cases agree with
  | done good => exact .done (implied _ good)
  | refused => exact .refused

theorem eq {first second : Except ε α} (agree : Agree refused holds first second) : first = second := by
  cases agree <;> rfl

theorem holds_of_ok {first second : Except ε α} {value : α} (agree : Agree refused holds first second)
    (ended : first = .ok value) : holds value := by
  cases agree with
  | done good =>
    cases ended
    exact good
  | refused => cases ended

theorem fault_eq {first second : Except ε α} {fault : ε} (agree : Agree refused holds first second)
    (failed : first = .error fault) : fault = refused := by
  cases agree with
  | done => cases failed
  | refused =>
    cases failed
    rfl

/-- A map over a list whose every step agrees gives as many values. -/
theorem mapM {γ : Type} {f g : γ → Except ε α} {items : List γ}
    (each : ∀ item ∈ items, Agree refused holds (f item) (g item)) :
    Agree refused (fun values => values.length = items.length ∧ ∀ value ∈ values, holds value)
      (items.mapM f) (items.mapM g) := by
  induction items with
  | nil => exact .done ⟨rfl, nofun⟩
  | cons item rest ih =>
    rw [List.mapM_cons, List.mapM_cons]
    apply bind (each item List.mem_cons_self)
    intro value good
    apply bind (ih fun other member => each other (List.mem_cons_of_mem _ member))
    intro values found
    apply pure
    refine ⟨congrArg Nat.succ found.1, ?_⟩
    intro other member
    cases member with
    | head => exact good
    | tail _ member => exact found.2 other member

end Agree

end Mello.Library.Faults
