import Mathlib

/-!
Checks that fail with an error, and what a computation that passed all of them says.
-/

namespace Mello.Library.Guards

variable {ε α β : Type}

def require (holds : Bool) (failure : ε) : Except ε Unit := if holds then .ok () else .error failure

@[simp] theorem require_eq_ok {holds : Bool} {failure : ε} {done : Unit} :
    require holds failure = .ok done ↔ holds = true := by
  unfold require
  cases holds with
  | false => exact iff_of_false nofun nofun
  | true => exact iff_of_true rfl rfl

@[simp] theorem bind_eq_ok {first : Except ε α} {next : α → Except ε β} {result : β} :
    (first >>= next) = .ok result ↔ ∃ value, first = .ok value ∧ next value = .ok result := by
  cases first with
  | error failure => exact iff_of_false nofun nofun
  | ok value =>
    constructor
    · intro ran
      exact ⟨value, rfl, ran⟩
    · rintro ⟨other, same, ran⟩
      cases same
      exact ran

@[simp] theorem pure_eq_ok {value result : α} : (pure value : Except ε α) = .ok result ↔ value = result := by
  constructor
  · intro same
    cases same
    rfl
  · intro same
    rw [same]
    rfl

end Mello.Library.Guards
