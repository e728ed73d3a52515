import Mathlib

/-!
Opens and closes that take turns, from a closed state on.
-/

namespace Mello.Library.Turns

/-- The state after an open (`true`) or a close, when it was the other one before. -/
def turn (isOpen next : Bool) : Option Bool := if next = isOpen then none else some next

/-- The opens and closes take turns, the first is an open, and the last leaves this state. -/
def TakeTurns (log : List Bool) (isOpen : Bool) : Prop := log.foldlM turn false = some isOpen

theorem takeTurns_nil : TakeTurns [] false := rfl

theorem TakeTurns.concat {log : List Bool} {isOpen : Bool} (turns : TakeTurns log isOpen) :
    TakeTurns (log ++ [!isOpen]) (!isOpen) := by
  have next : turn isOpen (!isOpen) = some (!isOpen) := if_neg (Bool.not_ne_self isOpen)
  unfold TakeTurns
  rw [List.foldlM_append, turns]
  exact (Option.bind_some ..).trans ((bind_pure (turn isOpen !isOpen)).trans next)

theorem TakeTurns.append {log next : List Bool} {isOpen after : Bool} (turns : TakeTurns log isOpen)
    (more : next.foldlM turn isOpen = some after) : TakeTurns (log ++ next) after := by
  unfold TakeTurns
  rw [List.foldlM_append, turns]
  exact more

end Mello.Library.Turns
