import Mello.Library.Runs
import Mello.Library.Turns

/-!
A tracker of games that are told by snapshots: one flag stands for the game that is on. An observer
who knows which game each snapshot is about says which results there should be. The tracker's are
these in exactly the runs in which no snapshot is mistaken for one of another game.
-/

namespace Mello.Library.Tracking
open Runs Turns

variable {Side Outcome Input Memory : Type}

/-- What a snapshot says: a game goes on, it is over with an outcome for each side, the player is in no
game, in one that is not tracked, or nothing of that. -/
inductive Sign (Side Outcome : Type) where
  | plays
  | done (verdict : Side → Outcome)
  | away
  | apart
  | quiet

/-- A snapshot of game `game`, with the side that it shows the player on. -/
structure Account (Side Outcome : Type) where
  game : Nat
  side : Option Side := none
  sign : Sign Side Outcome

inductive Result (Outcome : Type) where
  | started
  | ended (outcome : Outcome)
  deriving DecidableEq

def Result.isStart : Result Outcome → Bool
  | .started => true
  | .ended _ => false

/-- The tracker with its flag. `said` is the outcome that it makes of a game that is over. -/
def track (incomplete : Outcome) (active : Bool) (said : Option Outcome) : Sign Side Outcome → Bool × List (Result Outcome)
  | .plays => (true, bif active then [] else [.started])
  | .done _ => (false, bif active then said.toList.map .ended else [])
  | .away => (false, bif active then [.ended incomplete] else [])
  | .apart => (false, [])
  | .quiet => (active, [])

/-- A tracker that first starts a game and then ends one, where no snapshot does both. -/
theorem track_of_stages {plays ends : Prop} [Decidable plays] [Decidable ends] (notBoth : plays → ¬ ends)
    (incomplete outcome : Outcome) (active : Bool) (verdict : Side → Outcome) {first last : Bool × List (Result Outcome)}
    (starts : first = if plays ∧ ¬ active then (true, [.started]) else (active, []))
    (finishes : last = if ends ∧ first.1 then (false, [.ended outcome]) else (first.1, [])) :
    (last.1, first.2 ++ last.2) =
      track incomplete active (some outcome) (if plays then .plays else if ends then .done verdict else .quiet) := by
  subst starts finishes
  by_cases on : plays
  · cases active with
    | true => simp [on, notBoth on, track]
    | false => simp [on, notBoth on, track]
  · by_cases off : ends
    · cases active with
      | true => simp [on, off, track]
      | false => simp [on, off, track]
    · simp [on, off, track]

/-- The observer: the game that is on with the player's last known side, and the games that are done with. -/
structure Series (Side : Type) where
  current : Option (Nat × Option Side) := none
  closed : List Nat := []

namespace Series

variable (incomplete : Outcome)

/-- The game that is on is left. -/
def close (s : Series Side) : Series Side × List (Result Outcome) :=
  match s.current with
  | some (game, _) => ({ current := none, closed := game :: s.closed }, [.ended incomplete])
  | none => (s, [])

def next (s : Series Side) (a : Account Side Outcome) : Series Side × List (Result Outcome) :=
  match a.sign, s.current with
  | .plays, some (game, known) =>
    if a.game ∈ s.closed then (s, [])
    else if a.game = game then ({ s with current := some (game, a.side.or known) }, [])
    else ({ current := some (a.game, a.side), closed := game :: s.closed }, [.ended incomplete, .started])
  | .plays, none => if a.game ∈ s.closed then (s, []) else ({ s with current := some (a.game, a.side) }, [.started])
  | .done verdict, some (game, known) =>
    ({ current := none, closed := a.game :: game :: s.closed },
      [.ended (if a.game = game then (a.side.or known).elim incomplete verdict else incomplete)])
  | .done _, none => ({ s with closed := a.game :: s.closed }, [])
  | .away, _ | .apart, _ => s.close incomplete
  | .quiet, some (game, known) => (if a.game = game then { s with current := some (game, a.side.or known) } else s, [])
  | .quiet, none => (s, [])

end Series

/-- An adapter that tracks games: its memory has the flag, and its results are those of `track`. It goes
by the side that it believes the player on, and by the outcome for each side that it reads off an end. -/
structure Tracker (Memory Input Side Outcome : Type) where
  incomplete : Outcome
  fresh : Memory
  active : Memory → Bool
  digest : Memory → Input → Memory × List (Result Outcome)
  account : Input → Account Side Outcome
  believed : Memory → Input → Option Side
  reads : Input → Option (Side → Outcome)
  idle : active fresh = false
  tracks : ∀ memory input, (active (digest memory input).1, (digest memory input).2) =
    track incomplete (active memory) ((reads input).map ((believed memory input).elim incomplete)) (account input).sign

/-- The tracker beside the observer, with the results of both. -/
structure State (Memory Side Outcome : Type) where
  memory : Memory
  series : Series Side := {}
  results : List (Result Outcome) := []
  due : List (Result Outcome) := []

/-- Each game that was started has its one result, no result is of no game, and starts and ends take
turns from a start on. -/
structure Right (s : State Memory Side Outcome) : Prop where
  results : s.results = s.due
  turns : ∃ isOpen, TakeTurns (s.results.map Result.isStart) isOpen

namespace Tracker

variable (a : Tracker Memory Input Side Outcome)

/-- The outcome that the tracker makes of an end. -/
def said (memory : Memory) (input : Input) : Option Outcome :=
  (a.reads input).map ((a.believed memory input).elim a.incomplete)

def start : State Memory Side Outcome := { memory := a.fresh }

def step (s : State Memory Side Outcome) (input : Input) : Option (State Memory Side Outcome) :=
  let (memory, results) := a.digest s.memory input
  let (series, due) := s.series.next a.incomplete (a.account input)
  some { memory, series, results := s.results ++ results, due := s.due ++ due }

end Tracker

/-- No snapshot is mistaken: one that starts a game is of a new game, one during a game is of that game
(or of one that is over), the outcome that is read off the end of a game is, for the side that the
tracker believes in, the one for the last known side in that game, and a game that is not tracked comes
after the end of the one that was. -/
def Fits (a : Tracker Memory Input Side Outcome) (s : State Memory Side Outcome) (input : Input) : Prop :=
  let account := a.account input
  match account.sign, s.series.current with
  | .plays, some (game, _) => account.game ∈ s.series.closed ∨ account.game = game
  | .plays, none => account.game ∉ s.series.closed
  | .done verdict, some (game, known) => a.said s.memory input =
      some (if account.game = game then (account.side.or known).elim a.incomplete verdict else a.incomplete)
  | .apart, some _ => False
  | _, _ => True

/-! ## One snapshot -/

section Step

variable {incomplete : Outcome} {series : Series Side} {account : Account Side Outcome} {said : Option Outcome}
  {log : List (Result Outcome)}

/-- Where the tracker has the observer's results for a snapshot, its flag stands for the observer's game,
and the results stay in turns. -/
theorem track_of_due
    (same : (track incomplete series.current.isSome said account.sign).2 = (series.next incomplete account).2)
    (turns : TakeTurns (log.map Result.isStart) series.current.isSome) :
    (track incomplete series.current.isSome said account.sign).1 = (series.next incomplete account).1.current.isSome ∧
      TakeTurns ((log ++ (series.next incomplete account).2).map Result.isStart)
        (series.next incomplete account).1.current.isSome := by
  obtain ⟨current, closed⟩ := series
  obtain ⟨game, side, sign⟩ := account
  have ended (outcome : Outcome) (turns : TakeTurns (log.map Result.isStart) true) :
      TakeTurns ((log ++ [Result.ended outcome]).map Result.isStart) false := by
    rw [List.map_append]
    exact turns.concat
  have started (turns : TakeTurns (log.map Result.isStart) false) :
      TakeTurns ((log ++ [Result.started]).map Result.isStart) true := by
    rw [List.map_append]
    exact turns.concat
  rcases current with _ | ⟨before, known⟩
  · cases sign with
    | plays =>
      dsimp only [Series.next, track, Option.isSome_none, cond_false] at same turns ⊢
      split_ifs at same ⊢ with old
      exact ⟨rfl, started turns⟩
    | done verdict | away | apart | quiet =>
      refine ⟨rfl, ?_⟩
      rw [← List.append_nil log] at turns
      exact turns
  · cases sign with
    | plays =>
      dsimp only [Series.next, track, Option.isSome_some, cond_true] at same turns ⊢
      have kept : TakeTurns ((log ++ []).map Result.isStart) true := (List.append_nil log).symm ▸ turns
      split_ifs at same ⊢ with old known'
      · exact ⟨rfl, kept⟩
      · exact ⟨rfl, kept⟩
    | done verdict | away => exact ⟨rfl, ended _ turns⟩
    | apart => exact absurd same (List.cons_ne_nil _ _).symm
    | quiet =>
      dsimp only [Series.next, track, Option.isSome_some, cond_true] at same turns ⊢
      rw [List.append_nil]
      split_ifs with known'
      all_goals exact ⟨rfl, turns⟩

/-- The tracker has the observer's results for exactly the snapshots that fit. -/
theorem due_iff_fits {Memory Input : Type} {a : Tracker Memory Input Side Outcome} {s : State Memory Side Outcome} {input : Input} :
    (track a.incomplete s.series.current.isSome (a.said s.memory input) (a.account input).sign).2 =
      (s.series.next a.incomplete (a.account input)).2 ↔ Fits a s input := by
  unfold Fits
  obtain ⟨memory, ⟨current, closed⟩, results, due⟩ := s
  obtain ⟨game, side, sign⟩ := a.account input
  rcases current with _ | ⟨before, known⟩
  · cases sign with
    | plays =>
      dsimp only [Series.next, track, Option.isSome_none, cond_false]
      split_ifs with old
      · exact iff_of_false not_false (not_not_intro old)
      · exact iff_of_true rfl old
    | done verdict | away | apart | quiet => exact iff_of_true rfl trivial
  · cases sign with
    | plays =>
      dsimp only [Series.next, track, Option.isSome_some, cond_true]
      split_ifs with old same
      · exact iff_of_true rfl (.inl old)
      · exact iff_of_true rfl (.inr same)
      · exact iff_of_false not_false (not_or_intro old same)
    | done verdict =>
      dsimp only [Series.next, track, Option.isSome_some, cond_true]
      cases a.said memory input with
      | none => exact iff_of_false (List.cons_ne_nil _ _).symm (Option.some_ne_none _).symm
      | some outcome =>
        constructor
        · intro same
          exact congrArg some (Result.ended.inj (List.cons.inj same).1)
        · intro same
          rw [Option.some.inj same]
          rfl
    | away => exact iff_of_true rfl trivial
    | apart => exact iff_of_false (List.cons_ne_nil _ _).symm not_false
    | quiet => exact iff_of_true rfl trivial

end Step

/-! ## A whole run -/

/-- The flag stands for the observer's game, and the results so far are in turns. -/
structure Steady (a : Tracker Memory Input Side Outcome) (s : State Memory Side Outcome) : Prop where
  active : a.active s.memory = s.series.current.isSome
  turns : TakeTurns (s.due.map Result.isStart) s.series.current.isSome

theorem start_steady (a : Tracker Memory Input Side Outcome) : Steady a a.start := ⟨a.idle, takeTurns_nil⟩

section Run

variable {a : Tracker Memory Input Side Outcome} {s t : State Memory Side Outcome} {input : Input}

/-- A step adds the results of `track` to those of the tracker, and the observer's to those that are due. -/
theorem step_spec (stepped : a.step s input = some t) :
    (a.active t.memory, t.results) = ((track a.incomplete (a.active s.memory) (a.said s.memory input) (a.account input).sign).1,
      s.results ++ (track a.incomplete (a.active s.memory) (a.said s.memory input) (a.account input).sign).2) ∧
    t.series = (s.series.next a.incomplete (a.account input)).1 ∧ t.due = s.due ++ (s.series.next a.incomplete (a.account input)).2 := by
  obtain rfl := Option.some.inj stepped
  obtain ⟨active, results⟩ := Prod.mk.inj (a.tracks s.memory input)
  exact ⟨Prod.ext active (congrArg (s.results ++ ·) results), rfl, rfl⟩

theorem Steady.step_iff (steady : Steady a s) (right : Right s) (stepped : a.step s input = some t) :
    (Right t ↔ Fits a s input) ∧ (Right t → Steady a t) := by
  obtain ⟨moved, series, due⟩ := step_spec stepped
  rw [steady.active] at moved
  obtain ⟨active, results⟩ := Prod.mk.inj moved
  have next (same : (track a.incomplete s.series.current.isSome (a.said s.memory input) (a.account input).sign).2 =
      (s.series.next a.incomplete (a.account input)).2) : Right t ∧ Steady a t := by
    obtain ⟨flag, turns⟩ := track_of_due same steady.turns
    rw [← due, ← series] at turns
    have both : t.results = t.due := by
      rw [results, due, right.results, same]
    exact ⟨⟨both, _, both ▸ turns⟩, active.trans (flag.trans (congrArg (·.current.isSome) series.symm)), turns⟩
  have same (good : Right t) : (track a.incomplete s.series.current.isSome (a.said s.memory input) (a.account input).sign).2 =
      (s.series.next a.incomplete (a.account input)).2 := by
    have both := good.results
    rw [results, due, right.results] at both
    exact List.append_cancel_left both
  refine ⟨?_, fun good => (next (same good)).2⟩
  rw [← due_iff_fits]
  exact ⟨same, fun fits => (next fits).1⟩

end Run

/-- The results of a tracker are right in exactly the runs in which each snapshot fits. -/
theorem always_right_iff (a : Tracker Memory Input Side Outcome) (inputs : List Input) :
    Always a.step Right a.start inputs ↔ EachStep a.step (Fits a) a.start inputs := by
  refine always_iff_eachStep_of_good (Steady a) ?_ ?_ (start_steady a) ⟨rfl, false, takeTurns_nil⟩ inputs
  · intro s input t steady right stepped good
    exact (steady.step_iff right stepped).2 good
  · intro s input t steady right stepped
    exact (steady.step_iff right stepped).1

end Mello.Library.Tracking
