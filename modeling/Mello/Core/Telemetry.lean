import Mello.Library.Tracking

/-!
What the telemetry adapters of the games send to the client.
-/

namespace Mello.Core.Telemetry
open Mello.Library

def toAsciiLowercase (s : String) : String := .ofList (s.toList.map Char.toLower)

inductive Outcome where
  | win
  | loss
  | draw
  /-- A crash or an abandon, never a loss. -/
  | incomplete
  deriving DecidableEq, Repr

def Outcome.asStr : Outcome → String
  | .win => "win"
  | .loss => "loss"
  | .draw => "draw"
  | .incomplete => "incomplete"

/-- The stats of the player that an adapter of the model fills. -/
structure Performance where
  kills : Option ℕ := none
  deaths : Option ℕ := none
  assists : Option ℕ := none
  mvps : Option ℕ := none
  score : Option ℕ := none
  goals : Option ℕ := none
  saves : Option ℕ := none
  shots : Option ℕ := none
  cs : Option ℕ := none
  deriving DecidableEq, Repr

/-- `character` is the one field of the build that an adapter of the model fills. -/
structure MatchResult where
  gameId : String
  mode : String
  map : String
  result : Outcome
  streakEligible : Bool
  ownScore : ℕ
  oppScore : ℕ
  performance : Option Performance := none
  character : Option String := none
  deriving DecidableEq, Repr

inductive TelemetryEvent where
  | matchStarted (mode map : String)
  | scoreChanged (own opp : ℕ)
  | matchEnded (m : MatchResult)
  | setupRequired (gameId hint : String)
  | activityStarted (gameId activityId : String) (ts : ℤ)
  | activityEnded (gameId : String) (ts : ℤ)
  | activityNamed (gameId activityId name : String)
  deriving DecidableEq, Repr

/-- The starts and results of matches among the events. -/
def borders (events : List TelemetryEvent) : List (Tracking.Result Outcome) :=
  events.filterMap fun
    | .matchStarted _ _ => some .started
    | .matchEnded m => some (.ended m.result)
    | _ => none

theorem borders_append (front back : List TelemetryEvent) : borders (front ++ back) = borders front ++ borders back :=
  List.filterMap_append

end Mello.Core.Telemetry
