import Mello.Core.Telemetry
import Mello.Library.Tracking

/-!
The adapter of Rocket League: what it makes of the envelopes of the game's Stats API and of the end of
the stream. The payloads are what serde makes of them.
-/

namespace Mello.Core.RocketLeague
open Telemetry Mello.Library Tracking

def GAME_ID : String := "rocket-league"

structure PlayerTick where
  name : String := ""
  score : ℤ := 0
  goals : ℤ := 0
  shots : ℤ := 0
  assists : ℤ := 0
  saves : ℤ := 0

structure TeamTick where
  teamNum : UInt8 := 0
  score : ℤ := 0

structure TargetTick where
  name : String := ""
  teamNum : UInt8 := 0

structure GameTick where
  teams : List TeamTick := []
  arena : String := ""
  bReplay : Bool := false
  target : Option TargetTick := none

structure UpdateState where
  players : List PlayerTick := []
  game : GameTick := {}

structure MatchEndedData where
  winnerTeamNum : ℤ := 0

/-- An envelope with its data as each event reads it; `none` where the data has another shape. -/
structure Envelope where
  event : String
  matchGuid : String := ""
  updateState : Option UpdateState := none
  matchEnded : Option MatchEndedData := none

structure RlState where
  matchActive : Bool := false
  online : Bool := false
  ownTeam : Option UInt8 := none
  ownName : String := ""
  arena : String := ""
  teamScores : ℕ × ℕ := (0, 0)
  ownStats : Option PlayerTick := none

/-- The scores for the player's side; with no side known, the leading one first. -/
def orientedScores (st : RlState) : ℕ × ℕ :=
  let (blue, orange) := st.teamScores
  if st.ownTeam = some 0 then (blue, orange)
  else if st.ownTeam = some 1 then (orange, blue)
  else (max blue orange, min blue orange)

def finalizeIncomplete (st : RlState) : RlState × List TelemetryEvent :=
  if st.matchActive then
    ({}, [.matchEnded {
      gameId := GAME_ID
      mode := "match"
      map := st.arena
      result := .incomplete
      streakEligible := st.online
      ownScore := 0
      oppScore := 0 }])
  else (st, [])

/-- The side of the car that a tick views. Goal replays may show another one. -/
def GameTick.viewed (game : GameTick) : Option TargetTick :=
  if game.bReplay then none else game.target.filter fun target => target.name ≠ ""

def GameTick.scores (game : GameTick) : ℕ × ℕ :=
  game.teams.foldl (fun scores team =>
    if team.teamNum = 0 then (team.score.toNat, scores.2)
    else if team.teamNum = 1 then (scores.1, team.score.toNat)
    else scores) (0, 0)

def GameTick.seeArena (game : GameTick) (st : RlState) : RlState :=
  if game.arena = "" then st else { st with arena := game.arena }

/-- The side, the name and the stats of the player. -/
def UpdateState.seeSelf (data : UpdateState) (st : RlState) : RlState :=
  let st :=
    match data.game.viewed with
    | some target => { st with ownTeam := some target.teamNum, ownName := target.name }
    | none => st
  { st with ownStats := (data.players.find? fun p => p.name = st.ownName).or st.ownStats }

def UpdateState.digest (data : UpdateState) (matchGuid : String) (st : RlState) : RlState × List TelemetryEvent :=
  let firstTick := !st.matchActive
  let st := data.game.seeArena { st with matchActive := true, online := st.online || (firstTick && matchGuid ≠ "") }
  let started := if firstTick then [.matchStarted "match" st.arena] else []
  let st := data.seeSelf st
  if data.game.scores = st.teamScores then (st, started)
  else
    let st := { st with teamScores := data.game.scores }
    (st, started ++ [.scoreChanged (orientedScores st).1 (orientedScores st).2])

/-- The outcome of a match that `winnerTeamNum` has won, for a side. -/
def MatchEndedData.verdict (data : MatchEndedData) (own : UInt8) : Outcome :=
  if data.winnerTeamNum = own.toNat then .win else .loss

def MatchEndedData.digest (data : MatchEndedData) (st : RlState) : TelemetryEvent :=
  .matchEnded {
    gameId := GAME_ID
    mode := "match"
    map := st.arena
    result :=
      match st.ownTeam with
      | some own => data.verdict own
      | none => .incomplete
    streakEligible := st.online
    ownScore := (orientedScores st).1
    oppScore := (orientedScores st).2
    performance := st.ownStats.map fun p => {
      goals := some p.goals.toNat
      assists := some p.assists.toNat
      saves := some p.saves.toNat
      shots := some p.shots.toNat
      score := some p.score.toNat } }

def digest (st : RlState) (envelope : Envelope) : RlState × List TelemetryEvent :=
  match envelope.event with
  | "MatchCreated" => ({ online := envelope.matchGuid ≠ "" }, [])
  | "UpdateState" =>
    match envelope.updateState with
    | some data => data.digest envelope.matchGuid st
    | none => (st, [])
  | "MatchEnded" =>
    if st.matchActive then ({ st with matchActive := false }, (envelope.matchEnded.map fun data => data.digest st).toList)
    else (st, [])
  | "MatchDestroyed" => finalizeIncomplete st
  | _ => (st, [])

/-- What the stream gives to the adapter. -/
inductive Input where
  | envelope (envelope : Envelope)
  | dropped

def receive (st : RlState) : Input → RlState × List TelemetryEvent
  | .envelope envelope => digest st envelope
  | .dropped => finalizeIncomplete st

/-! ## The matches that it tracks -/

/-- What an input tells of the match it is about. Without an outcome in it, an end is of an incomplete match. -/
def account (game : ℕ) : Input → Account UInt8 Outcome
  | .envelope envelope =>
    match envelope.event with
    | "MatchCreated" => { game, sign := .apart }
    | "UpdateState" =>
      match envelope.updateState with
      | some data => { game, side := data.game.viewed.map (·.teamNum), sign := .plays }
      | none => { game, sign := .quiet }
    | "MatchEnded" => { game, sign := .done (envelope.matchEnded.elim (fun _ => .incomplete) MatchEndedData.verdict) }
    | "MatchDestroyed" => { game, sign := .away }
    | _ => { game, sign := .quiet }
  | .dropped => { game, sign := .away }

def reads : Input → Option (UInt8 → Outcome)
  | .envelope envelope => envelope.matchEnded.map MatchEndedData.verdict
  | .dropped => none

theorem finalizeIncomplete_tracks (st : RlState) (said : Option Outcome) :
    ((finalizeIncomplete st).1.matchActive, borders (finalizeIncomplete st).2) =
      track .incomplete st.matchActive said (.away : Sign UInt8 Outcome) := by
  unfold finalizeIncomplete
  cases active : st.matchActive with
  | true => rfl
  | false => exact Prod.ext active rfl

theorem GameTick.seeArena_matchActive (game : GameTick) (st : RlState) : (game.seeArena st).matchActive = st.matchActive := by
  unfold GameTick.seeArena
  split_ifs <;> rfl

theorem UpdateState.seeSelf_matchActive (data : UpdateState) (st : RlState) : (data.seeSelf st).matchActive = st.matchActive := by
  unfold UpdateState.seeSelf
  cases data.game.viewed <;> rfl

theorem UpdateState.digest_tracks (data : UpdateState) (matchGuid : String) (st : RlState) (said : Option Outcome) :
    ((data.digest matchGuid st).1.matchActive, borders (data.digest matchGuid st).2) =
      track .incomplete st.matchActive said (.plays : Sign UInt8 Outcome) := by
  have seen (st : RlState) (active : st.matchActive = true) : (data.seeSelf (data.game.seeArena st)).matchActive = true :=
    (data.seeSelf_matchActive _).trans ((data.game.seeArena_matchActive st).trans active)
  unfold UpdateState.digest
  dsimp only
  split
  all_goals
    refine Prod.ext (seen _ rfl) ?_
    cases st.matchActive <;> rfl

theorem MatchEndedData.digest_result (data : MatchEndedData) (st : RlState) :
    borders [data.digest st] = [.ended (st.ownTeam.elim .incomplete data.verdict)] := by
  unfold MatchEndedData.digest
  cases st.ownTeam <;> rfl

theorem receive_tracks (st : RlState) (game : ℕ) (input : Input) :
    ((receive st input).1.matchActive, borders (receive st input).2) =
      track .incomplete st.matchActive ((reads input).map (st.ownTeam.elim .incomplete)) (account game input).sign := by
  cases input with
  | dropped => exact finalizeIncomplete_tracks st _
  | envelope envelope =>
    obtain ⟨event, matchGuid, updateState, matchEnded⟩ := envelope
    unfold receive digest account
    dsimp only
    split
    · rfl
    · cases updateState with
      | some data => exact data.digest_tracks matchGuid st _
      | none => rfl
    · cases active : st.matchActive with
      | true =>
        cases matchEnded with
        | some data => exact Prod.ext rfl (data.digest_result st)
        | none => rfl
      | false => exact Prod.ext active rfl
    · exact finalizeIncomplete_tracks st _
    · rfl

def tracker : Tracker RlState (ℕ × Input) UInt8 Outcome where
  incomplete := .incomplete
  fresh := {}
  active := (·.matchActive)
  digest st input := ((receive st input.2).1, borders (receive st input.2).2)
  account input := account input.1 input.2
  believed st _ := st.ownTeam
  reads input := reads input.2
  idle := rfl
  tracks st input := receive_tracks st input.1 input.2

end Mello.Core.RocketLeague
