import Mello.Core.Telemetry
import Mello.Library.Tracking

/-!
The adapter of Dota 2: what it makes of the snapshots that the game posts. A payload is what serde
makes of a body, and `none` where it makes nothing of it.
-/

namespace Mello.Core.Dota2Gsi
open Telemetry Mello.Library Tracking

def GAME_ID : String := "dota-2"
def DOTA2_APPID : ℤ := 570

def ACTIVE_STATES : List String :=
  ["DOTA_GAMERULES_STATE_HERO_SELECTION",
   "DOTA_GAMERULES_STATE_STRATEGY_TIME",
   "DOTA_GAMERULES_STATE_TEAM_SHOWCASE",
   "DOTA_GAMERULES_STATE_PRE_GAME",
   "DOTA_GAMERULES_STATE_GAME_IN_PROGRESS"]

structure Provider where
  appid : ℤ := 0
  deriving DecidableEq

structure AuthState where
  token : String := ""
  deriving DecidableEq

structure MapState where
  name : String := ""
  gameState : String := ""
  winTeam : String := ""
  customgamename : String := ""
  radiantScore : ℕ := 0
  direScore : ℕ := 0

structure PlayerState where
  teamName : String := ""
  kills : ℤ := 0
  deaths : ℤ := 0
  assists : ℤ := 0
  lastHits : ℤ := 0

structure HeroState where
  name : String := ""

structure GsiPayload where
  provider : Option Provider := none
  map : Option MapState := none
  player : Option PlayerState := none
  hero : Option HeroState := none
  auth : Option AuthState := none

structure Dota2State where
  matchActive : Bool := false
  lastOwn : ℕ := 0
  lastOpp : ℕ := 0
  mapName : String := ""

/-- The scores for the player's side; with no side known, the leading one first. -/
def splitScores (playerTeam : String) (radiant dire : ℕ) : ℕ × ℕ :=
  match playerTeam with
  | "radiant" => (radiant, dire)
  | "dire" => (dire, radiant)
  | _ => (max radiant dire, min radiant dire)

def deriveOutcome (playerTeam winTeam : String) : Outcome :=
  if winTeam = "" ∨ ¬ (playerTeam = "radiant" ∨ playerTeam = "dire") then .incomplete
  else if toAsciiLowercase winTeam = toAsciiLowercase playerTeam then .win
  else .loss

def displayHeroName (internal : String) : String :=
  let name := (internal.toList.dropPrefix? "npc_dota_hero_".toList).getD internal.toList
  .ofList (name.map fun c => if c = '_' then ' ' else c)

def GsiPayload.isOurs (payload : GsiPayload) (token : String) : Bool :=
  payload.auth = some { token } ∧ token ≠ "" ∧ payload.provider = some { appid := DOTA2_APPID }

/-- The match that is on was left for the menus. -/
def abandon (st : Dota2State) : Dota2State × List TelemetryEvent :=
  if st.matchActive then
    ({}, [.matchEnded {
      gameId := GAME_ID
      mode := "match"
      map := st.mapName
      result := .incomplete
      streakEligible := true
      ownScore := 0
      oppScore := 0 }])
  else (st, [])

def MapState.start (map : MapState) (st : Dota2State) : Dota2State × List TelemetryEvent :=
  if map.gameState ∈ ACTIVE_STATES ∧ ¬ st.matchActive then
    ({ matchActive := true, mapName := map.name }, [.matchStarted "match" map.name])
  else (st, [])

def MapState.score (map : MapState) (playerTeam : String) (st : Dota2State) : Dota2State × List TelemetryEvent :=
  let (own, opp) := splitScores playerTeam map.radiantScore map.direScore
  if st.matchActive ∧ (own ≠ st.lastOwn ∨ opp ≠ st.lastOpp) then
    ({ st with lastOwn := own, lastOpp := opp }, [.scoreChanged own opp])
  else (st, [])

def MapState.finish (map : MapState) (player : Option PlayerState) (hero : Option HeroState) (playerTeam : String)
    (st : Dota2State) : Dota2State × List TelemetryEvent :=
  let (own, opp) := splitScores playerTeam map.radiantScore map.direScore
  if map.gameState = "DOTA_GAMERULES_STATE_POST_GAME" ∧ st.matchActive then
    ({ st with matchActive := false }, [.matchEnded {
      gameId := GAME_ID
      mode := "match"
      map := map.name
      result := deriveOutcome playerTeam map.winTeam
      streakEligible := true
      ownScore := own
      oppScore := opp
      performance := player.map fun p => {
        kills := some p.kills.toNat
        deaths := some p.deaths.toNat
        assists := some p.assists.toNat
        cs := some p.lastHits.toNat }
      character := (hero.filter fun h => h.name ≠ "").map fun h => displayHeroName h.name }])
  else (st, [])

def MapState.digest (map : MapState) (player : Option PlayerState) (hero : Option HeroState) (st : Dota2State) :
    Dota2State × List TelemetryEvent :=
  let playerTeam := player.elim "" (·.teamName)
  let (st, started) := map.start st
  let (st, scored) := map.score playerTeam st
  let (st, ended) := map.finish player hero playerTeam st
  (st, started ++ scored ++ ended)

def parse (token : String) (st : Dota2State) (payload : Option GsiPayload) : Dota2State × List TelemetryEvent :=
  match payload.filter (·.isOurs token) with
  | none => (st, [])
  | some payload =>
    match payload.map with
    | none => abandon st
    | some map => if map.customgamename = "" then map.digest payload.player payload.hero st else ({}, [])

/-! ## The matches that it tracks -/

inductive Side where
  | radiant
  | dire

def Side.teamName : Side → String
  | .radiant => "radiant"
  | .dire => "dire"

def Side.other : Side → Side
  | .radiant => .dire
  | .dire => .radiant

def side (player : Option PlayerState) : Option Side :=
  match player.elim "" (·.teamName) with
  | "radiant" => some .radiant
  | "dire" => some .dire
  | _ => none

/-- The outcome for a side. Without a side as the winner there is none. -/
def MapState.verdict (map : MapState) (side : Side) : Outcome :=
  if toAsciiLowercase map.winTeam = side.teamName then .win
  else if toAsciiLowercase map.winTeam = side.other.teamName then .loss
  else .incomplete

def MapState.sign (map : MapState) : Sign Side Outcome :=
  if map.gameState ∈ ACTIVE_STATES then .plays
  else if map.gameState = "DOTA_GAMERULES_STATE_POST_GAME" then .done map.verdict
  else .quiet

/-- What a payload tells of the match it is about. -/
def account (token : String) (game : ℕ) (payload : Option GsiPayload) : Account Side Outcome :=
  match payload.filter (·.isOurs token) with
  | none => { game, sign := .quiet }
  | some payload =>
    match payload.map with
    | none => { game, sign := .away }
    | some map => if map.customgamename = "" then { game, side := side payload.player, sign := map.sign } else { game, sign := .apart }

/-- The outcome that the adapter reads off, where any winner but the player's side is a loss. -/
def MapState.outcome (map : MapState) (side : Side) : Outcome := deriveOutcome side.teamName map.winTeam

theorem deriveOutcome_eq (map : MapState) (player : Option PlayerState) :
    deriveOutcome (player.elim "" (·.teamName)) map.winTeam = (side player).elim .incomplete map.outcome := by
  unfold side
  split
  · rename_i here
    rw [here]
    rfl
  · rename_i here
    rw [here]
    rfl
  · rename_i notRadiant notDire
    exact if_pos (.inr (not_or_intro notRadiant notDire))

section Stages

variable (map : MapState) (player : Option PlayerState) (hero : Option HeroState) (playerTeam : String) (st : Dota2State)

theorem abandon_tracks (said : Option Outcome) :
    ((abandon st).1.matchActive, borders (abandon st).2) = track .incomplete st.matchActive said (.away : Sign Side Outcome) := by
  unfold abandon
  cases active : st.matchActive with
  | true => rfl
  | false => exact Prod.ext active rfl

theorem MapState.start_spec : ((map.start st).1.matchActive, borders (map.start st).2) =
    if map.gameState ∈ ACTIVE_STATES ∧ ¬ st.matchActive then (true, [.started]) else (st.matchActive, []) := by
  unfold MapState.start
  split_ifs <;> rfl

theorem MapState.score_spec :
    (map.score playerTeam st).1.matchActive = st.matchActive ∧ borders (map.score playerTeam st).2 = [] := by
  unfold MapState.score
  dsimp only
  split_ifs
  · exact ⟨rfl, rfl⟩
  · exact ⟨rfl, rfl⟩

theorem MapState.finish_spec :
    ((map.finish player hero playerTeam st).1.matchActive, borders (map.finish player hero playerTeam st).2) =
      if map.gameState = "DOTA_GAMERULES_STATE_POST_GAME" ∧ st.matchActive then
        (false, [.ended (deriveOutcome playerTeam map.winTeam)]) else (st.matchActive, []) := by
  unfold MapState.finish
  dsimp only
  split_ifs <;> rfl

theorem MapState.digest_tracks : ((map.digest player hero st).1.matchActive, borders (map.digest player hero st).2) =
    track .incomplete st.matchActive (some ((side player).elim .incomplete map.outcome)) map.sign := by
  have apart : map.gameState ∈ ACTIVE_STATES → ¬ map.gameState = "DOTA_GAMERULES_STATE_POST_GAME" := by
    intro active here
    rw [here] at active
    exact absurd active (by decide)
  have neutral := map.score_spec (player.elim "" (·.teamName)) (map.start st).1
  have finishes := map.finish_spec player hero (player.elim "" (·.teamName)) (map.score (player.elim "" (·.teamName)) (map.start st).1).1
  rw [neutral.1, deriveOutcome_eq] at finishes
  unfold MapState.digest MapState.sign
  dsimp only
  rw [borders_append, borders_append, neutral.2, List.append_nil]
  exact track_of_stages apart _ _ _ map.verdict (map.start_spec st) finishes

end Stages

def reads (payload : Option GsiPayload) : Option (Side → Outcome) := (payload.bind (·.map)).map MapState.outcome

def believed (payload : Option GsiPayload) : Option Side := side (payload.bind (·.player))

theorem parse_tracks (token : String) (st : Dota2State) (game : ℕ) (payload : Option GsiPayload) :
    ((parse token st payload).1.matchActive, borders (parse token st payload).2) =
      track .incomplete st.matchActive ((reads payload).map ((believed payload).elim .incomplete)) (account token game payload).sign := by
  unfold parse account
  cases found : payload.filter (·.isOurs token) with
  | none => rfl
  | some ours =>
    obtain ⟨rfl, -⟩ := Option.filter_eq_some_iff.mp found
    dsimp only
    cases here : ours.map with
    | none => exact abandon_tracks st _
    | some map =>
      dsimp only
      split_ifs
      · have both : (reads (some ours)).map ((believed (some ours)).elim .incomplete) =
            some ((side ours.player).elim .incomplete map.outcome) := by
          change (ours.map.map MapState.outcome).map ((side ours.player).elim .incomplete) = _
          rw [here]
          rfl
        rw [both]
        exact map.digest_tracks ours.player ours.hero st
      · rfl

def tracker (token : String) : Tracker Dota2State (ℕ × Option GsiPayload) Side Outcome where
  incomplete := .incomplete
  fresh := {}
  active := (·.matchActive)
  digest st input := ((parse token st input.2).1, borders (parse token st input.2).2)
  account input := account token input.1 input.2
  believed _ input := believed input.2
  reads input := reads input.2
  idle := rfl
  tracks st input := parse_tracks token st input.1 input.2

end Mello.Core.Dota2Gsi
