import Mello.Core.Telemetry
import Mello.Library.Tracking

/-!
The adapter of Counter-Strike 2: what it makes of the snapshots that the game posts. A payload is what
serde makes of a body, and `none` where it makes nothing of it.
-/

namespace Mello.Core.Cs2Gsi
open Telemetry Mello.Library Tracking

def GAME_ID : String := "counter-strike-2"
def CS2_APPID : ℤ := 730

structure Provider where
  appid : ℤ := 0
  deriving DecidableEq

structure AuthState where
  token : String := ""
  deriving DecidableEq

structure TeamState where
  score : ℕ := 0

structure MapState where
  mode : String := ""
  name : String := ""
  phase : String := ""
  teamCt : TeamState := {}
  teamT : TeamState := {}

structure MatchStats where
  kills : ℤ := 0
  assists : ℤ := 0
  deaths : ℤ := 0
  mvps : ℤ := 0
  score : ℤ := 0

structure PlayerState where
  team : String := ""
  matchStats : Option MatchStats := none

structure GsiPayload where
  provider : Option Provider := none
  map : Option MapState := none
  player : Option PlayerState := none
  auth : Option AuthState := none

structure Cs2State where
  matchActive : Bool := false
  lastCt : ℕ := 0
  lastT : ℕ := 0
  mode : String := ""
  mapName : String := ""

def isStreakMode (mode : String) : Bool :=
  toAsciiLowercase mode ∈ ["competitive", "premier", "scrimcomp2v2", "wingman"]

/-- The scores for the player's side; with no side known, the leading one first. -/
def splitScores (playerTeam : String) (ct t : ℕ) : ℕ × ℕ :=
  match playerTeam with
  | "CT" => (ct, t)
  | "T" => (t, ct)
  | _ => (max ct t, min ct t)

def ofScores (own opp : ℕ) : Outcome :=
  match compare own opp with
  | .gt => .win
  | .lt => .loss
  | .eq => .draw

def deriveOutcome (playerTeam : String) (ct t : ℕ) : Outcome :=
  match playerTeam with
  | "CT" => ofScores ct t
  | "T" => ofScores t ct
  | _ => .incomplete

def GsiPayload.isOurs (payload : GsiPayload) (token : String) : Bool :=
  payload.auth = some { token } ∧ token ≠ "" ∧ payload.provider = some { appid := CS2_APPID }

/-- The match that is on was left for the menus. -/
def abandon (st : Cs2State) : Cs2State × List TelemetryEvent :=
  if st.matchActive then
    ({}, [.matchEnded {
      gameId := GAME_ID
      mode := st.mode
      map := st.mapName
      result := .incomplete
      streakEligible := true
      ownScore := 0
      oppScore := 0 }])
  else (st, [])

def MapState.start (map : MapState) (st : Cs2State) : Cs2State × List TelemetryEvent :=
  if (map.phase = "warmup" ∨ map.phase = "live") ∧ ¬ st.matchActive then
    ({ matchActive := true, mode := map.mode, mapName := map.name }, [.matchStarted map.mode map.name])
  else (st, [])

def MapState.score (map : MapState) (playerTeam : String) (st : Cs2State) : Cs2State × List TelemetryEvent :=
  let (ct, t) := (map.teamCt.score, map.teamT.score)
  if st.matchActive ∧ (ct ≠ st.lastCt ∨ t ≠ st.lastT) then
    let (own, opp) := splitScores playerTeam ct t
    ({ st with lastCt := ct, lastT := t }, [.scoreChanged own opp])
  else (st, [])

def MapState.finish (map : MapState) (player : Option PlayerState) (playerTeam : String) (st : Cs2State) :
    Cs2State × List TelemetryEvent :=
  let (ct, t) := (map.teamCt.score, map.teamT.score)
  if map.phase = "gameover" ∧ st.matchActive then
    ({ st with matchActive := false }, [.matchEnded {
      gameId := GAME_ID
      mode := map.mode
      map := map.name
      result := deriveOutcome playerTeam ct t
      streakEligible := true
      ownScore := (splitScores playerTeam ct t).1
      oppScore := (splitScores playerTeam ct t).2
      performance := (player.bind (·.matchStats)).map fun ms => {
        kills := some ms.kills.toNat
        deaths := some ms.deaths.toNat
        assists := some ms.assists.toNat
        mvps := some ms.mvps.toNat
        score := some ms.score.toNat } }])
  else (st, [])

def MapState.digest (map : MapState) (player : Option PlayerState) (st : Cs2State) : Cs2State × List TelemetryEvent :=
  let playerTeam := player.elim "" (·.team)
  let (st, started) := map.start st
  let (st, scored) := map.score playerTeam st
  let (st, ended) := map.finish player playerTeam st
  (st, started ++ scored ++ ended)

def parse (token : String) (st : Cs2State) (payload : Option GsiPayload) : Cs2State × List TelemetryEvent :=
  match payload.filter (·.isOurs token) with
  | none => (st, [])
  | some payload =>
    match payload.map with
    | none => abandon st
    | some map => if isStreakMode map.mode then map.digest payload.player st else ({}, [])

/-! ## The matches that it tracks -/

inductive Side where
  | ct
  | t

def side (player : Option PlayerState) : Option Side :=
  match player.elim "" (·.team) with
  | "CT" => some .ct
  | "T" => some .t
  | _ => none

def MapState.verdict (map : MapState) : Side → Outcome
  | .ct => ofScores map.teamCt.score map.teamT.score
  | .t => ofScores map.teamT.score map.teamCt.score

def MapState.sign (map : MapState) : Sign Side Outcome :=
  if map.phase = "warmup" ∨ map.phase = "live" then .plays
  else if map.phase = "gameover" then .done map.verdict
  else .quiet

/-- What a payload tells of the match it is about. -/
def account (token : String) (game : ℕ) (payload : Option GsiPayload) : Account Side Outcome :=
  match payload.filter (·.isOurs token) with
  | none => { game, sign := .quiet }
  | some payload =>
    match payload.map with
    | none => { game, sign := .away }
    | some map => if isStreakMode map.mode then { game, side := side payload.player, sign := map.sign } else { game, sign := .apart }

theorem deriveOutcome_eq (map : MapState) (player : Option PlayerState) :
    deriveOutcome (player.elim "" (·.team)) map.teamCt.score map.teamT.score = (side player).elim .incomplete map.verdict := by
  unfold deriveOutcome side
  split <;> rfl

section Stages

variable (map : MapState) (player : Option PlayerState) (playerTeam : String) (st : Cs2State)

theorem abandon_tracks (said : Option Outcome) :
    ((abandon st).1.matchActive, borders (abandon st).2) = track .incomplete st.matchActive said (.away : Sign Side Outcome) := by
  unfold abandon
  cases active : st.matchActive with
  | true => rfl
  | false => exact Prod.ext active rfl

theorem MapState.start_spec : ((map.start st).1.matchActive, borders (map.start st).2) =
    if (map.phase = "warmup" ∨ map.phase = "live") ∧ ¬ st.matchActive then (true, [.started]) else (st.matchActive, []) := by
  unfold MapState.start
  split_ifs <;> rfl

theorem MapState.score_spec :
    (map.score playerTeam st).1.matchActive = st.matchActive ∧ borders (map.score playerTeam st).2 = [] := by
  unfold MapState.score
  dsimp only
  split_ifs
  · exact ⟨rfl, rfl⟩
  · exact ⟨rfl, rfl⟩

theorem MapState.finish_spec :
    ((map.finish player playerTeam st).1.matchActive, borders (map.finish player playerTeam st).2) =
      if map.phase = "gameover" ∧ st.matchActive then
        (false, [.ended (deriveOutcome playerTeam map.teamCt.score map.teamT.score)]) else (st.matchActive, []) := by
  unfold MapState.finish
  dsimp only
  split_ifs <;> rfl

theorem MapState.digest_tracks : ((map.digest player st).1.matchActive, borders (map.digest player st).2) =
    track .incomplete st.matchActive (some ((side player).elim .incomplete map.verdict)) map.sign := by
  have apart : (map.phase = "warmup" ∨ map.phase = "live") → ¬ map.phase = "gameover" := by
    rintro (here | here)
    · rw [here]
      decide
    · rw [here]
      decide
  have neutral := map.score_spec (player.elim "" (·.team)) (map.start st).1
  have finishes := map.finish_spec player (player.elim "" (·.team)) (map.score (player.elim "" (·.team)) (map.start st).1).1
  rw [neutral.1, deriveOutcome_eq] at finishes
  unfold MapState.digest MapState.sign
  dsimp only
  rw [borders_append, borders_append, neutral.2, List.append_nil]
  exact track_of_stages apart _ _ _ map.verdict (map.start_spec st) finishes

end Stages

def reads (payload : Option GsiPayload) : Option (Side → Outcome) := (payload.bind (·.map)).map MapState.verdict

def believed (payload : Option GsiPayload) : Option Side := side (payload.bind (·.player))

theorem parse_tracks (token : String) (st : Cs2State) (game : ℕ) (payload : Option GsiPayload) :
    ((parse token st payload).1.matchActive, borders (parse token st payload).2) =
      track .incomplete st.matchActive ((reads payload).map ((believed payload).elim .incomplete)) (account token game payload).sign := by
  unfold parse account
  cases found : payload.filter (·.isOurs token) with
  | none => rfl
  | some ours =>
    obtain ⟨rfl, -⟩ := Option.filter_eq_some_iff.mp found
    dsimp only
    cases here : ours.map with
    | none => exact abandon_tracks st _
    | some map =>
      dsimp only
      split_ifs
      · have both : (reads (some ours)).map ((believed (some ours)).elim .incomplete) =
            some ((side ours.player).elim .incomplete map.verdict) := by
          change (ours.map.map MapState.verdict).map ((side ours.player).elim .incomplete) = _
          rw [here]
          rfl
        rw [both]
        exact map.digest_tracks ours.player st
      · rfl

def tracker (token : String) : Tracker Cs2State (ℕ × Option GsiPayload) Side Outcome where
  incomplete := .incomplete
  fresh := {}
  active := (·.matchActive)
  digest st input := ((parse token st input.2).1, borders (parse token st input.2).2)
  account input := account token input.1 input.2
  believed _ input := believed input.2
  reads input := reads input.2
  idle := rfl
  tracks st input := parse_tracks token st input.1 input.2

end Mello.Core.Cs2Gsi
