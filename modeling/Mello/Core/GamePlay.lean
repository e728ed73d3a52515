import Mello.Core.GameState
import Mello.Core.Telemetry
import Mello.Library.Turns

/-!
The game sessions with what the telemetry adapters report: an adapter may open and close the session
of its game while the process stays up, and the matches go into the session they end in. `GameState`
is the same manager as the sensor alone sees it. Names and colours of the games leave the model.
-/

namespace Mello.Core.GamePlay
open Mello.Library Keyed Runs Turns GameSensing Telemetry
open GameState (minutes MIN_SESSION_LEDGER_MIN)

structure GameSession extends GameState.GameSession where
  matchResults : List MatchResult := []
  activityId : Option String := none
  activityName : Option String := none

structure SessionSummary extends GameState.SessionSummary where
  wins : ℕ
  losses : ℕ
  draws : ℕ
  matchResults : List MatchResult
  activity : Option String

inductive Event where
  | game (event : GameState.Event)
  | gameActivity (gameId activity : String)
  | matchEnded (result : String) (ownScore oppScore : ℕ) (map : String)
  | telemetrySetupHint (gameId hint : String)

structure GameStateManager where
  sessions : Table String GameSession := ∅
  primary : Option String := none
  gated : Finset String := ∅
  pending : Table String ActiveGame := ∅

/-- The streak-eligible results of this kind. -/
def tally (outcome : Outcome) (matchResults : List MatchResult) : ℕ :=
  matchResults.countP fun m => m.streakEligible && m.result = outcome

def currentGame (m : GameStateManager) : Option ActiveGame := (m.primary.bind m.sessions.lookup).map fun s => s.game

section Manager

-- The first key of a map, in the order that the map is iterated in.
variable (firstKey : List String → Option String)

def closeSession (m : GameStateManager) (gameId : String) (endedAt foregroundMs : ℤ) :
    GameStateManager × List Event × Option SessionSummary :=
  match m.sessions.lookup gameId with
  | none => (m, [], none)
  | some session =>
    let sessions := m.sessions.erase gameId
    let primary := if m.primary = some gameId then firstKey sessions.keys else m.primary
    let foreground := max (max session.game.foregroundMs foregroundMs - session.foregroundBase) 0
    let durationMin := minutes (endedAt - session.game.startedAt)
    let summary :=
      { gameId := session.game.gameId
        durationMin
        activeMin := minutes foreground
        startMs := session.game.startedAt
        endMs := endedAt
        wins := tally .win session.matchResults
        losses := tally .loss session.matchResults
        draws := tally .draw session.matchResults
        matchResults := session.matchResults
        activity := session.activityName }
    ({ m with sessions, primary }, [.game (.gameEnded session.game.gameId durationMin)],
      if MIN_SESSION_LEDGER_MIN ≤ durationMin then some summary else none)

/-- A session opens, with its game announced. -/
def openSession (m : GameStateManager) (gameId : String) (session : GameSession) :
    GameStateManager × List Event × Option SessionSummary :=
  ({ m with sessions := m.sessions.insert gameId session, primary := m.primary.or (some gameId) },
    [.game (.gameDetected session.game.gameId session.game.exe session.game.pid session.game.startedAt)], none)

def handleEvent (m : GameStateManager) : GameEvent → GameStateManager × List Event × Option SessionSummary
  | .started game =>
    if game.gameId ∈ m.gated then
      if game.gameId ∈ m.sessions then (m, [], none)
      else ({ m with pending := m.pending.insert game.gameId game }, [], none)
    else
      match m.sessions.lookup game.gameId with
      | some session =>
        let startedAt := if game.startedAt < session.game.startedAt then game.startedAt else session.game.startedAt
        let session := { session with game := { session.game with startedAt } }
        ({ m with sessions := m.sessions.insert game.gameId session }, [], none)
      | none => openSession m game.gameId { game, foregroundBase := 0 }
  | .stopped game endedAt =>
    closeSession firstKey { m with pending := m.pending.erase game.gameId } game.gameId endedAt game.foregroundMs
  | .foreground gameId foregroundMs =>
    let grow := fun game : ActiveGame => { game with foregroundMs := max game.foregroundMs foregroundMs }
    ({ m with
        sessions :=
          match m.sessions.lookup gameId with
          | some session => m.sessions.insert gameId { session with game := grow session.game }
          | none => m.sessions
        pending :=
          match m.pending.lookup gameId with
          | some game => m.pending.insert gameId (grow game)
          | none => m.pending }, [], none)
  | .primaryChanged gameId =>
    let parked := gameId.any fun id => id ∈ m.pending
    ({ m with primary := if parked then firstKey m.sessions.keys else gameId }, [], none)

def handleTelemetry (m : GameStateManager) : TelemetryEvent → GameStateManager × List Event × Option SessionSummary
  | .activityStarted gameId activityId ts =>
    match m.sessions.lookup gameId with
    | some session =>
      let moved := { session with activityId := some activityId, activityName := none }
      ({ m with sessions := m.sessions.insert gameId moved },
        if session.activityName.isSome then [.gameActivity gameId ""] else [], none)
    | none =>
      match m.pending.lookup gameId with
      | some game =>
        openSession { m with pending := m.pending.erase gameId } gameId
          { game := { game with startedAt := ts }, foregroundBase := game.foregroundMs, activityId := some activityId }
      | none => (m, [], none)
  | .activityNamed gameId activityId name =>
    match m.sessions.lookup gameId with
    | some session =>
      if session.activityId = some activityId then
        ({ m with sessions := m.sessions.insert gameId { session with activityName := some name } },
          [.gameActivity gameId name], none)
      else (m, [], none)
    | none => (m, [], none)
  | .activityEnded gameId ts =>
    match m.sessions.lookup gameId with
    | some session =>
      let (closed, events, summary) := closeSession firstKey m gameId ts session.game.foregroundMs
      ({ closed with pending := closed.pending.insert gameId session.game }, events, summary)
    | none => (m, [], none)
  | .matchEnded result =>
    match m.sessions.entries.find? fun entry => entry.2.game.gameId = result.gameId with
    | some ⟨gameId, session⟩ =>
      ({ m with sessions := m.sessions.insert gameId { session with matchResults := session.matchResults ++ [result] } },
        [.matchEnded result.result.asStr result.ownScore result.oppScore result.map], none)
    | none => (m, [], none)
  | .matchStarted _ _ | .scoreChanged _ _ => (m, [], none)
  | .setupRequired gameId hint => (m, [.telemetrySetupHint gameId hint], none)

inductive Action where
  | setGatedGames (ids : Finset String)
  | event (event : GameEvent)
  | telemetry (event : TelemetryEvent)

def act (m : GameStateManager) : Action → GameStateManager × List Event × Option SessionSummary
  | .setGatedGames ids => ({ m with gated := ids }, [], none)
  | .event event => handleEvent firstKey m event
  | .telemetry event => handleTelemetry firstKey m event

end Manager

/-! ## Without the adapters -/

/-- What `GameState` keeps of the manager. -/
structure Forgets (m : GameStateManager) (n : GameState.GameStateManager) : Prop where
  sessions : ∀ gameId, n.sessions.lookup gameId = (m.sessions.lookup gameId).map fun s => s.toGameSession
  keys : n.sessions.keys = m.sessions.keys
  primary : n.primary = m.primary
  gated : n.gated = m.gated
  pending : n.pending = m.pending

/-- The same result for the sensor. -/
def Agrees (result : GameStateManager × List Event × Option SessionSummary)
    (sensed : GameState.GameStateManager × List GameState.Event × Option GameState.SessionSummary) : Prop :=
  Forgets result.1 sensed.1 ∧ result.2.1 = sensed.2.1.map Event.game ∧ sensed.2.2 = result.2.2.map fun s => s.toSessionSummary

section Forgets

variable {m : GameStateManager} {n : GameState.GameStateManager}

theorem Forgets.mem (forgets : Forgets m n) (gameId : String) : gameId ∈ n.sessions ↔ gameId ∈ m.sessions := by
  rw [← AList.lookup_isSome, ← AList.lookup_isSome, forgets.sessions, Option.isSome_map]

theorem Forgets.insert (forgets : Forgets m n) (gameId : String) (session : GameSession) (primary : Option String) :
    Forgets { m with sessions := m.sessions.insert gameId session, primary }
      { n with sessions := n.sessions.insert gameId session.toGameSession, primary } where
  sessions := by
    intro other
    dsimp only
    rcases eq_or_ne other gameId with rfl | apart
    · rw [AList.lookup_insert, AList.lookup_insert, Option.map_some]
    · rw [AList.lookup_insert_ne apart, AList.lookup_insert_ne apart, forgets.sessions]
  keys := by
    rw [AList.keys_insert, AList.keys_insert, forgets.keys]
  primary := rfl
  gated := forgets.gated
  pending := forgets.pending

theorem closeSession_agrees (firstKey : List String → Option String) (forgets : Forgets m n) (gameId : String)
    (endedAt foregroundMs : ℤ) :
    Agrees (closeSession firstKey m gameId endedAt foregroundMs) (GameState.closeSession firstKey n gameId endedAt foregroundMs) := by
  have same := forgets.sessions gameId
  unfold closeSession GameState.closeSession
  cases here : m.sessions.lookup gameId with
  | none =>
    rw [here, Option.map_none] at same
    rw [same]
    exact ⟨forgets, rfl, rfl⟩
  | some session =>
    rw [here, Option.map_some] at same
    rw [same]
    have keys : (n.sessions.erase gameId).keys = (m.sessions.erase gameId).keys := by
      rw [AList.keys_erase, AList.keys_erase, forgets.keys]
    refine ⟨⟨?_, keys, ?_, forgets.gated, forgets.pending⟩, rfl, ?_⟩
    · intro other
      dsimp only
      rcases eq_or_ne other gameId with rfl | apart
      · rw [AList.lookup_erase, AList.lookup_erase, Option.map_none]
      · rw [AList.lookup_erase_ne apart, AList.lookup_erase_ne apart, forgets.sessions]
    · dsimp only
      rw [forgets.primary, keys]
    · dsimp only [Option.map_some]
      split_ifs <;> rfl

/-- Of what the sensor says, the manager makes what `GameState` makes of it. -/
theorem handleEvent_agrees (firstKey : List String → Option String) (forgets : Forgets m n) (event : GameEvent) :
    Agrees (handleEvent firstKey m event) (GameState.handleEvent firstKey n event) := by
  obtain ⟨sessions, primary, gated, pending⟩ := n
  obtain ⟨lookups, keys, rfl, rfl, rfl⟩ := forgets
  have forgets : Forgets m ⟨sessions, m.primary, m.gated, m.pending⟩ := ⟨lookups, keys, rfl, rfl, rfl⟩
  cases event with
  | started game =>
    have same := lookups game.gameId
    have mem : game.gameId ∈ sessions ↔ game.gameId ∈ m.sessions := forgets.mem game.gameId
    unfold handleEvent GameState.handleEvent
    dsimp only
    split_ifs with isGated known known' known'
    · exact ⟨forgets, rfl, rfl⟩
    · exact absurd (mem.mpr known) known'
    · exact absurd (mem.mp known') known
    · exact ⟨⟨lookups, keys, rfl, rfl, rfl⟩, rfl, rfl⟩
    · cases here : m.sessions.lookup game.gameId with
      | none =>
        rw [here, Option.map_none] at same
        rw [same]
        exact ⟨forgets.insert game.gameId { game, foregroundBase := 0 } (m.primary.or (some game.gameId)), rfl, rfl⟩
      | some session =>
        rw [here, Option.map_some] at same
        rw [same]
        exact ⟨forgets.insert game.gameId _ m.primary, rfl, rfl⟩
  | stopped game endedAt =>
    have left : Forgets { m with pending := m.pending.erase game.gameId }
        ⟨sessions, m.primary, m.gated, m.pending.erase game.gameId⟩ := ⟨lookups, keys, rfl, rfl, rfl⟩
    exact closeSession_agrees firstKey left game.gameId endedAt game.foregroundMs
  | foreground gameId foregroundMs =>
    have same := lookups gameId
    unfold handleEvent GameState.handleEvent
    dsimp only
    cases here : m.sessions.lookup gameId with
    | none =>
      rw [here, Option.map_none] at same
      rw [same]
      exact ⟨⟨lookups, keys, rfl, rfl, rfl⟩, rfl, rfl⟩
    | some session =>
      rw [here, Option.map_some] at same
      rw [same]
      have grown := forgets.insert gameId
        { session with game := { session.game with foregroundMs := max session.game.foregroundMs foregroundMs } } m.primary
      exact ⟨⟨grown.sessions, grown.keys, rfl, rfl, rfl⟩, rfl, rfl⟩
  | primaryChanged gameId =>
    unfold handleEvent GameState.handleEvent
    refine ⟨⟨lookups, keys, ?_, rfl, rfl⟩, rfl, rfl⟩
    dsimp only
    rw [keys]

end Forgets

/-! ## What is claimed -/

/-- What goes in, and what comes out. -/
structure Entry where
  input : Action
  events : List Event
  summary : Option SessionSummary

/-- A foreground total is a time, and never below 0. -/
def Action.timed : Action → Bool
  | .event (.started game) | .event (.stopped game _) => 0 ≤ game.foregroundMs
  | .event (.foreground _ foregroundMs) => 0 ≤ foregroundMs
  | _ => true

def step (firstKey : List String → Option String) (m : GameStateManager) (input : Action) :
    Option (GameStateManager × List Entry) :=
  if input.timed then
    let (m, events, summary) := act firstKey m input
    some (m, [⟨input, events, summary⟩])
  else none

/-- A session that is over: the matches that were reported while it was open, and what the manager
made of it. -/
structure Closed where
  matchResults : List MatchResult
  durationMin : ℕ
  summary : Option SessionSummary

/-- What an observer of inputs and outputs knows of one game. `turns` has a `true` for each
`GameDetected` and a `false` for each `GameEnded`. A process is up from its `Started` on to its
`Stopped`; a `Started` while a session is open is a repeat. `total` is its foreground time, and
`spent` are the minutes in the summaries of its sessions. -/
structure Watch where
  isUp : Bool := false
  reported : Option (List MatchResult) := none
  closed : List Closed := []
  turns : List Bool := []
  total : ℤ := 0
  spent : ℕ := 0

namespace Watch

variable (gameId : String)

def hear (w : Watch) : Action → Watch
  | .event (.started game) =>
    if game.gameId = gameId then
      if w.reported.isSome then { w with isUp := true, total := max w.total game.foregroundMs }
      else { w with isUp := true, total := game.foregroundMs, spent := 0 }
    else w
  | .event (.stopped game _) =>
    if game.gameId = gameId then { w with isUp := false, total := max w.total game.foregroundMs } else w
  | .event (.foreground game foregroundMs) => if game = gameId then { w with total := max w.total foregroundMs } else w
  | .telemetry (.matchEnded m) =>
    if m.gameId = gameId then { w with reported := w.reported.map (· ++ [m]) } else w
  | _ => w

def see (summary : Option SessionSummary) (w : Watch) : Event → Watch
  | .game (.gameDetected game _ _ _) =>
    if game = gameId then { w with reported := some [], turns := w.turns ++ [true] } else w
  | .game (.gameEnded game durationMin) =>
    if game = gameId then
      { w with
        reported := none
        closed := w.closed ++ [⟨w.reported.getD [], durationMin, summary⟩]
        turns := w.turns ++ [false]
        spent := w.spent + summary.elim 0 fun s => s.activeMin }
    else w
  | _ => w

def next (w : Watch) (entry : Entry) : Watch := entry.events.foldl (see gameId entry.summary) (w.hear gameId entry.input)

end Watch

def watch (gameId : String) (log : List Entry) : Watch := log.foldl (Watch.next gameId) {}

/-- The game of the last `PrimaryChanged`. -/
def lastPrimary (log : List Entry) : Option String :=
  log.foldl (fun last entry => match entry.input with | .event (.primaryChanged gameId) => gameId | _ => last) none

/-- A session that lasted is in a summary with exactly its matches, any other in none. -/
def Closed.InLedger (gameId : String) (c : Closed) : Prop :=
  match c.summary with
  | some summary => MIN_SESSION_LEDGER_MIN ≤ c.durationMin ∧ summary.gameId = gameId ∧ summary.matchResults = c.matchResults
  | none => c.durationMin < MIN_SESSION_LEDGER_MIN

structure Booked (m : GameStateManager) (log : List Entry) : Prop where
  apart : ∀ gameId ∈ m.sessions, gameId ∉ m.pending
  turns : ∀ gameId, TakeTurns (watch gameId log).turns (decide (gameId ∈ m.sessions))
  reported : ∀ gameId, (watch gameId log).reported = (m.sessions.lookup gameId).map fun s => s.matchResults
  ledger : ∀ gameId, ∀ c ∈ (watch gameId log).closed, c.InLedger gameId
  foreground : ∀ gameId, (watch gameId log).spent ≤ (watch gameId log).total / 60000
  opened : ∀ gameId, (watch gameId log).isUp → gameId ∉ m.gated → gameId ∈ m.sessions
  primary : ∀ gameId, lastPrimary log = some gameId → gameId ∈ m.sessions → (currentGame m).map (·.gameId) = some gameId

/-- The session that an input opens. -/
def opens (m : GameStateManager) : Action → Option String
  | .event (.started game) => if game.gameId ∉ m.gated ∧ game.gameId ∉ m.sessions then some game.gameId else none
  | .telemetry (.activityStarted gameId _ _) => if gameId ∉ m.sessions ∧ gameId ∈ m.pending then some gameId else none
  | _ => none

/-- A parked game stays gated, only a gated game is parked, and the session that opens for the game
in focus finds no other game as the primary one. -/
structure Follows (m : GameStateManager) (log : List Entry) (input : Action) : Prop where
  parked : ∀ ids, input = .setGatedGames ids → ∀ gameId ∈ m.pending, gameId ∈ ids
  parks : ∀ gameId ts, input = .telemetry (.activityEnded gameId ts) → gameId ∈ m.sessions → gameId ∈ m.gated
  focus : ∀ gameId, opens m input = some gameId → lastPrimary log = some gameId → m.primary = none ∨ m.primary = some gameId

/-! ## What an input does -/

/-- Each entry is under its own game. -/
def Own {Value : Type} (game : Value → ActiveGame) (table : Table String Value) : Prop :=
  ∀ gameId value, table.lookup gameId = some value → (game value).gameId = gameId

structure Owned (m : GameStateManager) : Prop where
  sessions : Own (fun s : GameSession => s.game) m.sessions
  pending : Own id m.pending

section Own

variable {Value : Type} {game : Value → ActiveGame} {table : Table String Value}

theorem Own.insert (own : Own game table) {gameId : String} {value : Value} (mine : (game value).gameId = gameId) :
    Own game (table.insert gameId value) := by
  intro other found here
  rcases eq_or_ne other gameId with rfl | apart
  · obtain rfl := Option.some.inj ((AList.lookup_insert table).symm.trans here)
    exact mine
  · exact own other found ((AList.lookup_insert_ne apart).symm.trans here)

theorem Own.erase (own : Own game table) (gameId : String) : Own game (table.erase gameId) := by
  intro other found here
  rcases eq_or_ne other gameId with rfl | apart
  · rw [AList.lookup_erase] at here
    cases here
  · exact own other found ((AList.lookup_erase_ne apart).symm.trans here)

/-- A search by game finds the entry of its key. -/
theorem Own.of_find? (own : Own game table) {gameId key : String} {value : Value}
    (found : table.entries.find? (fun entry => (game entry.2).gameId = gameId) = some ⟨key, value⟩) :
    key = gameId ∧ table.lookup gameId = some value := by
  have here := mem_entries.mp (List.mem_of_find?_eq_some found)
  have same : (game value).gameId = gameId := by simpa using List.find?_some found
  obtain rfl : key = gameId := (own key value here).symm.trans same
  exact ⟨rfl, here⟩

theorem Own.of_find?_none (own : Own game table) {gameId : String}
    (missing : table.entries.find? (fun entry => (game entry.2).gameId = gameId) = none) : table.lookup gameId = none := by
  cases here : table.lookup gameId with
  | none => rfl
  | some value =>
    have other := List.find?_eq_none.mp missing _ (mem_entries.mpr here)
    exact absurd (decide_eq_true (own gameId value here)) other

end Own

/-- The changes of the manager, with all that an input is told back. -/
inductive Acted (firstKey : List String → Option String) (m : GameStateManager) :
    Action → GameStateManager → List Event → Option SessionSummary → Prop
  | gates (ids : Finset String) : Acted firstKey m (.setGatedGames ids) { m with gated := ids } [] none
  | kept {game : ActiveGame} {session : GameSession} (here : m.sessions.lookup game.gameId = some session) :
      Acted firstKey m (.event (.started game)) m [] none
  | repeated {game : ActiveGame} {session : GameSession} (here : m.sessions.lookup game.gameId = some session) (startedAt : ℤ) :
      Acted firstKey m (.event (.started game))
        { m with sessions := m.sessions.insert game.gameId { session with game := { session.game with startedAt } } } [] none
  | parked {game : ActiveGame} (isGated : game.gameId ∈ m.gated) (closed : m.sessions.lookup game.gameId = none) :
      Acted firstKey m (.event (.started game)) { m with pending := m.pending.insert game.gameId game } [] none
  | started {game : ActiveGame} (free : game.gameId ∉ m.gated) (closed : m.sessions.lookup game.gameId = none) :
      Acted firstKey m (.event (.started game))
        { m with sessions := m.sessions.insert game.gameId { game, foregroundBase := 0 }, primary := m.primary.or (some game.gameId) }
        [.game (.gameDetected game.gameId game.exe game.pid game.startedAt)] none
  | gone {game : ActiveGame} (endedAt : ℤ) (closed : m.sessions.lookup game.gameId = none) :
      Acted firstKey m (.event (.stopped game endedAt)) { m with pending := m.pending.erase game.gameId } [] none
  | stopped {game : ActiveGame} (endedAt : ℤ) {session : GameSession} (here : m.sessions.lookup game.gameId = some session) :
      Acted firstKey m (.event (.stopped game endedAt))
        (closeSession firstKey { m with pending := m.pending.erase game.gameId } game.gameId endedAt game.foregroundMs).1
        (closeSession firstKey { m with pending := m.pending.erase game.gameId } game.gameId endedAt game.foregroundMs).2.1
        (closeSession firstKey { m with pending := m.pending.erase game.gameId } game.gameId endedAt game.foregroundMs).2.2
  | grew (gameId : String) (foregroundMs : ℤ) :
      Acted firstKey m (.event (.foreground gameId foregroundMs)) (handleEvent firstKey m (.foreground gameId foregroundMs)).1 [] none
  | focused (gameId : Option String) :
      Acted firstKey m (.event (.primaryChanged gameId))
        { m with primary := if gameId.any fun id => id ∈ m.pending then firstKey m.sessions.keys else gameId } [] none
  | moved {gameId : String} {session : GameSession} (here : m.sessions.lookup gameId = some session) {event : TelemetryEvent}
      (activityId activityName : Option String) {events : List Event} (quiet : ∀ e ∈ events, ∃ name, e = .gameActivity gameId name)
      (about : (∃ id ts, event = .activityStarted gameId id ts) ∨ ∃ id name, event = .activityNamed gameId id name) :
      Acted firstKey m (.telemetry event)
        { m with sessions := m.sessions.insert gameId { session with activityId, activityName } } events none
  | joined {gameId : String} {game : ActiveGame} (activityId : String) (ts : ℤ) (closed : m.sessions.lookup gameId = none)
      (here : m.pending.lookup gameId = some game) :
      Acted firstKey m (.telemetry (.activityStarted gameId activityId ts))
        { m with
          pending := m.pending.erase gameId
          sessions := m.sessions.insert gameId
            { game := { game with startedAt := ts }, foregroundBase := game.foregroundMs, activityId := some activityId }
          primary := m.primary.or (some gameId) }
        [.game (.gameDetected game.gameId game.exe game.pid ts)] none
  | left {gameId : String} {session : GameSession} (ts : ℤ) (here : m.sessions.lookup gameId = some session) :
      Acted firstKey m (.telemetry (.activityEnded gameId ts))
        { (closeSession firstKey m gameId ts session.game.foregroundMs).1 with pending := m.pending.insert gameId session.game }
        (closeSession firstKey m gameId ts session.game.foregroundMs).2.1
        (closeSession firstKey m gameId ts session.game.foregroundMs).2.2
  | matched {result : MatchResult} {session : GameSession} (here : m.sessions.lookup result.gameId = some session) :
      Acted firstKey m (.telemetry (.matchEnded result))
        { m with
          sessions := m.sessions.insert result.gameId { session with matchResults := session.matchResults ++ [result] } }
        [.matchEnded result.result.asStr result.ownScore result.oppScore result.map] none
  | ignored {event : TelemetryEvent} {events : List Event} (quiet : ∀ e ∈ events, ∃ gameId hint, e = .telemetrySetupHint gameId hint)
      (unmatched : ∀ result, event = .matchEnded result → m.sessions.lookup result.gameId = none)
      (unopened : opens m (.telemetry event) = none)
      (unended : ∀ gameId ts, event = .activityEnded gameId ts → m.sessions.lookup gameId = none) :
      Acted firstKey m (.telemetry event) m events none

section Acts

variable {firstKey : List String → Option String} {m after : GameStateManager} {input : Action}

theorem not_mem_of_lookup {Value : Type} {table : Table String Value} {gameId : String} (none' : table.lookup gameId = none) :
    gameId ∉ table := AList.lookup_eq_none.mp none'

theorem mem_of_lookup {Value : Type} {table : Table String Value} {gameId : String} {value : Value}
    (here : table.lookup gameId = some value) : gameId ∈ table := by
  rw [← AList.lookup_isSome, here]
  rfl

theorem acted_event (firstKey : List String → Option String) (m : GameStateManager) (event : GameEvent) :
    Acted firstKey m (.event event) (handleEvent firstKey m event).1 (handleEvent firstKey m event).2.1
      (handleEvent firstKey m event).2.2 := by
  cases event with
  | started game =>
    unfold handleEvent
    dsimp only
    split_ifs with isGated known
    · obtain ⟨session, here⟩ := Option.isSome_iff_exists.mp (AList.lookup_isSome.mpr known)
      exact .kept here
    · exact .parked isGated (AList.lookup_eq_none.mpr known)
    · split
      · rename_i session here
        exact .repeated here _
      · rename_i closed
        exact .started isGated closed
  | stopped game endedAt =>
    cases here : m.sessions.lookup game.gameId with
    | none =>
      unfold handleEvent closeSession
      dsimp only
      rw [here]
      exact .gone endedAt here
    | some session => exact .stopped endedAt here
  | foreground gameId foregroundMs => exact .grew gameId foregroundMs
  | primaryChanged gameId => exact .focused gameId

theorem acted_telemetry (firstKey : List String → Option String) (owned : Owned m) (event : TelemetryEvent) :
    Acted firstKey m (.telemetry event) (handleTelemetry firstKey m event).1 (handleTelemetry firstKey m event).2.1
      (handleTelemetry firstKey m event).2.2 := by
  have still {event : TelemetryEvent} (unopened : opens m (.telemetry event) = none)
      (unmatched : ∀ result, event = .matchEnded result → m.sessions.lookup result.gameId = none)
      (unended : ∀ gameId ts, event = .activityEnded gameId ts → m.sessions.lookup gameId = none) :
      Acted firstKey m (.telemetry event) m [] none :=
    .ignored (fun _ member => (List.not_mem_nil member).elim) unmatched unopened unended
  cases event with
  | activityStarted gameId activityId ts =>
    unfold handleTelemetry
    dsimp only
    split
    · rename_i session here
      refine .moved here (some activityId) none ?_ (.inl ⟨activityId, ts, rfl⟩)
      split_ifs
      · rintro e member
        exact ⟨"", List.mem_singleton.mp member⟩
      · exact fun _ member => (List.not_mem_nil member).elim
    · rename_i closed
      split
      · rename_i game here
        exact .joined activityId ts closed here
      · rename_i absent
        refine still ?_ (fun _ => TelemetryEvent.noConfusion) fun _ _ => TelemetryEvent.noConfusion
        unfold opens
        exact if_neg fun both => not_mem_of_lookup absent both.2
  | activityNamed gameId activityId name =>
    unfold handleTelemetry
    dsimp only
    split
    · rename_i session here
      split_ifs
      · refine .moved here session.activityId (some name) ?_ (.inr ⟨activityId, name, rfl⟩)
        rintro e member
        exact ⟨name, List.mem_singleton.mp member⟩
      · exact still rfl (fun _ => TelemetryEvent.noConfusion) fun _ _ => TelemetryEvent.noConfusion
    · exact still rfl (fun _ => TelemetryEvent.noConfusion) fun _ _ => TelemetryEvent.noConfusion
  | activityEnded gameId ts =>
    unfold handleTelemetry
    dsimp only
    split
    · rename_i session here
      have pending : (closeSession firstKey m gameId ts session.game.foregroundMs).1.pending = m.pending := by
        unfold closeSession
        rw [here]
      rw [pending]
      exact .left ts here
    · rename_i closed
      refine still rfl (fun _ => TelemetryEvent.noConfusion) ?_
      rintro other ts ⟨⟩
      exact closed
  | matchEnded result =>
    unfold handleTelemetry
    dsimp only
    split
    · rename_i key session found
      obtain ⟨rfl, here⟩ := owned.sessions.of_find? found
      exact .matched here
    · rename_i missing
      refine still rfl ?_ fun _ _ => TelemetryEvent.noConfusion
      rintro result ⟨⟩
      exact owned.sessions.of_find?_none missing
  | matchStarted | scoreChanged =>
    exact still rfl (fun _ => TelemetryEvent.noConfusion) fun _ _ => TelemetryEvent.noConfusion
  | setupRequired gameId hint =>
    refine .ignored ?_ (fun _ => TelemetryEvent.noConfusion) rfl fun _ _ => TelemetryEvent.noConfusion
    rintro e member
    exact ⟨gameId, hint, List.mem_singleton.mp member⟩

theorem acted_act (firstKey : List String → Option String) (owned : Owned m) (input : Action) :
    Acted firstKey m input (act firstKey m input).1 (act firstKey m input).2.1 (act firstKey m input).2.2 := by
  cases input with
  | setGatedGames ids => exact .gates ids
  | event event => exact acted_event firstKey m event
  | telemetry event => exact acted_telemetry firstKey owned event

end Acts

section Owned

variable {firstKey : List String → Option String} {m after : GameStateManager} {input : Action} {events : List Event}
  {summary : Option SessionSummary}

theorem closeSession_eq (firstKey : List String → Option String) {gameId : String} {session : GameSession}
    (here : m.sessions.lookup gameId = some session) (endedAt foregroundMs : ℤ) :
    ∃ primary summary, closeSession firstKey m gameId endedAt foregroundMs =
        ({ m with sessions := m.sessions.erase gameId, primary },
          [.game (.gameEnded session.game.gameId (minutes (endedAt - session.game.startedAt)))], summary) ∧
      primary = (if m.primary = some gameId then firstKey (m.sessions.erase gameId).keys else m.primary) ∧
      (⟨session.matchResults, minutes (endedAt - session.game.startedAt), summary⟩ : Closed).InLedger session.game.gameId ∧
      ∀ s ∈ summary, s.activeMin = minutes (max (max session.game.foregroundMs foregroundMs - session.foregroundBase) 0) := by
  unfold closeSession
  rw [here]
  refine ⟨_, _, rfl, rfl, ?_, ?_⟩
  · unfold Closed.InLedger
    dsimp only
    split_ifs with long
    · exact ⟨long, rfl, rfl⟩
    · exact not_le.mp long
  · intro s made
    split_ifs at made
    · obtain rfl := Option.some.inj made
      rfl
    · cases made

theorem owned_step (owned : Owned m) (acted : Acted firstKey m input after events summary) : Owned after := by
  cases acted with
  | gates | kept | focused | ignored => exact ⟨owned.sessions, owned.pending⟩
  | repeated here | moved here | matched here =>
    have mine := owned.sessions _ _ here
    exact ⟨owned.sessions.insert mine, owned.pending⟩
  | parked => exact ⟨owned.sessions, owned.pending.insert rfl⟩
  | started => exact ⟨owned.sessions.insert rfl, owned.pending⟩
  | gone => exact ⟨owned.sessions, owned.pending.erase _⟩
  | @stopped game endedAt session here =>
    obtain ⟨primary, summary, same, -⟩ := closeSession_eq (m := { m with pending := m.pending.erase game.gameId }) firstKey here
      endedAt game.foregroundMs
    rw [same]
    exact ⟨owned.sessions.erase _, owned.pending.erase _⟩
  | grew gameId foregroundMs =>
    unfold handleEvent
    refine ⟨?_, ?_⟩
    · dsimp only
      split
      · rename_i session here
        have mine := owned.sessions _ _ here
        exact owned.sessions.insert mine
      · exact owned.sessions
    · dsimp only
      split
      · rename_i game here
        have mine := owned.pending _ _ here
        exact owned.pending.insert mine
      · exact owned.pending
  | joined activityId ts closed here =>
    have mine := owned.pending _ _ here
    exact ⟨owned.sessions.insert mine, owned.pending.erase _⟩
  | @left gameId session ts here =>
    obtain ⟨primary, summary, same, -⟩ := closeSession_eq firstKey here ts session.game.foregroundMs
    rw [same]
    have mine := owned.sessions _ _ here
    exact ⟨owned.sessions.erase _, owned.pending.insert mine⟩

end Owned

/-! ## One game -/

theorem minutes_le (ms : ℤ) : 60000 * (minutes ms : ℤ) ≤ max ms 0 := by
  have less : ((max ms 0 / 60000).toNat % 2 ^ 32 : ℕ) ≤ (max ms 0 / 60000).toNat := Nat.mod_le _ _
  have positive : 0 ≤ max ms 0 / 60000 := Int.ediv_nonneg (le_max_right _ _) (by norm_num)
  have small : (minutes ms : ℤ) ≤ max ms 0 / 60000 := by
    unfold minutes
    omega
  omega

/-- What the manager holds of a game is what the observer knows. -/
structure Tracks (gameId : String) (session : Option GameSession) (parked : Option ActiveGame) (w : Watch) : Prop where
  isUp : w.isUp = true ↔ session.isSome ∨ parked.isSome
  reported : w.reported = session.map fun s => s.matchResults
  turns : TakeTurns w.turns session.isSome
  ledger : ∀ c ∈ w.closed, c.InLedger gameId
  spent : 60000 * (w.spent : ℤ) ≤ w.total
  base : ∀ s ∈ session, 60000 * (w.spent : ℤ) ≤ s.foregroundBase ∧ s.foregroundBase ≤ s.game.foregroundMs ∧ s.game.foregroundMs ≤ w.total
  waits : session = none → ∀ game ∈ parked, 60000 * (w.spent : ℤ) ≤ game.foregroundMs ∧ game.foregroundMs ≤ w.total

namespace Tracks

variable {gameId : String} {session : GameSession} {open' : Option GameSession} {parked : Option ActiveGame} {w : Watch}

theorem start (gameId : String) : Tracks gameId none none {} where
  isUp := by simp
  reported := rfl
  turns := takeTurns_nil
  ledger := nofun
  spent := le_rfl
  base := nofun
  waits := nofun

/-- The session and the total change while it goes on. -/
theorem goesOn (tracks : Tracks gameId (some session) parked w) {next : GameSession} {parked' : Option ActiveGame} {total : ℤ}
    (base : next.foregroundBase = session.foregroundBase) (grown : session.game.foregroundMs ≤ next.game.foregroundMs)
    (within : next.game.foregroundMs ≤ total) (more : w.total ≤ total) :
    Tracks gameId (some next) parked' { w with isUp := true, total, reported := some next.matchResults } where
  isUp := by simp
  reported := rfl
  turns := tracks.turns
  ledger := tracks.ledger
  spent := tracks.spent.trans more
  base := by
    rintro s ⟨⟩
    obtain ⟨low, mid, -⟩ := tracks.base session rfl
    dsimp only
    rw [base]
    exact ⟨low, mid.trans grown, within⟩
  waits := nofun

/-- A process comes up without a session. -/
theorem parks (tracks : Tracks gameId none parked w) {game : ActiveGame} (timed : 0 ≤ game.foregroundMs) :
    Tracks gameId none (some game) { w with isUp := true, total := game.foregroundMs, spent := 0 } where
  isUp := by simp
  reported := tracks.reported
  turns := tracks.turns
  ledger := tracks.ledger
  spent := timed
  base := nofun
  waits := by
    rintro - other ⟨⟩
    exact ⟨timed, le_rfl⟩

/-- A session opens at a foreground total. -/
theorem starts (tracks : Tracks gameId none parked w) (isUp : w.isUp = true) {next : GameSession} {parked' : Option ActiveGame}
    (spent : 60000 * (w.spent : ℤ) ≤ next.foregroundBase) (base : next.foregroundBase ≤ next.game.foregroundMs)
    (within : next.game.foregroundMs ≤ w.total) (fresh : next.matchResults = []) :
    Tracks gameId (some next) parked' { w with reported := some [], turns := w.turns ++ [true] } where
  isUp := by simp [isUp]
  reported := by rw [Option.map_some, fresh]
  turns := tracks.turns.concat
  ledger := tracks.ledger
  spent := tracks.spent
  base := by
    rintro s ⟨⟩
    exact ⟨spent, base, within⟩
  waits := nofun

/-- A session ends with a summary of the minutes since it opened, with the process up or not. -/
theorem ends (tracks : Tracks gameId (some session) parked w) {durationMin : ℕ} {summary : Option SessionSummary}
    (booked : (⟨session.matchResults, durationMin, summary⟩ : Closed).InLedger gameId) {foregroundMs : ℤ}
    (active : ∀ s ∈ summary, s.activeMin = minutes (max (max session.game.foregroundMs foregroundMs - session.foregroundBase) 0))
    {isUp : Bool} {parked' : Option ActiveGame} (up : isUp = parked'.isSome) (total : foregroundMs ≤ w.total)
    (waits : ∀ game ∈ parked', game.foregroundMs = session.game.foregroundMs ∧ foregroundMs ≤ session.game.foregroundMs) :
    Tracks gameId none parked'
      { w with
        isUp
        reported := none
        closed := w.closed ++ [⟨w.reported.getD [], durationMin, summary⟩]
        turns := w.turns ++ [false]
        spent := w.spent + summary.elim 0 fun s => s.activeMin } := by
  obtain ⟨low, mid, high⟩ := tracks.base session rfl
  have added : 60000 * ((summary.elim 0 fun s => s.activeMin : ℕ) : ℤ) ≤ max session.game.foregroundMs foregroundMs - session.foregroundBase := by
    cases summary with
    | none =>
      dsimp only [Option.elim_none]
      have := le_max_left session.game.foregroundMs foregroundMs
      omega
    | some s =>
      dsimp only [Option.elim_some]
      rw [active s rfl]
      have bound := minutes_le (max (max session.game.foregroundMs foregroundMs - session.foregroundBase) 0)
      have := le_max_left session.game.foregroundMs foregroundMs
      omega
  refine ⟨by simp [up], rfl, tracks.turns.concat, ?_, ?_, nofun, ?_⟩
  · intro c member
    rcases List.mem_append.mp member with old | new
    · exact tracks.ledger c old
    · obtain rfl := List.mem_singleton.mp new
      rw [tracks.reported]
      exact booked
  · have := max_le high total
    push_cast
    omega
  · rintro - game there
    obtain ⟨same, less⟩ := waits game there
    rw [same]
    refine ⟨?_, high⟩
    rw [max_eq_left less] at added
    push_cast
    omega

end Tracks

section Steps

variable {firstKey : List String → Option String} {m after : GameStateManager} {input : Action} {events : List Event}
  {summary : Option SessionSummary} {gameId : String} {w : Watch}

theorem next_detected (w : Watch) (gameId exe : String) (pid : ℕ) (startedAt : ℤ) :
    w.next gameId ⟨input, [.game (.gameDetected gameId exe pid startedAt)], summary⟩ =
      { w.hear gameId input with reported := some [], turns := (w.hear gameId input).turns ++ [true] } := if_pos rfl

theorem next_detected_ne (w : Watch) {name : String} (apart : name ≠ gameId) (exe : String) (pid : ℕ) (startedAt : ℤ) :
    w.next gameId ⟨input, [.game (.gameDetected name exe pid startedAt)], summary⟩ = w.hear gameId input := if_neg apart

theorem next_ended (w : Watch) (gameId : String) (durationMin : ℕ) :
    w.next gameId ⟨input, [.game (.gameEnded gameId durationMin)], summary⟩ =
      { w.hear gameId input with
        reported := none
        closed := (w.hear gameId input).closed ++ [⟨(w.hear gameId input).reported.getD [], durationMin, summary⟩]
        turns := (w.hear gameId input).turns ++ [false]
        spent := (w.hear gameId input).spent + summary.elim 0 fun s => s.activeMin } := if_pos rfl

theorem next_ended_ne (w : Watch) {name : String} (apart : name ≠ gameId) (durationMin : ℕ) :
    w.next gameId ⟨input, [.game (.gameEnded name durationMin)], summary⟩ = w.hear gameId input := if_neg apart

theorem next_quiet (w : Watch) (quiet : ∀ e ∈ events, ∀ event, e ≠ .game event) :
    w.next gameId ⟨input, events, summary⟩ = w.hear gameId input := by
  unfold Watch.next
  dsimp only
  induction events with
  | nil => rfl
  | cons e rest ih =>
    have same : (w.hear gameId input).see gameId summary e = w.hear gameId input := by
      cases e with
      | game event => exact absurd rfl (quiet _ List.mem_cons_self event)
      | gameActivity | matchEnded | telemetrySetupHint => rfl
    rw [List.foldl_cons, same]
    exact ih fun e member => quiet e (List.mem_cons_of_mem _ member)

/-- The same watch, as a session that is open makes it. -/
theorem Tracks.watch_eq {session : GameSession} {parked : Option ActiveGame} (tracks : Tracks gameId (some session) parked w) :
    w = { w with isUp := true, reported := some session.matchResults } := by
  have up : w.isUp = true := tracks.isUp.mpr (.inl rfl)
  have reported : w.reported = some session.matchResults := tracks.reported
  rw [← up, ← reported]

/-- A step that is not about the game. -/
theorem Tracks.frame (tracks : Tracks gameId (m.sessions.lookup gameId) (m.pending.lookup gameId) w)
    (sessions : after.sessions.lookup gameId = m.sessions.lookup gameId)
    (pending : after.pending.lookup gameId = m.pending.lookup gameId) (quiet : w.next gameId ⟨input, events, summary⟩ = w) :
    Tracks gameId (after.sessions.lookup gameId) (after.pending.lookup gameId) (w.next gameId ⟨input, events, summary⟩) := by
  rw [sessions, pending, quiet]
  exact tracks

theorem tracks_grew (tracks : Tracks gameId (m.sessions.lookup gameId) (m.pending.lookup gameId) w) (name : String) (foregroundMs : ℤ) :
    Tracks gameId ((handleEvent firstKey m (.foreground name foregroundMs)).1.sessions.lookup gameId)
      ((handleEvent firstKey m (.foreground name foregroundMs)).1.pending.lookup gameId)
      (w.next gameId ⟨.event (.foreground name foregroundMs), [], none⟩) := by
  unfold handleEvent
  by_cases about : name = gameId
  · subst about
    have heard : w.next name ⟨.event (.foreground name foregroundMs), [], none⟩ = { w with total := max w.total foregroundMs } :=
      if_pos rfl
    rw [heard]
    dsimp only
    cases here : m.sessions.lookup name with
    | some session =>
      rw [here] at tracks
      obtain ⟨-, -, high⟩ := tracks.base session rfl
      rw [AList.lookup_insert, tracks.watch_eq]
      exact tracks.goesOn rfl (le_max_left _ _) (max_le_max high le_rfl) (le_max_left _ _)
    | none =>
      rw [here] at tracks
      dsimp only
      rw [here]
      cases there : m.pending.lookup name with
      | some game =>
        rw [there] at tracks
        obtain ⟨low, high⟩ := tracks.waits rfl game rfl
        dsimp only
        rw [AList.lookup_insert]
        refine ⟨tracks.isUp, tracks.reported, tracks.turns, tracks.ledger, tracks.spent.trans (le_max_left _ _), nofun, ?_⟩
        rintro - other ⟨⟩
        exact ⟨low.trans (le_max_left _ _), max_le_max high le_rfl⟩
      | none =>
        rw [there] at tracks
        dsimp only
        rw [there]
        exact ⟨tracks.isUp, tracks.reported, tracks.turns, tracks.ledger, tracks.spent.trans (le_max_left _ _), nofun, nofun⟩
  · refine @Tracks.frame _ (handleEvent firstKey m (.foreground name foregroundMs)).1 _ _ _ _ _ tracks ?_ ?_ (if_neg about)
    · unfold handleEvent
      dsimp only
      split
      · rw [AList.lookup_insert_ne (Ne.symm about)]
      · rfl
    · unfold handleEvent
      dsimp only
      split
      · rw [AList.lookup_insert_ne (Ne.symm about)]
      · rfl

theorem tracks_step (owned : Owned m) (tracks : Tracks gameId (m.sessions.lookup gameId) (m.pending.lookup gameId) w)
    (timed : input.timed = true) (acted : Acted firstKey m input after events summary) :
    Tracks gameId (after.sessions.lookup gameId) (after.pending.lookup gameId) (w.next gameId ⟨input, events, summary⟩) := by
  cases acted with
  | gates | focused => exact tracks
  | grew name foregroundMs => exact tracks_grew tracks name foregroundMs
  | @kept game session here =>
    by_cases about : game.gameId = gameId
    · subst about
      rw [here] at tracks ⊢
      obtain ⟨-, -, high⟩ := tracks.base session rfl
      have heard : w.next game.gameId ⟨.event (.started game), [], none⟩ =
          { w with isUp := true, total := max w.total game.foregroundMs, reported := some session.matchResults } := by
        rw [tracks.watch_eq]
        exact if_pos rfl
      rw [heard]
      exact tracks.goesOn rfl le_rfl (high.trans (le_max_left _ _)) (le_max_left _ _)
    · exact tracks.frame rfl rfl (if_neg about)
  | @repeated game session here startedAt =>
    by_cases about : game.gameId = gameId
    · subst about
      rw [here] at tracks
      rw [AList.lookup_insert]
      obtain ⟨-, -, high⟩ := tracks.base session rfl
      have heard : w.next game.gameId ⟨.event (.started game), [], none⟩ =
          { w with isUp := true, total := max w.total game.foregroundMs, reported := some session.matchResults } := by
        rw [tracks.watch_eq]
        exact if_pos rfl
      rw [heard]
      exact tracks.goesOn rfl le_rfl (high.trans (le_max_left _ _)) (le_max_left _ _)
    · exact tracks.frame (AList.lookup_insert_ne (Ne.symm about)) rfl (if_neg about)
  | @parked game isGated closed =>
    by_cases about : game.gameId = gameId
    · subst about
      rw [closed] at tracks ⊢
      rw [AList.lookup_insert]
      have heard : w.next game.gameId ⟨.event (.started game), [], none⟩ =
          { w with isUp := true, total := game.foregroundMs, spent := 0 } := by
        refine (if_pos rfl).trans (if_neg ?_)
        rw [tracks.reported]
        exact Bool.false_ne_true
      rw [heard]
      exact tracks.parks (of_decide_eq_true timed)
    · exact tracks.frame rfl (AList.lookup_insert_ne (Ne.symm about)) (if_neg about)
  | @started game free closed =>
    by_cases about : game.gameId = gameId
    · subst about
      rw [closed] at tracks
      have heard : w.hear game.gameId (.event (.started game)) = { w with isUp := true, total := game.foregroundMs, spent := 0 } := by
        refine (if_pos rfl).trans (if_neg ?_)
        rw [tracks.reported]
        exact Bool.false_ne_true
      have zero : 0 ≤ game.foregroundMs := of_decide_eq_true timed
      rw [AList.lookup_insert, next_detected, heard]
      exact (tracks.parks zero).starts rfl le_rfl zero le_rfl rfl
    · exact tracks.frame (AList.lookup_insert_ne (Ne.symm about)) rfl ((next_detected_ne w about _ _ _).trans (if_neg about))
  | @gone game endedAt closed =>
    by_cases about : game.gameId = gameId
    · subst about
      rw [closed] at tracks ⊢
      rw [AList.lookup_erase]
      have heard : w.next game.gameId ⟨.event (.stopped game endedAt), [], none⟩ =
          { w with isUp := false, total := max w.total game.foregroundMs } := if_pos rfl
      rw [heard]
      exact ⟨by simp, tracks.reported, tracks.turns, tracks.ledger, tracks.spent.trans (le_max_left _ _), nofun, nofun⟩
    · exact tracks.frame rfl (AList.lookup_erase_ne (Ne.symm about)) (if_neg about)
  | @stopped game endedAt session here =>
    obtain ⟨primary, summary, same, -, booked, active⟩ :=
      closeSession_eq (m := { m with pending := m.pending.erase game.gameId }) firstKey here endedAt game.foregroundMs
    have mine : session.game.gameId = game.gameId := owned.sessions _ _ here
    rw [same]
    rw [mine] at booked ⊢
    by_cases about : game.gameId = gameId
    · subst about
      rw [here] at tracks
      have more : Tracks game.gameId (some session) none
          { w with isUp := true, total := max w.total game.foregroundMs, reported := some session.matchResults } :=
        tracks.goesOn rfl le_rfl ((tracks.base session rfl).2.2.trans (le_max_left _ _)) (le_max_left _ _)
      have heard : w.hear game.gameId (.event (.stopped game endedAt)) =
          { w with isUp := false, total := max w.total game.foregroundMs } := if_pos rfl
      dsimp only
      rw [AList.lookup_erase, AList.lookup_erase, next_ended, heard, tracks.watch_eq]
      exact more.ends booked active rfl (le_max_right _ _) nofun
    · exact tracks.frame (AList.lookup_erase_ne (Ne.symm about)) (AList.lookup_erase_ne (Ne.symm about))
        ((next_ended_ne w about _).trans (if_neg about))
  | @moved name session here event activityId activityName events quiet about' =>
    have heard : w.next gameId ⟨.telemetry event, events, none⟩ = w := by
      refine (next_quiet w fun e member event same => ?_).trans ?_
      · obtain ⟨activity, named⟩ := quiet e member
        rw [named] at same
        cases same
      · rcases about' with ⟨id, ts, rfl⟩ | ⟨id, activity, rfl⟩ <;> rfl
    by_cases about : name = gameId
    · subst about
      rw [here] at tracks
      rw [AList.lookup_insert, heard, tracks.watch_eq]
      exact tracks.goesOn rfl le_rfl (tracks.base session rfl).2.2 le_rfl
    · exact tracks.frame (AList.lookup_insert_ne (Ne.symm about)) rfl heard
  | @joined name game activityId ts closed here =>
    have mine : game.gameId = name := owned.pending _ _ here
    rw [mine]
    by_cases about : name = gameId
    · subst about
      rw [closed, here] at tracks
      obtain ⟨low, high⟩ := tracks.waits rfl game rfl
      rw [AList.lookup_insert, next_detected]
      exact tracks.starts (tracks.isUp.mpr (.inr rfl)) low le_rfl high rfl
    · exact tracks.frame (AList.lookup_insert_ne (Ne.symm about)) (AList.lookup_erase_ne (Ne.symm about))
        (next_detected_ne w about _ _ _)
  | @left name session ts here =>
    obtain ⟨primary, summary, same, -, booked, active⟩ := closeSession_eq firstKey here ts session.game.foregroundMs
    have mine : session.game.gameId = name := owned.sessions _ _ here
    rw [same]
    rw [mine] at booked ⊢
    by_cases about : name = gameId
    · subst about
      rw [here] at tracks
      dsimp only
      rw [AList.lookup_erase, AList.lookup_insert, next_ended, tracks.watch_eq]
      have again := tracks
      rw [tracks.watch_eq] at again
      refine again.ends booked active rfl (tracks.base session rfl).2.2 ?_
      rintro game ⟨⟩
      exact ⟨rfl, le_rfl⟩
    · exact tracks.frame (AList.lookup_erase_ne (Ne.symm about)) (AList.lookup_insert_ne (Ne.symm about)) (next_ended_ne w about _)
  | @matched result session here =>
    have quiet : w.next gameId ⟨.telemetry (.matchEnded result), [.matchEnded result.result.asStr result.ownScore result.oppScore result.map], none⟩ =
        w.hear gameId (.telemetry (.matchEnded result)) := by
      refine next_quiet w fun e member event same => ?_
      rw [List.mem_singleton.mp member] at same
      cases same
    by_cases about : result.gameId = gameId
    · subst about
      rw [here] at tracks
      have heard : w.hear result.gameId (.telemetry (.matchEnded result)) =
          { w with reported := w.reported.map (· ++ [result]) } := if_pos rfl
      rw [AList.lookup_insert, quiet, heard, tracks.watch_eq]
      exact tracks.goesOn rfl le_rfl (tracks.base session rfl).2.2 le_rfl
    · exact tracks.frame (AList.lookup_insert_ne (Ne.symm about)) rfl (quiet.trans (if_neg about))
  | @ignored event events quiet unmatched unopened unended =>
    have still : w.next gameId ⟨.telemetry event, events, none⟩ = w := by
      refine (next_quiet w fun e member event same => ?_).trans ?_
      · obtain ⟨name, hint, named⟩ := quiet e member
        rw [named] at same
        cases same
      · cases event with
        | matchEnded result =>
          by_cases about : result.gameId = gameId
          · subst about
            rw [unmatched result rfl] at tracks
            refine (if_pos rfl).trans ?_
            rw [tracks.reported]
            have reported : w.reported = none := tracks.reported
            change { w with reported := none } = w
            rw [← reported]
          · exact if_neg about
        | matchStarted | scoreChanged | setupRequired | activityStarted | activityEnded | activityNamed => rfl
    exact tracks.frame rfl rfl still

end Steps

/-! ## All games -/

structure Inv (m : GameStateManager) (log : List Entry) : Prop where
  owned : Owned m
  tracks : ∀ gameId, Tracks gameId (m.sessions.lookup gameId) (m.pending.lookup gameId) (watch gameId log)

/-- Where the games are: open, or parked and gated, and the game in focus is the primary one when it is open. -/
structure Placed (m : GameStateManager) (last : Option String) : Prop where
  apart : ∀ gameId ∈ m.sessions, gameId ∉ m.pending
  gated : ∀ gameId ∈ m.pending, gameId ∈ m.gated
  primary : ∀ gameId, last = some gameId → gameId ∈ m.sessions → m.primary = some gameId

section Games

variable {firstKey : List String → Option String} {m after : GameStateManager} {input : Action} {events : List Event}
  {summary : Option SessionSummary} {log : List Entry} {last : Option String}

theorem watch_concat (gameId : String) (log : List Entry) (entry : Entry) :
    watch gameId (log ++ [entry]) = (watch gameId log).next gameId entry := List.foldl_concat ..

theorem lastPrimary_concat (log : List Entry) (entry : Entry) :
    lastPrimary (log ++ [entry]) =
      match entry.input with | .event (.primaryChanged gameId) => gameId | _ => lastPrimary log := List.foldl_concat ..

theorem inv_start : Inv {} [] := ⟨⟨nofun, nofun⟩, Tracks.start⟩

theorem inv_step (inv : Inv m log) (timed : input.timed = true) (acted : Acted firstKey m input after events summary) :
    Inv after (log ++ [⟨input, events, summary⟩]) := by
  refine ⟨owned_step inv.owned acted, fun gameId => ?_⟩
  rw [watch_concat]
  exact tracks_step inv.owned (inv.tracks gameId) timed acted

theorem currentGame_iff (owned : Owned m) {gameId : String} :
    (currentGame m).map (·.gameId) = some gameId ↔ m.primary = some gameId ∧ gameId ∈ m.sessions := by
  unfold currentGame
  constructor
  · intro same
    obtain ⟨game, found, rfl⟩ := Option.map_eq_some_iff.mp same
    obtain ⟨session, here, rfl⟩ := Option.map_eq_some_iff.mp found
    obtain ⟨id, primary, held⟩ := Option.bind_eq_some_iff.mp here
    have mine : session.game.gameId = id := owned.sessions _ _ held
    rw [mine]
    exact ⟨primary, mem_of_lookup held⟩
  · rintro ⟨primary, member⟩
    obtain ⟨session, here⟩ := Option.isSome_iff_exists.mp (AList.lookup_isSome.mpr member)
    have mine : session.game.gameId = gameId := owned.sessions _ _ here
    rw [primary, Option.bind_some, here, Option.map_some, Option.map_some, mine]

/-- With what is kept of each game, the rest of the claim is about where the games are. -/
theorem Inv.booked_iff (inv : Inv m log) : Booked m log ↔ Placed m (lastPrimary log) := by
  have up (gameId : String) : (watch gameId log).isUp = true ↔ gameId ∈ m.sessions ∨ gameId ∈ m.pending := by
    rw [(inv.tracks gameId).isUp, AList.lookup_isSome, AList.lookup_isSome]
  constructor
  · intro booked
    refine ⟨booked.apart, ?_, ?_⟩
    · intro gameId waits
      by_contra free
      exact booked.apart gameId (booked.opened gameId ((up gameId).mpr (.inr waits)) free) waits
    · intro gameId focus member
      exact ((currentGame_iff inv.owned).mp (booked.primary gameId focus member)).1
  · intro placed
    refine ⟨placed.apart, ?_, fun gameId => (inv.tracks gameId).reported, fun gameId => (inv.tracks gameId).ledger, ?_, ?_, ?_⟩
    · intro gameId
      have turns := (inv.tracks gameId).turns
      have same : (m.sessions.lookup gameId).isSome = decide (gameId ∈ m.sessions) := by
        rw [Bool.eq_iff_iff, AList.lookup_isSome, decide_eq_true_iff]
      rw [same] at turns
      exact turns
    · intro gameId
      have spent := (inv.tracks gameId).spent
      omega
    · intro gameId isUp free
      exact ((up gameId).mp isUp).resolve_right fun waits => free (placed.gated gameId waits)
    · intro gameId focus member
      exact (currentGame_iff inv.owned).mpr ⟨placed.primary gameId focus member, member⟩

theorem Placed.same_keys (placed : Placed m last) (sessions : ∀ gameId, gameId ∈ after.sessions ↔ gameId ∈ m.sessions)
    (pending : ∀ gameId, gameId ∈ after.pending ↔ gameId ∈ m.pending) (gated : after.gated = m.gated)
    (primary : after.primary = m.primary) : Placed after last := by
  refine ⟨?_, ?_, ?_⟩
  · intro gameId
    rw [sessions, pending]
    exact placed.apart gameId
  · intro gameId
    rw [pending, gated]
    exact placed.gated gameId
  · intro gameId
    rw [sessions, primary]
    exact placed.primary gameId

theorem mem_insert_of_lookup {Value : Type} {table : Table String Value} {name : String} {old : Value}
    (here : table.lookup name = some old) (new : Value) (gameId : String) : gameId ∈ table.insert name new ↔ gameId ∈ table := by
  rw [AList.mem_insert]
  refine or_iff_right_of_imp ?_
  rintro rfl
  exact mem_of_lookup here

/-- A session opens, and its game is parked no more. -/
theorem placed_open (placed : Placed m last) {name : String} (session : GameSession) {pending : Table String ActiveGame}
    (rest : ∀ gameId, gameId ∈ pending ↔ gameId ≠ name ∧ gameId ∈ m.pending) (closed : name ∉ m.sessions) :
    Placed { m with sessions := m.sessions.insert name session, primary := m.primary.or (some name), pending } last ↔
      (last = some name → m.primary = none ∨ m.primary = some name) := by
  constructor
  · intro next focus
    have primary : m.primary.or (some name) = some name := next.primary name focus (AList.mem_insert _ |>.mpr (.inl rfl))
    cases here : m.primary with
    | none => exact .inl rfl
    | some other =>
      rw [here] at primary
      exact .inr primary
  · intro focus
    refine ⟨?_, ?_, ?_⟩
    · intro gameId member waits
      obtain ⟨apart, waits⟩ := (rest gameId).mp waits
      exact placed.apart gameId (((AList.mem_insert _).mp member).resolve_left apart) waits
    · intro gameId waits
      exact placed.gated gameId ((rest gameId).mp waits).2
    · intro gameId found member
      dsimp only
      rcases (AList.mem_insert _).mp member with rfl | old
      · rcases focus found with none' | same
        · rw [none', Option.none_or]
        · rw [same, Option.some_or]
      · rw [placed.primary gameId found old, Option.some_or]

/-- A session closes, and its game is parked or gone. -/
theorem placed_close (placed : Placed m last) {name : String} {primary : Option String}
    (moved : m.primary ≠ some name → primary = m.primary) {pending : Table String ActiveGame}
    (rest : ∀ gameId, gameId ∈ pending → gameId = name ∨ gameId ∈ m.pending) :
    Placed { m with sessions := m.sessions.erase name, primary, pending } last ↔ (name ∈ pending → name ∈ m.gated) := by
  constructor
  · exact fun next => next.gated name
  · intro parks
    refine ⟨?_, ?_, ?_⟩
    · intro gameId member waits
      obtain ⟨apart, old⟩ := AList.mem_erase.mp member
      exact placed.apart gameId old ((rest gameId waits).resolve_left apart)
    · intro gameId waits
      rcases rest gameId waits with rfl | old
      · exact parks waits
      · exact placed.gated gameId old
    · intro gameId found member
      obtain ⟨apart, old⟩ := AList.mem_erase.mp member
      have before := placed.primary gameId found old
      refine (moved fun same => apart ?_).trans before
      exact Option.some.inj (before.symm.trans same)

theorem follows_event {event : GameEvent} (focus : ∀ gameId, opens m (.event event) = some gameId →
    lastPrimary log = some gameId → m.primary = none ∨ m.primary = some gameId) : Follows m log (.event event) where
  parked := fun _ => Action.noConfusion
  parks := fun _ _ => Action.noConfusion
  focus := focus

theorem follows_telemetry {event : TelemetryEvent}
    (parks : ∀ gameId ts, event = .activityEnded gameId ts → gameId ∈ m.sessions → gameId ∈ m.gated)
    (focus : ∀ gameId, opens m (.telemetry event) = some gameId →
      lastPrimary log = some gameId → m.primary = none ∨ m.primary = some gameId) : Follows m log (.telemetry event) where
  parked := fun _ => Action.noConfusion
  parks := fun gameId ts same => parks gameId ts (Action.telemetry.inj same)
  focus := focus

/-- An input leaves the games where they belong exactly when it meets the condition. -/
theorem placed_step (placed : Placed m (lastPrimary log)) (acted : Acted firstKey m input after events summary) :
    Placed after (lastPrimary (log ++ [⟨input, events, summary⟩])) ↔ Follows m log input := by
  rw [lastPrimary_concat]
  cases acted with
  | gates ids =>
    constructor
    · intro next
      refine ⟨?_, fun _ _ => Action.noConfusion, fun _ found => nomatch found⟩
      rintro other ⟨⟩
      exact next.gated
    · intro follows
      exact ⟨placed.apart, follows.parked ids rfl, placed.primary⟩
  | @kept game session here =>
    refine iff_of_true placed (follows_event fun gameId found => ?_)
    unfold opens at found
    dsimp only at found
    rw [if_neg fun both => both.2 (mem_of_lookup here)] at found
    cases found
  | @repeated game session here startedAt =>
    refine iff_of_true (placed.same_keys (mem_insert_of_lookup here _) (fun _ => Iff.rfl) rfl rfl) (follows_event fun gameId found => ?_)
    unfold opens at found
    dsimp only at found
    rw [if_neg fun both => both.2 (mem_of_lookup here)] at found
    cases found
  | @parked game isGated closed =>
    refine iff_of_true ⟨?_, ?_, placed.primary⟩ (follows_event fun gameId found => ?_)
    · intro gameId member waits
      rcases (AList.mem_insert _).mp waits with rfl | old
      · exact not_mem_of_lookup closed member
      · exact placed.apart gameId member old
    · intro gameId waits
      rcases (AList.mem_insert _).mp waits with rfl | old
      · exact isGated
      · exact placed.gated gameId old
    · unfold opens at found
      dsimp only at found
      rw [if_neg fun both => both.1 isGated] at found
      cases found
  | @started game free closed =>
    have rest (gameId : String) : gameId ∈ m.pending ↔ gameId ≠ game.gameId ∧ gameId ∈ m.pending := by
      refine (and_iff_right_of_imp ?_).symm
      rintro waits rfl
      exact free (placed.gated _ waits)
    refine (placed_open placed _ rest (not_mem_of_lookup closed)).trans ?_
    have found : opens m (.event (.started game)) = some game.gameId := if_pos ⟨free, not_mem_of_lookup closed⟩
    constructor
    · intro focus
      refine follows_event fun gameId opened => ?_
      obtain rfl := Option.some.inj (found.symm.trans opened)
      exact focus
    · exact fun follows => follows.focus _ found
  | @gone game endedAt closed =>
    refine iff_of_true ⟨?_, ?_, placed.primary⟩ (follows_event fun gameId found => nomatch found)
    · exact fun gameId member waits => placed.apart gameId member (AList.mem_erase.mp waits).2
    · exact fun gameId waits => placed.gated gameId (AList.mem_erase.mp waits).2
  | @stopped game endedAt session here =>
    obtain ⟨primary, summary, same, moved, -⟩ := closeSession_eq (m := { m with pending := m.pending.erase game.gameId }) firstKey here
      endedAt game.foregroundMs
    rw [same]
    refine iff_of_true ((@placed_close _ _ placed game.gameId _ ?_ _ ?_).mpr ?_) (follows_event fun gameId found => nomatch found)
    · exact fun other => moved.trans (if_neg other)
    · exact fun gameId waits => .inr (AList.mem_erase.mp waits).2
    · exact fun waits => absurd rfl (AList.mem_erase.mp waits).1
  | grew name foregroundMs =>
    refine iff_of_true (placed.same_keys ?_ ?_ rfl rfl) (follows_event fun gameId found => nomatch found)
    · unfold handleEvent
      dsimp only
      split
      · rename_i session here
        exact mem_insert_of_lookup here _
      · exact fun _ => Iff.rfl
    · unfold handleEvent
      dsimp only
      split
      · rename_i game here
        exact mem_insert_of_lookup here _
      · exact fun _ => Iff.rfl
  | focused focus =>
    refine iff_of_true ⟨placed.apart, placed.gated, ?_⟩ (follows_event fun gameId found => nomatch found)
    rintro gameId rfl member
    have open' : gameId ∉ m.pending := placed.apart gameId member
    exact if_neg fun waits => open' (of_decide_eq_true waits)
  | @moved name session here event activityId activityName events quiet about =>
    refine iff_of_true (placed.same_keys (mem_insert_of_lookup here _) (fun _ => Iff.rfl) rfl rfl) (follows_telemetry ?_ ?_)
    · rintro other ts same
      rcases about with ⟨id, ts, rfl⟩ | ⟨id, activity, rfl⟩ <;> cases same
    · intro other found
      rcases about with ⟨id, ts, rfl⟩ | ⟨id, activity, rfl⟩
      · unfold opens at found
        dsimp only at found
        rw [if_neg fun both => both.1 (mem_of_lookup here)] at found
        cases found
      · cases found
  | @joined name game activityId ts closed here =>
    have rest (gameId : String) : gameId ∈ m.pending.erase name ↔ gameId ≠ name ∧ gameId ∈ m.pending := AList.mem_erase
    refine (placed_open placed _ rest (not_mem_of_lookup closed)).trans ?_
    have found : opens m (.telemetry (.activityStarted name activityId ts)) = some name :=
      if_pos ⟨not_mem_of_lookup closed, mem_of_lookup here⟩
    constructor
    · intro focus
      refine follows_telemetry (fun _ _ => TelemetryEvent.noConfusion) fun gameId opened => ?_
      obtain rfl := Option.some.inj (found.symm.trans opened)
      exact focus
    · exact fun follows => follows.focus _ found
  | @left name session ts here =>
    obtain ⟨primary, summary, same, moved, -⟩ := closeSession_eq firstKey here ts session.game.foregroundMs
    rw [same]
    have rest (gameId : String) (waits : gameId ∈ m.pending.insert name session.game) : gameId = name ∨ gameId ∈ m.pending :=
      (AList.mem_insert _).mp waits
    refine (placed_close placed (fun other => moved.trans (if_neg other)) rest).trans ?_
    constructor
    · intro parks
      refine follows_telemetry ?_ fun gameId found => nomatch found
      rintro gameId ts ⟨⟩ -
      exact parks ((AList.mem_insert _).mpr (.inl rfl))
    · exact fun follows _ => follows.parks name ts rfl (mem_of_lookup here)
  | @matched result session here =>
    refine iff_of_true (placed.same_keys (mem_insert_of_lookup here _) (fun _ => Iff.rfl) rfl rfl)
      (follows_telemetry (fun _ _ => TelemetryEvent.noConfusion) fun gameId found => nomatch found)
  | @ignored event events quiet unmatched unopened unended =>
    refine iff_of_true placed (follows_telemetry ?_ ?_)
    · intro gameId ts same member
      exact absurd member (not_mem_of_lookup (unended gameId ts same))
    · intro gameId found
      rw [unopened] at found
      cases found

/-- In exactly the runs whose inputs all meet the condition, the sessions are booked as they should be. -/
theorem booked_always_iff (firstKey : List String → Option String) (inputs : List Action) :
    Always (logged (step firstKey)) (fun s => Booked s.1 s.2) ({}, []) inputs ↔
      EachStep (logged (step firstKey)) (fun s input => Follows s.1 s.2 input) ({}, []) inputs := by
  have acted : ∀ s input t, Inv s.1 s.2 → logged (step firstKey) s input = some t →
      ∃ events summary, input.timed = true ∧ Acted firstKey s.1 input t.1 events summary ∧ t.2 = s.2 ++ [⟨input, events, summary⟩] := by
    rintro ⟨m, log⟩ input ⟨after, next⟩ inv moved
    obtain ⟨entries, stepped, rfl⟩ := logged_eq_some.mp moved
    unfold step at stepped
    split_ifs at stepped with timed
    cases stepped
    exact ⟨_, _, timed, acted_act firstKey inv.owned input, rfl⟩
  refine always_iff_eachStep (fun s : GameStateManager × List Entry => Inv s.1 s.2) ?_ ?_ inv_start (inv_start.booked_iff.mpr ⟨nofun, nofun, nofun⟩) inputs
  · intro s input t inv stepped
    obtain ⟨events, summary, timed, acts, same⟩ := acted s input t inv stepped
    rw [same]
    exact inv_step inv timed acts
  · intro s input t inv booked stepped
    obtain ⟨events, summary, timed, acts, same⟩ := acted s input t inv stepped
    have next := inv_step inv timed acts
    rw [same, next.booked_iff]
    exact placed_step (inv.booked_iff.mp booked) acts

end Games

def gameOf (gameId : String) : ActiveGame :=
  { gameId, exe := gameId, pid := 1, startedAt := 0, startedAtMs := 0, foregroundMs := 0 }

/-- Roblox is up and gets the focus, and then the player joins an experience, with another game in
the background. -/
def refocused : List Action :=
  [.setGatedGames {"roblox"}, .event (.started (gameOf "cs2")), .event (.started (gameOf "roblox")),
    .event (.primaryChanged (some "roblox")), .telemetry (.activityStarted "roblox" "1" 60000)]

theorem refocused_unbooked : ¬ Always (logged (step List.head?)) (fun s : GameStateManager × List Entry => Booked s.1 s.2) ({}, []) refocused := by
  intro always
  obtain ⟨⟨m, log⟩, ran⟩ : ∃ s : GameStateManager × List Entry, run (logged (step List.head?)) ({}, []) refocused = some s := ⟨_, rfl⟩
  have booked := always.last ran
  cases ran
  have shown := booked.primary "roblox" rfl (by decide)
  revert shown
  decide

end Mello.Core.GamePlay
