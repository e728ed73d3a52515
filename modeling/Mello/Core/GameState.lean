import Mello.Core.GameScans

/-!
The open game sessions of the client. The sensor opens and closes them; a session that
lasted becomes a summary for the ledger.
-/

namespace Mello.Core.GameState
open Mello.Library Keyed GameSensing

def MIN_SESSION_LEDGER_MIN : ℕ := 2

structure GameSession where
  game : ActiveGame
  /-- The foreground total of the process when the session opened. -/
  foregroundBase : ℤ

structure SessionSummary where
  gameId : String
  durationMin : ℕ
  activeMin : ℕ
  startMs : ℤ
  endMs : ℤ
  deriving DecidableEq, Repr

inductive Event where
  | gameDetected (gameId exe : String) (pid : ℕ) (startedAtMs : ℤ)
  | gameEnded (gameId : String) (durationMin : ℕ)

structure GameStateManager where
  sessions : Table String GameSession := ∅
  primary : Option String := none
  gated : Finset String := ∅
  pending : Table String ActiveGame := ∅

/-- The minutes of a time in milliseconds, as a 32 bit number. -/
def minutes (ms : ℤ) : ℕ := (max ms 0 / 60000).toNat % 2 ^ 32

/-- A session of that time is in the ledger. -/
def lasted (startMs endMs : ℤ) : Bool := MIN_SESSION_LEDGER_MIN ≤ minutes (endMs - startMs)

section Manager

-- The first key of a map, in the order that the map is iterated in.
variable (firstKey : List String → Option String)

def closeSession (m : GameStateManager) (gameId : String) (endedAt foregroundMs : ℤ) :
    GameStateManager × List Event × Option SessionSummary :=
  match m.sessions.lookup gameId with
  | none => (m, [], none)
  | some session =>
    let sessions := m.sessions.erase gameId
    let primary := if m.primary = some gameId then firstKey sessions.keys else m.primary
    let foreground := max (max session.game.foregroundMs foregroundMs - session.foregroundBase) 0
    let durationMin := minutes (endedAt - session.game.startedAt)
    let summary :=
      { gameId := session.game.gameId
        durationMin
        activeMin := minutes foreground
        startMs := session.game.startedAt
        endMs := endedAt }
    ({ m with sessions, primary }, [.gameEnded session.game.gameId durationMin],
      if MIN_SESSION_LEDGER_MIN ≤ durationMin then some summary else none)

def handleEvent (m : GameStateManager) : GameEvent → GameStateManager × List Event × Option SessionSummary
  | .started game =>
    if game.gameId ∈ m.gated then
      if game.gameId ∈ m.sessions then (m, [], none)
      else ({ m with pending := m.pending.insert game.gameId game }, [], none)
    else
      match m.sessions.lookup game.gameId with
      | some session =>
        let startedAt := if game.startedAt < session.game.startedAt then game.startedAt else session.game.startedAt
        let session := { session with game := { session.game with startedAt } }
        ({ m with sessions := m.sessions.insert game.gameId session }, [], none)
      | none =>
        ({ m with
            sessions := m.sessions.insert game.gameId { game, foregroundBase := 0 }
            primary := m.primary.or (some game.gameId) },
          [.gameDetected game.gameId game.exe game.pid game.startedAt], none)
  | .stopped game endedAt =>
    closeSession firstKey { m with pending := m.pending.erase game.gameId } game.gameId endedAt game.foregroundMs
  | .foreground gameId foregroundMs =>
    let grow := fun game : ActiveGame => { game with foregroundMs := max game.foregroundMs foregroundMs }
    ({ m with
        sessions :=
          match m.sessions.lookup gameId with
          | some session => m.sessions.insert gameId { session with game := grow session.game }
          | none => m.sessions
        pending :=
          match m.pending.lookup gameId with
          | some game => m.pending.insert gameId (grow game)
          | none => m.pending }, [], none)
  | .primaryChanged gameId =>
    let parked := gameId.any fun id => id ∈ m.pending
    ({ m with primary := if parked then firstKey m.sessions.keys else gameId }, [], none)

/-- All events in order, with the summaries for the ledger. -/
def feed (m : GameStateManager) (events : List GameEvent) : GameStateManager × List SessionSummary :=
  events.foldl (fun (m, summaries) event =>
    let (m, _, summary) := handleEvent firstKey m event
    (m, summaries ++ summary.toList)) (m, [])

end Manager

/-! ## The nights of a game -/

/-- The start of the open session of a game. -/
def since (m : GameStateManager) (gameId : String) : Option ℤ := (m.sessions.lookup gameId).map fun s => s.game.startedAt

/-- The start and the end of each summary of a game. -/
def spans (gameId : String) (summaries : List SessionSummary) : List (ℤ × ℤ) :=
  (summaries.filter fun x => x.gameId = gameId).map fun x => (x.startMs, x.endMs)

/-- A session that ends, in the ledger or not. -/
def span (startMs endMs : ℤ) : List (ℤ × ℤ) := if lasted startMs endMs then [(startMs, endMs)] else []

/-- What an event about a game says of its sessions: the start of the open one, and the
spans of those that are over. -/
def told (acc : Option ℤ × List (ℤ × ℤ)) : GameEvent → Option ℤ × List (ℤ × ℤ)
  | .started game => (some (acc.1.elim game.startedAt (min game.startedAt)), acc.2)
  | .stopped _ endedAt => (none, acc.2 ++ acc.1.elim [] fun startMs => span startMs endedAt)
  | _ => acc

/-- No game waits for an adapter, and each session is under its own game. -/
structure Plain (m : GameStateManager) : Prop where
  gated : m.gated = ∅
  pending : m.pending = ∅
  own : ∀ {gameId s}, m.sessions.lookup gameId = some s → s.game.gameId = gameId

section Nights

variable {m : GameStateManager} {gameId : String}

theorem spans_append (gameId : String) (x y : List SessionSummary) : spans gameId (x ++ y) = spans gameId x ++ spans gameId y := by
  rw [spans, List.filter_append, List.map_append]
  rfl

theorem spans_singleton (gameId : String) (x : SessionSummary) :
    spans gameId [x] = if x.gameId = gameId then [(x.startMs, x.endMs)] else [] := by
  unfold spans
  split_ifs with mine
  · rw [List.filter_cons_of_pos (p := fun y : SessionSummary => y.gameId = gameId) (decide_eq_true mine)]
    rfl
  · rw [List.filter_cons_of_neg (p := fun y : SessionSummary => y.gameId = gameId) fun same => mine (of_decide_eq_true same)]
    rfl

theorem since_insert (m : GameStateManager) (name : String) (session : GameSession) :
    since { m with sessions := m.sessions.insert name session } name = some session.game.startedAt ∧
      ∀ other, other ≠ name → since { m with sessions := m.sessions.insert name session } other = since m other := by
  unfold since
  refine ⟨by rw [AList.lookup_insert, Option.map_some], fun other apart => ?_⟩
  rw [AList.lookup_insert_ne apart]

theorem Plain.insert (plain : Plain m) {name : String} {session : GameSession} {next : GameStateManager}
    (inserted : next.sessions = m.sessions.insert name session) (own : session.game.gameId = name) (gated : next.gated = ∅)
    (pending : next.pending = ∅) : Plain next := by
  refine ⟨gated, pending, ?_⟩
  intro other s found
  rw [inserted] at found
  rcases eq_or_ne other name with rfl | apart
  · cases (AList.lookup_insert m.sessions).symm.trans found
    exact own
  · exact plain.own ((AList.lookup_insert_ne apart).symm.trans found)

/-- A close is over one game. -/
theorem closeSession_spec (firstKey : List String → Option String) (plain : Plain m) (gameId : String) (endedAt foregroundMs : ℤ) :
    Plain (closeSession firstKey m gameId endedAt foregroundMs).1 ∧
      (since (closeSession firstKey m gameId endedAt foregroundMs).1 gameId = none ∧
        spans gameId (closeSession firstKey m gameId endedAt foregroundMs).2.2.toList =
          (since m gameId).elim [] fun startMs => span startMs endedAt) ∧
      ∀ other, other ≠ gameId → since (closeSession firstKey m gameId endedAt foregroundMs).1 other = since m other ∧
        spans other (closeSession firstKey m gameId endedAt foregroundMs).2.2.toList = [] := by
  have start : since m gameId = (m.sessions.lookup gameId).map fun s => s.game.startedAt := rfl
  unfold closeSession
  cases here : m.sessions.lookup gameId with
  | none =>
    rw [here] at start
    dsimp only
    rw [start]
    exact ⟨plain, ⟨rfl, rfl⟩, fun other apart => ⟨rfl, rfl⟩⟩
  | some session =>
    rw [here] at start
    have own := plain.own here
    have away : ∀ other, other ≠ gameId → (m.sessions.erase gameId).lookup other = m.sessions.lookup other :=
      fun other apart => AList.lookup_erase_ne apart
    refine ⟨⟨plain.gated, plain.pending, ?_⟩, ⟨?_, ?_⟩, fun other apart => ⟨?_, ?_⟩⟩
    · intro name s found
      rcases eq_or_ne name gameId with rfl | apart
      · cases (AList.lookup_erase name m.sessions).symm.trans found
      · exact plain.own ((away name apart).symm.trans found)
    · unfold since
      rw [AList.lookup_erase, Option.map_none]
    · rw [start]
      dsimp only [Option.map_some, Option.elim_some]
      by_cases long : MIN_SESSION_LEDGER_MIN ≤ minutes (endedAt - session.game.startedAt)
      · have kept : lasted session.game.startedAt endedAt = true := decide_eq_true long
        rw [if_pos long, span, if_pos kept, Option.toList_some, spans_singleton, if_pos own]
      · have short : ¬ lasted session.game.startedAt endedAt = true := fun kept => long (of_decide_eq_true kept)
        rw [if_neg long, span, if_neg short]
        rfl
    · unfold since
      rw [away other apart]
    · dsimp only
      split_ifs
      · rw [Option.toList_some, spans_singleton, if_neg fun same => apart (same.symm.trans own)]
      · rfl

/-- What an event says of its game, and to the other games nothing. -/
theorem handleEvent_spec (firstKey : List String → Option String) (plain : Plain m) (event : GameEvent) (gameId : String)
    (before : List SessionSummary) :
    Plain (handleEvent firstKey m event).1 ∧
      (about gameId event = true →
        (since (handleEvent firstKey m event).1 gameId, spans gameId (before ++ (handleEvent firstKey m event).2.2.toList)) =
          told (since m gameId, spans gameId before) event) ∧
      (about gameId event = false →
        (since (handleEvent firstKey m event).1 gameId, spans gameId (before ++ (handleEvent firstKey m event).2.2.toList)) =
          (since m gameId, spans gameId before)) := by
  have quiet : spans gameId (before ++ (none : Option SessionSummary).toList) = spans gameId before := by
    rw [Option.toList_none, List.append_nil]
  cases event with
  | started game =>
    have open_ : game.gameId ∉ m.gated := by
      rw [plain.gated]
      exact Finset.notMem_empty _
    unfold handleEvent
    dsimp only
    rw [if_neg open_]
    cases here : m.sessions.lookup game.gameId with
    | none =>
      dsimp only
      obtain ⟨mine, others⟩ := since_insert m game.gameId ⟨game, 0⟩
      refine ⟨plain.insert rfl rfl plain.gated plain.pending, ?_,
        fun other => Prod.ext (others gameId fun same => of_decide_eq_false other same.symm) quiet⟩
      intro about_
      obtain rfl : game.gameId = gameId := of_decide_eq_true about_
      have none : since m game.gameId = none := by
        rw [since, here]
        rfl
      rw [none]
      exact Prod.ext mine quiet
    | some session =>
      have own := plain.own here
      dsimp only
      obtain ⟨mine, others⟩ := since_insert m game.gameId
        { session with game := { session.game with
          startedAt := if game.startedAt < session.game.startedAt then game.startedAt else session.game.startedAt } }
      refine ⟨plain.insert rfl own plain.gated plain.pending, ?_,
        fun other => Prod.ext (others gameId fun same => of_decide_eq_false other same.symm) quiet⟩
      intro about_
      obtain rfl : game.gameId = gameId := of_decide_eq_true about_
      have some : since m game.gameId = some session.game.startedAt := by
        rw [since, here]
        rfl
      rw [some]
      refine Prod.ext (mine.trans (congrArg _ ?_)) quiet
      dsimp only [Option.elim_some]
      split_ifs with earlier
      · exact (min_eq_left earlier.le).symm
      · exact (min_eq_right (not_lt.mp earlier)).symm
  | stopped game endedAt =>
    have rest : Plain { m with pending := m.pending.erase game.gameId } := by
      refine ⟨plain.gated, ?_, plain.own⟩
      rw [plain.pending]
      rfl
    obtain ⟨next, ⟨gone, out⟩, others⟩ := closeSession_spec firstKey rest game.gameId endedAt game.foregroundMs
    refine ⟨next, ?_, ?_⟩
    · intro mine
      obtain rfl : game.gameId = gameId := of_decide_eq_true mine
      rw [spans_append]
      exact Prod.ext gone (congrArg (spans game.gameId before ++ ·) out)
    · intro other
      obtain ⟨start, none⟩ := others gameId fun same => of_decide_eq_false other same.symm
      rw [spans_append]
      exact Prod.ext start ((congrArg (spans gameId before ++ ·) none).trans (List.append_nil _))
  | foreground name foregroundMs =>
    unfold handleEvent
    have empty : m.pending.lookup name = none := by
      rw [plain.pending]
      rfl
    cases here : m.sessions.lookup name with
    | none =>
      dsimp only
      rw [here, empty]
      exact ⟨plain, nofun, fun _ => Prod.ext rfl quiet⟩
    | some session =>
      have own := plain.own here
      dsimp only
      rw [here, empty]
      refine ⟨plain.insert rfl own plain.gated plain.pending, nofun, fun _ => Prod.ext ?_ quiet⟩
      obtain ⟨mine, others⟩ := since_insert m name
        { session with game := { session.game with foregroundMs := max session.game.foregroundMs foregroundMs } }
      rcases eq_or_ne gameId name with rfl | apart
      · refine mine.trans ?_
        rw [since, here]
        rfl
      · exact others gameId apart
  | primaryChanged name =>
    exact ⟨⟨plain.gated, plain.pending, plain.own⟩, nofun, fun _ => Prod.ext rfl quiet⟩

theorem feed_append (firstKey : List String → Option String) (m : GameStateManager) (x y : List GameEvent) :
    feed firstKey m (x ++ y) = ((feed firstKey (feed firstKey m x).1 y).1,
      (feed firstKey m x).2 ++ (feed firstKey (feed firstKey m x).1 y).2) := by
  have shift : ∀ (events : List GameEvent) (m : GameStateManager) (before : List SessionSummary),
      events.foldl (fun acc event =>
          ((handleEvent firstKey acc.1 event).1, acc.2 ++ (handleEvent firstKey acc.1 event).2.2.toList)) (m, before) =
        ((feed firstKey m events).1, before ++ (feed firstKey m events).2) := by
    intro events
    induction events with
    | nil => exact fun m before => Prod.ext rfl (List.append_nil before).symm
    | cons event rest ih =>
      intro m before
      have whole : feed firstKey m (event :: rest) = rest.foldl (fun acc event =>
          ((handleEvent firstKey acc.1 event).1, acc.2 ++ (handleEvent firstKey acc.1 event).2.2.toList))
          ((handleEvent firstKey m event).1, [] ++ (handleEvent firstKey m event).2.2.toList) := rfl
      rw [whole, List.foldl_cons, ih, ih, List.nil_append, List.append_assoc]
  exact (List.foldl_append ..).trans (shift y _ _)

/-- The open sessions and the spans of the ledger, told by the events of each game. -/
theorem feed_spec (firstKey : List String → Option String) (plain : Plain m) (events : List GameEvent) :
    Plain (feed firstKey m events).1 ∧ ∀ gameId, (since (feed firstKey m events).1 gameId, spans gameId (feed firstKey m events).2) =
      (events.filter (about gameId)).foldl told (since m gameId, []) := by
  induction events using List.reverseRecOn with
  | nil => exact ⟨plain, fun gameId => rfl⟩
  | append_singleton front event ih =>
    obtain ⟨good, so⟩ := ih
    have last : feed firstKey m (front ++ [event]) = ((handleEvent firstKey (feed firstKey m front).1 event).1,
        (feed firstKey m front).2 ++ (handleEvent firstKey (feed firstKey m front).1 event).2.2.toList) := List.foldl_concat ..
    rw [last]
    refine ⟨(handleEvent_spec firstKey good event "" []).1, fun gameId => ?_⟩
    obtain ⟨-, mine, other⟩ := handleEvent_spec firstKey good event gameId (feed firstKey m front).2
    rw [List.filter_append]
    by_cases here : about gameId event = true
    · rw [List.filter_cons_of_pos here, List.filter_nil, List.foldl_concat, ← so gameId]
      exact mine here
    · rw [List.filter_cons_of_neg here, List.filter_nil, List.append_nil, ← so gameId]
      exact other (Bool.eq_false_of_not_eq_true here)

end Nights

end Mello.Core.GameState
