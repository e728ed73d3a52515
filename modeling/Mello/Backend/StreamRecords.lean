import Mello.Library.Runs
import Mello.Library.Tables

/-!
The records of the streams of one crew, and the calls that write and delete them: the
active stream of each host, the one stream_meta, a session for each stream and the
ledger. No record has a version, and each read, write and delete is a step. Storage
works. A start that resumes a stream, and what the cleanup keeps for it, are left out.
-/

namespace Mello.Backend.StreamRecords
open Mello.Library Runs Tables

/-! ## The records -/

structure ActiveStream where
  hostID : String
  startedAt : Int
  deriving DecidableEq, Repr

/-- Also the advert of a stream that waits for its track. -/
structure StreamMeta where
  streamID : String
  streamerID : String
  startedAt : Int
  deriving DecidableEq, Repr

structure StreamSessionMeta where
  hostUserID : String
  pending : Option StreamMeta
  deriving DecidableEq, Repr

/-- A stream_session event. Its duration is counted from the start of the stream. -/
structure CrewEvent where
  actorID : String
  session : StreamMeta
  deriving DecidableEq, Repr

/-! ## The calls -/

/-- `sessionID` is empty when a stop names no session. -/
inductive Request where
  | StartStream (streamID : String) (startedAt : Int) (onLive : Bool)
  | StreamLive (sessionID : String)
  | StopStream (sessionID : String)
  | cleanupStreamIfHost
  deriving DecidableEq, Repr

inductive Phase where
  | writeActive (advert : StreamMeta)
  | writeMeta (advert : StreamMeta)
  | storeSession (streamID : String) (session : StreamSessionMeta)
  | loadSession (sessionID : String)
  | readMeta (sessionID : Option String)
  | deleteActive (sessionID : Option String) (found : Option StreamMeta)
  | deleteMeta (sessionID : Option String) (found : Option StreamMeta)
  | deleteSession (sessionID : Option String) (found : StreamMeta)
  | loadPending (sessionID : String) (found : Option StreamMeta)
  | deletePending (sessionID : String) (found : Option StreamMeta)
  | appendEvent (found : StreamMeta)
  | done
  | refused
  deriving DecidableEq, Repr

structure Call where
  userID : String
  phase : Phase
  deriving DecidableEq, Repr

/-- `started` and `advertised` have the streams that were started and advertised, and
`touched` who deleted or replaced a record, and whose. -/
structure State where
  active : String → Option ActiveStream := fun _ => none
  streamMeta : Option StreamMeta := none
  sessions : String → Option StreamSessionMeta := fun _ => none
  ledger : List CrewEvent := []
  calls : List Call := []
  started : List StreamMeta := []
  advertised : List StreamMeta := []
  touched : List (String × String) := []

inductive Action where
  | call (userID : String) (request : Request)
  | next (k : Nat)
  deriving DecidableEq, Repr

def firstPhase (userID : String) : Request → Phase
  | .StartStream streamID startedAt false => .writeActive ⟨streamID, userID, startedAt⟩
  | .StartStream streamID startedAt true => .storeSession streamID ⟨userID, some ⟨streamID, userID, startedAt⟩⟩
  | .StreamLive sessionID => .loadSession sessionID
  | .StopStream sessionID => .readMeta (some sessionID)
  | .cleanupStreamIfHost => .readMeta none

def newStream (userID : String) : Request → List StreamMeta
  | .StartStream streamID startedAt _ => [⟨streamID, userID, startedAt⟩]
  | _ => []

def State.goto (s : State) (k : Nat) (call : Call) (phase : Phase) : State :=
  { s with calls := s.calls.set k { call with phase } }

/-- The owner of the record that a step deletes or replaces. -/
def touch (userID : String) (owner : Option String) : List (String × String) := owner.toList.map fun owner => (userID, owner)

/-- The phase of `StreamLiveRPC` after it loaded the session. A session with nothing
pending is advertised, or was; the call reads the record and writes nothing. -/
def afterSession (userID : String) : Option StreamSessionMeta → Phase
  | none => .refused
  | some session =>
    if session.hostUserID = userID then
      match session.pending with
      | some advert => .writeActive advert
      | none => .done
    else .refused

/-- The phase of a stop, with a session or without one, and of a cleanup, after it read
the record. -/
def afterMeta (userID : String) : Option String → Option StreamMeta → Phase
  | some sessionID, none => .deleteActive (some sessionID) none
  | none, none => .done
  | sessionID, some found => if found.streamerID = userID then .deleteActive sessionID (some found) else .refused

def lastPhase : Option StreamMeta → Phase
  | some found => .appendEvent found
  | none => .done

/-- A stop that names another session than the one it found looks for it. -/
def afterDeletes : Option String → Option StreamMeta → Phase
  | some sessionID, found =>
    if sessionID ≠ "" ∧ found.map StreamMeta.streamID ≠ some sessionID then .loadPending sessionID found else lastPhase found
  | none, found => lastPhase found

def afterPending (userID sessionID : String) (found : Option StreamMeta) : Option StreamSessionMeta → Phase
  | none => lastPhase found
  | some session =>
    if session.hostUserID = userID ∧ session.pending ≠ none then .deletePending sessionID found else lastPhase found

/-- The next read, write or delete of a call. -/
def advance (s : State) (k : Nat) (call : Call) : Option State :=
  match call.phase with
  | .writeActive advert =>
    some { s.goto k call (.writeMeta advert) with
      active := Function.update s.active call.userID (some ⟨advert.streamerID, advert.startedAt⟩)
      touched := s.touched ++ touch call.userID ((s.active call.userID).map ActiveStream.hostID) }
  | .writeMeta advert =>
    some { s.goto k call (.storeSession advert.streamID ⟨call.userID, none⟩) with
      streamMeta := some advert
      advertised := s.advertised ++ [advert]
      touched := s.touched ++ touch call.userID (s.streamMeta.map StreamMeta.streamerID) }
  | .storeSession streamID session =>
    some { s.goto k call .done with
      sessions := Function.update s.sessions streamID (some session)
      touched := s.touched ++ touch call.userID ((s.sessions streamID).map StreamSessionMeta.hostUserID) }
  | .loadSession sessionID => some (s.goto k call (afterSession call.userID (s.sessions sessionID)))
  | .readMeta sessionID => some (s.goto k call (afterMeta call.userID sessionID s.streamMeta))
  | .deleteActive sessionID found =>
    some { s.goto k call (.deleteMeta sessionID found) with
      active := Function.update s.active call.userID none
      touched := s.touched ++ touch call.userID ((s.active call.userID).map ActiveStream.hostID) }
  | .deleteMeta sessionID found =>
    let next := match found with
      | some found => .deleteSession sessionID found
      | none => afterDeletes sessionID none
    some { s.goto k call next with
      streamMeta := none
      touched := s.touched ++ touch call.userID (s.streamMeta.map StreamMeta.streamerID) }
  | .deleteSession sessionID found =>
    some { s.goto k call (afterDeletes sessionID (some found)) with
      sessions := Function.update s.sessions found.streamID none
      touched := s.touched ++ touch call.userID ((s.sessions found.streamID).map StreamSessionMeta.hostUserID) }
  | .loadPending sessionID found => some (s.goto k call (afterPending call.userID sessionID found (s.sessions sessionID)))
  | .deletePending sessionID found =>
    some { s.goto k call (lastPhase found) with
      sessions := Function.update s.sessions sessionID none
      touched := s.touched ++ touch call.userID ((s.sessions sessionID).map StreamSessionMeta.hostUserID) }
  | .appendEvent found => some { s.goto k call .done with ledger := s.ledger ++ [⟨call.userID, found⟩] }
  | .done => none
  | .refused => none

def step (s : State) : Action → Option State
  | .call userID request => some { s with
      calls := s.calls ++ [⟨userID, firstPhase userID request⟩]
      started := s.started ++ newStream userID request }
  | .next k =>
    match s.calls[k]? with
    | some call => advance s k call
    | none => none

/-! ## The law -/

def Phase.ended : Phase → Bool
  | .done | .refused => true
  | _ => false

/-- The event of a stream, by its own host. -/
def eventOf (m : StreamMeta) : CrewEvent := ⟨m.streamerID, m⟩

/-- With no call in progress, each stream that was advertised is the one that is live, or
the ledger has its event, once. -/
structure Recorded (s : State) : Prop where
  once : (s.ledger.map fun event => event.session.streamID).Nodup
  own : ∀ event ∈ s.ledger, ∃ m ∈ s.advertised, event = eventOf m
  ended : (∀ call ∈ s.calls, call.phase.ended = true) → ∀ m ∈ s.advertised, s.streamMeta = some m ∨ eventOf m ∈ s.ledger
  touched : ∀ entry ∈ s.touched, entry.2 = entry.1

/-- A new stream has a new id, a stream is advertised once and while no other is live,
and a record that is deleted is the one that was read. -/
def Alone (s : State) : Action → Prop
  | .call userID request => ∀ m ∈ newStream userID request, ∀ other ∈ s.started, other.streamID ≠ m.streamID
  | .next k => ∀ call, s.calls[k]? = some call →
      match call.phase with
      | .writeMeta advert => s.streamMeta = none ∧ advert ∉ s.advertised
      | .deleteMeta _ found => s.streamMeta = found
      | _ => True

/-! ## One step -/

section Step

variable {s t : State} {action : Action} {k : Nat} {call : Call} {userID : String} {phase : Phase}

/-- The stream with this id is the member's. -/
def Hosted (s : State) (streamID userID : String) : Prop :=
  ∃ m ∈ s.started, m.streamID = streamID ∧ m.streamerID = userID

/-- An advertised stream of the member. -/
def Own (s : State) (userID : String) (m : StreamMeta) : Prop := m ∈ s.advertised ∧ m.streamerID = userID

/-- What waits for its track is the stream that the member started. -/
def SessionSound (s : State) (streamID : String) (session : StreamSessionMeta) : Prop :=
  Hosted s streamID session.hostUserID ∧
    ∀ advert, session.pending = some advert → advert ∈ s.started ∧ advert.streamerID = session.hostUserID

def PhaseSound (s : State) (userID : String) : Phase → Prop
  | .writeActive advert | .writeMeta advert => advert ∈ s.started ∧ advert.streamerID = userID
  | .storeSession streamID session => SessionSound s streamID session ∧ session.hostUserID = userID
  | .deleteActive _ found | .deleteMeta _ found | .loadPending _ found => ∀ m, found = some m → Own s userID m
  | .deletePending sessionID found => (∀ m, found = some m → Own s userID m) ∧ Hosted s sessionID userID
  | .deleteSession _ found | .appendEvent found => Own s userID found
  | _ => True

structure Sound (s : State) : Prop where
  ids : ∀ m ∈ s.started, ∀ other ∈ s.started, m.streamID = other.streamID → m = other
  active : ∀ userID record, s.active userID = some record → record.hostID = userID
  live : ∀ m, s.streamMeta = some m → m ∈ s.advertised
  advertised : ∀ m ∈ s.advertised, m ∈ s.started
  sessions : ∀ streamID session, s.sessions streamID = some session → SessionSound s streamID session
  phases : ∀ call ∈ s.calls, PhaseSound s call.userID call.phase
  touched : ∀ entry ∈ s.touched, entry.2 = entry.1

/-- The stream that a call has taken down and has still to record. -/
def Phase.taken : Phase → Option StreamMeta
  | .deleteSession _ found | .appendEvent found => some found
  | .loadPending _ found | .deletePending _ found => found
  | _ => none

def taken (calls : List Call) : List StreamMeta := calls.filterMap fun call => call.phase.taken

/-- Each advertised stream is live, taken down or recorded, once. -/
structure Placed (s : State) : Prop where
  once : s.advertised.Nodup
  all : (s.streamMeta.toList ++ (taken s.calls ++ s.ledger.map CrewEvent.session)).Perm s.advertised
  own : ∀ event ∈ s.ledger, event.actorID = event.session.streamerID

/-- A call moves on and leaves only records of its own behind. -/
structure Tidy (s t : State) (k : Nat) (call : Call) (phase : Phase) : Prop where
  here : s.calls[k]? = some call
  calls : t.calls = s.calls.set k { call with phase }
  started : t.started = s.started
  known : PhaseSound s call.userID phase
  active : ∀ userID record, t.active userID = some record → record.hostID = userID
  sessions : ∀ streamID session, t.sessions streamID = some session → SessionSound s streamID session
  touched : ∀ entry ∈ t.touched, entry.2 = entry.1

/-- The kinds of step: a call begins, or one moves on and, of what it and the crew have
of the stream, changes nothing, advertises it, takes it down or records it. -/
inductive Moved (s t : State) : Action → Prop
  | called {userID : String} {request : Request}
      (new : ∀ m ∈ newStream userID request, ∀ other ∈ s.started, other.streamID ≠ m.streamID)
      (moved : t = { s with
        calls := s.calls ++ [⟨userID, firstPhase userID request⟩]
        started := s.started ++ newStream userID request }) : Moved s t (.call userID request)
  | quiet {k : Nat} {call : Call} {phase : Phase} (tidy : Tidy s t k call phase) (taken : phase.taken = call.phase.taken)
      (live : t.streamMeta = s.streamMeta) (advertised : t.advertised = s.advertised) (ledger : t.ledger = s.ledger) :
      Moved s t (.next k)
  | wentLive {k : Nat} {call : Call} {phase : Phase} {m : StreamMeta} (tidy : Tidy s t k call phase)
      (taken : phase.taken = call.phase.taken) (known : m ∈ s.started) (new : m ∉ s.advertised) (free : s.streamMeta = none)
      (live : t.streamMeta = some m) (advertised : t.advertised = s.advertised ++ [m]) (ledger : t.ledger = s.ledger) :
      Moved s t (.next k)
  | took {k : Nat} {call : Call} {phase : Phase} {m : StreamMeta} (tidy : Tidy s t k call phase)
      (before : call.phase.taken = none) (taken : phase.taken = some m) (found : s.streamMeta = some m)
      (live : t.streamMeta = none) (advertised : t.advertised = s.advertised) (ledger : t.ledger = s.ledger) :
      Moved s t (.next k)
  | recorded {k : Nat} {call : Call} {phase : Phase} {m : StreamMeta} (tidy : Tidy s t k call phase)
      (before : call.phase.taken = some m) (taken : phase.taken = none)
      (live : t.streamMeta = s.streamMeta) (advertised : t.advertised = s.advertised)
      (ledger : t.ledger = s.ledger ++ [⟨call.userID, m⟩]) : Moved s t (.next k)

theorem touch_self {owner : Option String} (touched : ∀ entry ∈ s.touched, entry.2 = entry.1)
    (same : ∀ other, owner = some other → other = userID) : ∀ entry ∈ s.touched ++ touch userID owner, entry.2 = entry.1 := by
  intro entry member
  rcases List.mem_append.mp member with old | new
  · exact touched entry old
  · obtain ⟨other, found, rfl⟩ := List.mem_map.mp new
    exact same other (Option.mem_toList.mp found)

theorem active_update {record : Option ActiveStream}
    (active : ∀ userID record, s.active userID = some record → record.hostID = userID)
    (own : ∀ a, record = some a → a.hostID = userID) :
    ∀ other a, Function.update s.active userID record other = some a → a.hostID = other := by
  intro other a found
  by_cases same : other = userID
  · subst same
    rw [Function.update_self] at found
    exact own a found
  · rw [Function.update_of_ne same] at found
    exact active other a found

theorem sessions_update {streamID : String} {record : Option StreamSessionMeta} (sound : Sound s)
    (known : ∀ session, record = some session → SessionSound s streamID session) :
    ∀ other session, Function.update s.sessions streamID record other = some session → SessionSound s other session := by
  intro other session found
  by_cases same : other = streamID
  · subst same
    rw [Function.update_self] at found
    exact known session found
  · rw [Function.update_of_ne same] at found
    exact sound.sessions other session found

/-- The session of a stream is its host's. -/
theorem host_of_session {streamID owner : String} (sound : Sound s) (hosted : Hosted s streamID userID)
    (found : (s.sessions streamID).map StreamSessionMeta.hostUserID = some owner) : owner = userID := by
  obtain ⟨session, here, rfl⟩ := Option.map_eq_some_iff.mp found
  obtain ⟨m, member, id, host⟩ := (sound.sessions streamID session here).1
  obtain ⟨other, started, same, streamer⟩ := hosted
  rw [sound.ids m member other started (id.trans same.symm)] at host
  exact host.symm.trans streamer

theorem hosted_of_own {m : StreamMeta} (sound : Sound s) (own : Own s userID m) : Hosted s m.streamID userID :=
  ⟨m, sound.advertised m own.1, rfl, own.2⟩

@[simp] theorem taken_lastPhase (found : Option StreamMeta) : (lastPhase found).taken = found := by
  cases found <;> rfl

@[simp] theorem taken_afterDeletes (sessionID : Option String) (found : Option StreamMeta) :
    (afterDeletes sessionID found).taken = found := by
  cases sessionID with
  | none => exact taken_lastPhase found
  | some sessionID =>
    rw [afterDeletes]
    split_ifs
    · rfl
    · exact taken_lastPhase found

@[simp] theorem taken_afterPending (sessionID : String) (found : Option StreamMeta) (session : Option StreamSessionMeta) :
    (afterPending userID sessionID found session).taken = found := by
  cases session with
  | none => exact taken_lastPhase found
  | some session =>
    unfold afterPending
    dsimp only
    split_ifs
    · rfl
    · exact taken_lastPhase found

theorem phaseSound_lastPhase {found : Option StreamMeta} (own : ∀ m, found = some m → Own s userID m) :
    PhaseSound s userID (lastPhase found) := by
  cases found with
  | none => trivial
  | some m => exact own m rfl

theorem phaseSound_afterDeletes {sessionID : Option String} {found : Option StreamMeta}
    (own : ∀ m, found = some m → Own s userID m) : PhaseSound s userID (afterDeletes sessionID found) := by
  cases sessionID with
  | none => exact phaseSound_lastPhase own
  | some sessionID =>
    rw [afterDeletes]
    split_ifs
    · exact own
    · exact phaseSound_lastPhase own

theorem phaseSound_afterPending {sessionID : String} {found : Option StreamMeta} {session : Option StreamSessionMeta}
    (own : ∀ m, found = some m → Own s userID m)
    (hosted : ∀ session, s.sessions sessionID = some session → Hosted s sessionID session.hostUserID)
    (here : s.sessions sessionID = session) : PhaseSound s userID (afterPending userID sessionID found session) := by
  cases session with
  | none => exact phaseSound_lastPhase own
  | some session =>
    rw [afterPending]
    split_ifs with mine
    · exact ⟨own, mine.1 ▸ hosted session here⟩
    · exact phaseSound_lastPhase own

theorem phaseSound_afterSession {sessionID : String} {session : Option StreamSessionMeta} (sound : Sound s)
    (here : s.sessions sessionID = session) : PhaseSound s userID (afterSession userID session) := by
  cases session with
  | none => trivial
  | some session =>
    rw [afterSession]
    split_ifs with mine
    · cases pending : session.pending with
      | none => trivial
      | some advert =>
        obtain ⟨started, host⟩ := (sound.sessions sessionID session here).2 advert pending
        exact ⟨started, host.trans mine⟩
    · trivial

theorem taken_afterSession (session : Option StreamSessionMeta) : (afterSession userID session).taken = none := by
  cases session with
  | none => rfl
  | some session =>
    rw [afterSession]
    split_ifs
    · cases session.pending <;> rfl
    · rfl

theorem phaseSound_afterMeta {sessionID : Option String} {found : Option StreamMeta} (sound : Sound s)
    (here : s.streamMeta = found) : PhaseSound s userID (afterMeta userID sessionID found) := by
  cases found with
  | none =>
    cases sessionID with
    | none => trivial
    | some sessionID => exact nofun
  | some m =>
    rw [afterMeta]
    split_ifs with mine
    · intro other same
      cases same
      exact ⟨sound.live m here, mine⟩
    · trivial

theorem taken_afterMeta (sessionID : Option String) (found : Option StreamMeta) :
    (afterMeta userID sessionID found).taken = none := by
  cases found with
  | none => cases sessionID <;> rfl
  | some m =>
    rw [afterMeta]
    split_ifs <;> rfl

theorem moved_of_step (sound : Sound s) (alone : Alone s action) (stepped : step s action = some t) : Moved s t action := by
  cases action with
  | call userID request => exact .called alone (Option.some.inj stepped).symm
  | next k =>
    rw [step] at stepped
    split at stepped
    · rename_i call here
      have known := sound.phases call (List.mem_of_getElem? here)
      have alone := alone call here
      unfold advance at stepped
      split at stepped
      · rename_i advert phase
        rw [phase] at known
        cases stepped
        refine .quiet ⟨here, rfl, rfl, ?_, ?_, sound.sessions, ?_⟩ ?_ rfl rfl rfl
        · exact known
        · apply active_update sound.active
          rintro record ⟨⟩
          exact known.2
        · apply touch_self sound.touched
          intro other found
          obtain ⟨record, active, rfl⟩ := Option.map_eq_some_iff.mp found
          exact sound.active call.userID record active
        · rw [phase]
          rfl
      · rename_i advert phase
        rw [phase] at known alone
        cases stepped
        refine .wentLive ⟨here, rfl, rfl, ?_, sound.active, sound.sessions, ?_⟩ ?_ known.1 alone.2 alone.1 rfl rfl rfl
        · exact ⟨⟨⟨advert, known.1, rfl, known.2⟩, nofun⟩, rfl⟩
        · apply touch_self sound.touched
          intro other found
          rw [alone.1] at found
          cases found
        · rw [phase]
          rfl
      · rename_i streamID session phase
        rw [phase] at known
        cases stepped
        refine .quiet ⟨here, rfl, rfl, ?_, sound.active, ?_, ?_⟩ ?_ rfl rfl rfl
        · trivial
        · apply sessions_update sound
          rintro other ⟨⟩
          exact known.1
        · apply touch_self sound.touched
          intro other found
          exact host_of_session sound (known.2 ▸ known.1.1) found
        · rw [phase]
          rfl
      · rename_i sessionID phase
        cases stepped
        refine .quiet ⟨here, rfl, rfl, phaseSound_afterSession sound rfl, sound.active, sound.sessions, sound.touched⟩ ?_ rfl rfl rfl
        rw [taken_afterSession, phase]
        rfl
      · rename_i sessionID phase
        cases stepped
        refine .quiet ⟨here, rfl, rfl, phaseSound_afterMeta sound rfl, sound.active, sound.sessions, sound.touched⟩ ?_ rfl rfl rfl
        rw [taken_afterMeta, phase]
        rfl
      · rename_i sessionID found phase
        rw [phase] at known
        cases stepped
        refine .quiet ⟨here, rfl, rfl, ?_, ?_, sound.sessions, ?_⟩ ?_ rfl rfl rfl
        · exact known
        · exact active_update sound.active nofun
        · apply touch_self sound.touched
          intro other same
          obtain ⟨record, active, rfl⟩ := Option.map_eq_some_iff.mp same
          exact sound.active call.userID record active
        · rw [phase]
          rfl
      · rename_i sessionID found phase
        rw [phase] at known alone
        cases found with
        | none =>
          cases stepped
          refine .quiet ⟨here, rfl, rfl, phaseSound_afterDeletes nofun, sound.active, sound.sessions, ?_⟩ ?_ alone.symm rfl rfl
          · apply touch_self sound.touched
            intro other same
            rw [alone] at same
            cases same
          · rw [taken_afterDeletes, phase]
            rfl
        | some m =>
          cases stepped
          refine .took ⟨here, rfl, rfl, ?_, sound.active, sound.sessions, ?_⟩ ?_ rfl alone rfl rfl rfl
          · exact known m rfl
          · apply touch_self sound.touched
            intro other same
            rw [alone] at same
            cases same
            exact (known m rfl).2
          · rw [phase]
            rfl
      · rename_i sessionID m phase
        rw [phase] at known
        cases stepped
        refine .quiet ⟨here, rfl, rfl, phaseSound_afterDeletes ?_, sound.active, ?_, ?_⟩ ?_ rfl rfl rfl
        · rintro other ⟨⟩
          exact known
        · exact sessions_update sound nofun
        · apply touch_self sound.touched
          intro other same
          exact host_of_session sound (hosted_of_own sound known) same
        · rw [taken_afterDeletes, phase]
          rfl
      · rename_i sessionID found phase
        rw [phase] at known
        cases stepped
        refine .quiet ⟨here, rfl, rfl, phaseSound_afterPending known ?_ rfl, sound.active, sound.sessions, sound.touched⟩
          ?_ rfl rfl rfl
        · intro session found
          exact (sound.sessions sessionID session found).1
        · rw [taken_afterPending, phase]
          rfl
      · rename_i sessionID found phase
        rw [phase] at known
        cases stepped
        refine .quiet ⟨here, rfl, rfl, phaseSound_lastPhase known.1, sound.active, ?_, ?_⟩ ?_ rfl rfl rfl
        · exact sessions_update sound nofun
        · apply touch_self sound.touched
          intro other same
          exact host_of_session sound known.2 same
        · rw [taken_lastPhase, phase]
          rfl
      · rename_i m phase
        cases stepped
        refine .recorded ⟨here, rfl, rfl, ?_, sound.active, sound.sessions, sound.touched⟩ ?_ rfl rfl rfl rfl
        · trivial
        · rw [phase]
          rfl
      · cases stepped
      · cases stepped
    · cases stepped

/-- A stream that was started or advertised stays so. -/
structure Grown (s t : State) : Prop where
  started : ∀ m ∈ s.started, m ∈ t.started
  advertised : ∀ m ∈ s.advertised, m ∈ t.advertised

theorem Own.grown {m : StreamMeta} (own : Own s userID m) (grown : Grown s t) : Own t userID m :=
  ⟨grown.advertised m own.1, own.2⟩

theorem Hosted.grown {streamID : String} (hosted : Hosted s streamID userID) (grown : Grown s t) : Hosted t streamID userID := by
  obtain ⟨m, started, same⟩ := hosted
  exact ⟨m, grown.started m started, same⟩

theorem SessionSound.grown {streamID : String} {session : StreamSessionMeta} (known : SessionSound s streamID session)
    (grown : Grown s t) : SessionSound t streamID session := by
  refine ⟨known.1.grown grown, fun advert pending => ?_⟩
  obtain ⟨started, host⟩ := known.2 advert pending
  exact ⟨grown.started advert started, host⟩

theorem phaseSound_grown (known : PhaseSound s userID phase) (grown : Grown s t) : PhaseSound t userID phase := by
  cases phase with
  | writeActive | writeMeta => exact ⟨grown.started _ known.1, known.2⟩
  | storeSession => exact ⟨known.1.grown grown, known.2⟩
  | deleteActive | deleteMeta | loadPending => exact fun m found => (known m found).grown grown
  | deletePending => exact ⟨fun m found => (known.1 m found).grown grown, known.2.grown grown⟩
  | deleteSession | appendEvent => exact known.grown grown
  | loadSession | readMeta | done | refused => trivial

theorem phaseSound_firstPhase {request : Request} (started : ∀ m ∈ newStream userID request, m ∈ s.started) :
    PhaseSound s userID (firstPhase userID request) := by
  cases request with
  | StartStream streamID startedAt onLive =>
    have new := started ⟨streamID, userID, startedAt⟩ (List.mem_singleton.mpr rfl)
    cases onLive with
    | false => exact ⟨new, rfl⟩
    | true =>
      refine ⟨⟨⟨_, new, rfl, rfl⟩, ?_⟩, rfl⟩
      rintro advert ⟨⟩
      exact ⟨new, rfl⟩
  | StreamLive | StopStream | cleanupStreamIfHost => trivial

/-- A call that moves on leaves all that is known, with what it advertised. -/
theorem Tidy.sound (tidy : Tidy s t k call phase) (sound : Sound s) (advertised : ∀ m ∈ s.advertised, m ∈ t.advertised)
    (live : ∀ m, t.streamMeta = some m → m ∈ t.advertised) (known : ∀ m ∈ t.advertised, m ∈ t.started) : Sound t := by
  have grown : Grown s t := ⟨fun m member => tidy.started ▸ member, advertised⟩
  refine ⟨?_, tidy.active, live, known, ?_, ?_, tidy.touched⟩
  · rw [tidy.started]
    exact sound.ids
  · intro streamID session found
    exact (tidy.sessions streamID session found).grown grown
  · intro other member
    rw [tidy.calls] at member
    rcases mem_set_cases member with rfl | old
    · exact phaseSound_grown tidy.known grown
    · exact phaseSound_grown (sound.phases other old) grown

theorem sound_step (sound : Sound s) (moved : Moved s t action) : Sound t := by
  cases moved with
  | called new moved =>
    rename_i userID request
    subst moved
    have grown : Grown s { s with
        calls := s.calls ++ [⟨userID, firstPhase userID request⟩]
        started := s.started ++ newStream userID request } :=
      ⟨fun m member => List.mem_append_left _ member, fun m member => member⟩
    refine ⟨?_, sound.active, sound.live, ?_, ?_, ?_, sound.touched⟩
    · intro m member other there same
      rcases List.mem_append.mp member with old | now
      · rcases List.mem_append.mp there with before | later
        · exact sound.ids m old other before same
        · exact absurd same (new other later m old)
      · rcases List.mem_append.mp there with before | later
        · exact absurd same.symm (new m now other before)
        · cases request with
          | StartStream => exact (List.mem_singleton.mp now).trans (List.mem_singleton.mp later).symm
          | StreamLive | StopStream | cleanupStreamIfHost => cases now
    · intro m member
      exact grown.started m (sound.advertised m member)
    · intro streamID session found
      exact (sound.sessions streamID session found).grown grown
    · intro call member
      rcases List.mem_append.mp member with old | now
      · exact phaseSound_grown (sound.phases call old) grown
      · rw [List.mem_singleton.mp now]
        exact phaseSound_firstPhase fun m member => List.mem_append_right _ member
  | quiet tidy taken live advertised ledger =>
    apply tidy.sound sound
    · rw [advertised]
      exact fun m => id
    · rw [live, advertised]
      exact sound.live
    · rw [advertised, tidy.started]
      exact sound.advertised
  | wentLive tidy taken known new free live advertised ledger =>
    apply tidy.sound sound
    · rw [advertised]
      exact fun m => List.mem_append_left _
    · rintro m same
      rw [live] at same
      cases same
      rw [advertised]
      exact List.mem_append_right _ (List.mem_singleton.mpr rfl)
    · intro m member
      rw [advertised] at member
      rw [tidy.started]
      rcases List.mem_append.mp member with old | now
      · exact sound.advertised m old
      · rw [List.mem_singleton.mp now]
        exact known
  | took tidy before taken found live advertised ledger =>
    apply tidy.sound sound
    · rw [advertised]
      exact fun m => id
    · rw [live]
      exact nofun
    · rw [advertised, tidy.started]
      exact sound.advertised
  | recorded tidy before taken live advertised ledger =>
    apply tidy.sound sound
    · rw [advertised]
      exact fun m => id
    · rw [live, advertised]
      exact sound.live
    · rw [advertised, tidy.started]
      exact sound.advertised

theorem own_of_taken {m : StreamMeta} (known : PhaseSound s userID phase) (taken : phase.taken = some m) : Own s userID m := by
  cases phase with
  | deleteSession | appendEvent =>
    cases taken
    exact known
  | loadPending => exact known m taken
  | deletePending => exact known.1 m taken
  | writeActive | writeMeta | storeSession | loadSession | readMeta | deleteActive | deleteMeta | done | refused => cases taken

theorem taken_same (tidy : Tidy s t k call phase) (same : phase.taken = call.phase.taken) :
    (taken t.calls).Perm (taken s.calls) := by
  have moved := filterMap_set_perm (fun call : Call => call.phase.taken) tidy.here { call with phase }
  rw [← tidy.calls] at moved
  dsimp only at moved
  rw [same] at moved
  exact (List.perm_append_left_iff _).mp moved

theorem taken_took {m : StreamMeta} (tidy : Tidy s t k call phase) (before : call.phase.taken = none)
    (took : phase.taken = some m) : (taken t.calls).Perm (m :: taken s.calls) := by
  have moved := filterMap_set_perm (fun call : Call => call.phase.taken) tidy.here { call with phase }
  rw [← tidy.calls] at moved
  dsimp only at moved
  rw [before, took] at moved
  exact moved

theorem taken_recorded {m : StreamMeta} (tidy : Tidy s t k call phase) (before : call.phase.taken = some m)
    (recorded : phase.taken = none) : (m :: taken t.calls).Perm (taken s.calls) := by
  have moved := filterMap_set_perm (fun call : Call => call.phase.taken) tidy.here { call with phase }
  rw [← tidy.calls] at moved
  dsimp only at moved
  rw [before, recorded] at moved
  exact moved

theorem placed_step (sound : Sound s) (placed : Placed s) (moved : Moved s t action) : Placed t := by
  cases moved with
  | called new moved =>
    rename_i userID request
    subst moved
    refine ⟨placed.once, ?_, placed.own⟩
    have begun : taken (s.calls ++ [⟨userID, firstPhase userID request⟩]) = taken s.calls := by
      have none : (firstPhase userID request).taken = none := by
        cases request with
        | StartStream streamID startedAt onLive => cases onLive <;> rfl
        | StreamLive | StopStream | cleanupStreamIfHost => rfl
      unfold taken
      rw [List.filterMap_append, filterMap_cons_toList]
      dsimp only
      rw [none, Option.toList_none, List.filterMap_nil, List.append_nil, List.append_nil]
    dsimp only
    rw [begun]
    exact placed.all
  | quiet tidy same live advertised ledger =>
    refine ⟨advertised ▸ placed.once, ?_, ledger ▸ placed.own⟩
    rw [live, advertised, ledger]
    exact (((taken_same tidy same).append_right _).append_left _).trans placed.all
  | wentLive tidy same known new free live advertised ledger =>
    rename_i k call phase m
    refine ⟨?_, ?_, ledger ▸ placed.own⟩
    · rw [advertised]
      exact placed.once.append (List.nodup_singleton m) (List.disjoint_singleton.mpr new)
    · have before := placed.all
      rw [free, Option.toList_none, List.nil_append] at before
      rw [live, advertised, ledger, Option.toList_some, List.singleton_append]
      have after := (((taken_same tidy same).append_right (s.ledger.map CrewEvent.session)).trans before).cons m
      exact after.trans (List.perm_append_singleton m s.advertised).symm
  | took tidy before took found live advertised ledger =>
    rename_i k call phase m
    refine ⟨advertised ▸ placed.once, ?_, ledger ▸ placed.own⟩
    have old := placed.all
    rw [found, Option.toList_some, List.singleton_append] at old
    rw [live, advertised, ledger, Option.toList_none, List.nil_append]
    exact ((taken_took tidy before took).append_right _).trans old
  | recorded tidy before done live advertised ledger =>
    rename_i k call phase m
    refine ⟨advertised ▸ placed.once, ?_, ?_⟩
    · rw [live, advertised, ledger, List.map_append, List.map_singleton]
      have last : (taken t.calls ++ (s.ledger.map CrewEvent.session ++ [m])).Perm
          (m :: taken t.calls ++ s.ledger.map CrewEvent.session) := by
        rw [← List.append_assoc]
        exact List.perm_append_singleton m _
      have old := (taken_recorded tidy before done).append_right (s.ledger.map CrewEvent.session)
      exact ((last.trans old).append_left _).trans placed.all
    · intro event member
      rw [ledger] at member
      rcases List.mem_append.mp member with old | now
      · exact placed.own event old
      · rw [List.mem_singleton.mp now]
        have own := own_of_taken (sound.phases call (List.mem_of_getElem? tidy.here)) before
        exact own.2.symm

end Step

/-! ## Every run -/

end Mello.Backend.StreamRecords
