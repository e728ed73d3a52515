import Mello.Library.Calendar

/-!
The records of one crew's live stream through a network blip: the cleanup that follows the host's
socket, and the start that takes the same stream up again. Storage works, a call reads its clock once,
and the durable list of past streams is left out. Times are in nanoseconds where no unit is named.
-/

namespace Mello.Backend.StreamResume
open Mello.Library Calendar

def secondNs : Int := 1000 * 1000 * 1000
def streamResumeWindow : Int := 10 * 60 * secondNs
def eventRollingWindowDays : Int := 7

/-! ## The records -/

structure ActiveStream where
  hostID : String
  hostName : String
  title : String
  startedAt : Int
  width : Nat := 0
  height : Nat := 0
  bitrateKbps : Nat := 0
  fps : Nat := 0
  igdbID : Nat := 0
  deriving DecidableEq, Repr

attribute [ext] ActiveStream

/-- The start is kept as a text; here it is the second that the text was made from. -/
structure StreamMeta where
  streamID : String
  crewID : String
  streamerID : String
  streamerUsername : String
  title : String
  startedAt : Int
  thumbnailURL : String := ""
  thumbnailUpdatedAt : String := ""
  viewerIDs : List String := []
  watchedIDs : List String := []
  peakViewers : Nat := 0
  width : Nat := 0
  height : Nat := 0
  bitrateKbps : Nat := 0
  fps : Nat := 0
  igdbID : Nat := 0
  deriving DecidableEq, Repr

structure StreamAdvert where
  sessionID : String
  crewID : String
  hostID : String
  hostName : String
  title : String := ""
  startedAt : Int
  width : Nat := 0
  height : Nat := 0
  bitrateKbps : Nat := 0
  fps : Nat := 0
  igdbID : Nat := 0
  deriving DecidableEq, Repr

structure StreamSessionMeta where
  crewID : String
  hostUserID : String
  mode : String
  sfuRegion : String := ""
  sfuEndpoint : String := ""
  pending : Option StreamAdvert := none
  deriving DecidableEq, Repr

structure StreamSessionData where
  sessionID : String
  streamerID : String
  streamerName : String
  title : String
  durationMin : Int
  peakViewers : Nat
  viewerIDs : List String
  snapshotURLs : List String
  deriving DecidableEq, Repr

inductive EventData (Other : Type) where
  | streamSession (data : StreamSessionData)
  | other (data : Other)

structure CrewEvent (Other : Type) where
  id : String
  crewID : String
  type : String
  actorID : String
  timestamp : Int
  score : Int
  data : EventData Other

structure StreamResumeRecord where
  streamMeta : StreamMeta
  session : StreamSessionMeta
  ledgerEventID : String
  endedAt : Int
  deriving DecidableEq, Repr

/-- The active stream and the resume record of each host, the sessions by id, and the crew's one
stream_meta and ledger. -/
structure State (Other : Type) where
  active : String → Option ActiveStream := fun _ => none
  streamMeta : Option StreamMeta := none
  sessions : String → Option StreamSessionMeta := fun _ => none
  ledger : List (CrewEvent Other) := []
  resume : String → Option StreamResumeRecord := fun _ => none

namespace StreamMeta

variable (m : StreamMeta) (viewerID : String)

/-- The largest number of viewers at one time. -/
def largestCount : Nat := if m.viewerIDs.length > m.peakViewers then m.viewerIDs.length else m.peakViewers

/-- Every viewer that watched, and the current ones that an old record misses. -/
def allViewers : List String := m.viewerIDs.foldl (fun out id => if id ∈ out then out else out ++ [id]) m.watchedIDs

def addViewer : StreamMeta :=
  let viewerIDs := if viewerID ∈ m.viewerIDs then m.viewerIDs else m.viewerIDs ++ [viewerID]
  let watchedIDs := if viewerID ∈ m.watchedIDs then m.watchedIDs else m.watchedIDs ++ [viewerID]
  { m with viewerIDs, watchedIDs, peakViewers := max m.peakViewers viewerIDs.length }

def removeViewer : StreamMeta := { m with viewerIDs := m.viewerIDs.erase viewerID }

end StreamMeta

/-! ## The calls -/

section Calls

variable {Other : Type}

def advertiseStream (s : State Other) (a : StreamAdvert) : State Other :=
  { s with
    active := Function.update s.active a.hostID (some
      { hostID := a.hostID, hostName := a.hostName, title := a.title, startedAt := a.startedAt, width := a.width
        height := a.height, bitrateKbps := a.bitrateKbps, fps := a.fps, igdbID := a.igdbID })
    streamMeta := some
      { streamID := a.sessionID, crewID := a.crewID, streamerID := a.hostID, streamerUsername := a.hostName
        title := a.title, startedAt := a.startedAt, width := a.width, height := a.height, bitrateKbps := a.bitrateKbps
        fps := a.fps, igdbID := a.igdbID } }

def storeStreamSession (s : State Other) (sessionID : String) (session : StreamSessionMeta) : State Other :=
  { s with sessions := Function.update s.sessions sessionID (some session) }

/-- A start, or a start on live and then its `stream_live`: the advert and then the session. -/
def start (s : State Other) (a : StreamAdvert) (session : StreamSessionMeta) : State Other :=
  storeStreamSession (advertiseStream s a) a.sessionID session

/-- What the calls during a stream write. `hostID` is the host that the viewer's session names. -/
inductive Change where
  | watchStream (userID hostID sessionID : String)
  | streamViewerLeft (userID viewerID : String)
  | streamThumbnailUpload (userID thumbnailURL now : String)
  | updateStreamResolution (userID : String) (width height : Nat)
  deriving DecidableEq, Repr

/-- The resolution is also written to the user's active stream, if there is one. -/
def change (s : State Other) (c : Change) : State Other :=
  match s.streamMeta with
  | none => s
  | some m =>
    match c with
    | .watchStream userID hostID sessionID =>
      if userID ≠ hostID ∧ m.streamID = sessionID then { s with streamMeta := some (m.addViewer userID) } else s
    | .streamViewerLeft userID viewerID =>
      if m.streamerID = userID then { s with streamMeta := some (m.removeViewer viewerID) } else s
    | .streamThumbnailUpload userID thumbnailURL now =>
      if m.streamerID = userID then { s with streamMeta := some { m with thumbnailURL, thumbnailUpdatedAt := now } } else s
    | .updateStreamResolution userID width height =>
      if m.streamerID = userID then
        { s with
          streamMeta := some { m with width, height }
          active := Function.update s.active userID ((s.active userID).map fun stream => { stream with width, height }) }
      else s

/-- The event behind the others, without those older than the window. -/
def appendCrewEvent (ledger : List (CrewEvent Other)) (event : CrewEvent Other) (now : Int) : List (CrewEvent Other) :=
  let cutoff := (now - eventRollingWindowDays * 24 * 60 * 60 * secondNs) / (1000 * 1000)
  (ledger ++ [event]).filter fun e => e.timestamp ≥ cutoff

def removeCrewEvent (ledger : List (CrewEvent Other)) (eventID : String) : List (CrewEvent Other) :=
  ledger.filter fun e => e.id ≠ eventID

/-- Only the text of a year with four digits can be read back. -/
def parseTime (startedAt : Int) : Option Int :=
  if firstDay 0 * 86400 ≤ startedAt ∧ startedAt < firstDay 10000 * 86400 then some startedAt else none

def durationMin (startedAt now : Int) : Int :=
  match parseTime startedAt with
  | none => 0
  | some startedAt => max 1 ((now - startedAt * secondNs).tdiv (60 * secondNs))

def sessionEvent (m : StreamMeta) (crewID userID eventID : String) (snapshotURLs : List String) (now : Int) : CrewEvent Other where
  id := eventID
  crewID := crewID
  type := "stream_session"
  actorID := userID
  timestamp := now / (1000 * 1000)
  score := 30
  data := .streamSession
    { sessionID := m.streamID, streamerID := m.streamerID, streamerName := m.streamerUsername, title := m.title
      durationMin := durationMin m.startedAt now, peakViewers := m.largestCount, viewerIDs := m.allViewers, snapshotURLs }

/-- `eventID` is the id that is generated, and `snapshotURLs` what the stream's directory has. -/
def cleanupStreamIfHost (s : State Other) (crewID userID eventID : String) (snapshotURLs : List String) (now : Int) :
    State Other :=
  match s.streamMeta with
  | none => s
  | some m =>
    if m.streamerID ≠ userID then s
    else
      { active := Function.update s.active userID none
        streamMeta := none
        sessions := Function.update s.sessions m.streamID none
        ledger := appendCrewEvent s.ledger (sessionEvent m crewID userID eventID snapshotURLs now) now
        resume := match s.sessions m.streamID with
          | none => s.resume
          | some session => Function.update s.resume userID (some
              { streamMeta := m, session, ledgerEventID := eventID, endedAt := now / secondNs }) }

/-- Whether the stream is still advertised. -/
def stillLive (s : State Other) (userID sessionID : String) : Bool :=
  match s.streamMeta with
  | none => false
  | some live => live.streamID = sessionID ∧ live.streamerID = userID ∧ (s.sessions sessionID).isSome

/-- The records after a resume, none when it is refused. -/
def resumeStream (s : State Other) (crewID userID sessionID : String) (now : Int) : Option (State Other) :=
  if stillLive s userID sessionID then some s
  else
    match s.resume userID with
    | none => none
    | some rec =>
      if rec.streamMeta.streamID ≠ sessionID ∨ rec.streamMeta.crewID ≠ crewID ∨ rec.streamMeta.streamerID ≠ userID ∨
          now - rec.endedAt * secondNs > streamResumeWindow then none
      else
        let startedAt := (parseTime rec.streamMeta.startedAt).getD (now / secondNs)
        some
          { active := Function.update s.active userID (some
              { hostID := userID, hostName := rec.streamMeta.streamerUsername, title := rec.streamMeta.title, startedAt
                width := rec.streamMeta.width, height := rec.streamMeta.height, bitrateKbps := rec.streamMeta.bitrateKbps })
            streamMeta := some rec.streamMeta
            sessions := Function.update s.sessions sessionID (some rec.session)
            ledger := if rec.ledgerEventID ≠ "" then removeCrewEvent s.ledger rec.ledgerEventID else s.ledger
            resume := Function.update s.resume userID none }

end Calls

/-! ## What is claimed -/

section Claim

variable {Other : Type}

/-- A network blip: when the host is cleaned up after and when the stream is resumed, the id of the event
and the snapshots there were. -/
structure Blip where
  cleanupAt : Int
  resumeAt : Int
  eventID : String
  snapshotURLs : List String := []

/-- The id of the event is new, the ledger is within its window, and the resume comes in time. -/
structure Fair (ledger : List (CrewEvent Other)) (blip : Blip) : Prop where
  named : blip.eventID ≠ ""
  fresh : ∀ e ∈ ledger, e.id ≠ blip.eventID
  kept : ∀ e ∈ ledger, (blip.cleanupAt - eventRollingWindowDays * 24 * 60 * 60 * secondNs) / (1000 * 1000) ≤ e.timestamp
  inTime : blip.resumeAt - blip.cleanupAt / secondNs * secondNs ≤ streamResumeWindow

/-- The cleanup after the host, and the resume of the stream. -/
def through (s : State Other) (a : StreamAdvert) (blip : Blip) : Option (State Other) :=
  resumeStream (cleanupStreamIfHost s a.crewID a.hostID blip.eventID blip.snapshotURLs blip.cleanupAt)
    a.crewID a.hostID a.sessionID blip.resumeAt

/-- The records of the streams and the events are those of before. -/
structure Undone (s t : State Other) : Prop where
  active : t.active = s.active
  streamMeta : t.streamMeta = s.streamMeta
  sessions : t.sessions = s.sessions
  ledger : t.ledger = s.ledger

/-- Two blips leave the records as they were. -/
def UndoneTwice (s : State Other) (a : StreamAdvert) (first second : Blip) : Prop :=
  ∃ t, through s a first = some t ∧ Undone s t ∧ ∃ u, through t a second = some u ∧ Undone t u

end Claim

/-! ## The records of a stream -/

section Records

variable {Other : Type} {s : State Other} {a : StreamAdvert} {session : StreamSessionMeta} {m : StreamMeta}

/-- What of the advert no call changes. -/
structure OfAdvert (a : StreamAdvert) (m : StreamMeta) : Prop where
  streamID : m.streamID = a.sessionID
  crewID : m.crewID = a.crewID
  streamerID : m.streamerID = a.hostID
  startedAt : m.startedAt = a.startedAt
  fps : m.fps = a.fps
  igdbID : m.igdbID = a.igdbID

/-- The active stream that says what the record says. -/
def activeOf (m : StreamMeta) : ActiveStream where
  hostID := m.streamerID
  hostName := m.streamerUsername
  title := m.title
  startedAt := m.startedAt
  width := m.width
  height := m.height
  bitrateKbps := m.bitrateKbps
  fps := m.fps
  igdbID := m.igdbID

/-- The stream has its record and its session. -/
structure Streaming (s : State Other) (a : StreamAdvert) (session : StreamSessionMeta) (m : StreamMeta) : Prop where
  streamMeta : s.streamMeta = some m
  advert : OfAdvert a m
  session : s.sessions a.sessionID = some session

/-- The event comes and goes. -/
theorem ledger_restored {ledger : List (CrewEvent Other)} {blip : Blip} (fair : Fair ledger blip) {event : CrewEvent Other}
    (own : event.id = blip.eventID) : removeCrewEvent (appendCrewEvent ledger event blip.cleanupAt) blip.eventID = ledger := by
  unfold removeCrewEvent appendCrewEvent
  dsimp only
  have others : ledger.filter (fun e => decide (e.timestamp ≥
      (blip.cleanupAt - eventRollingWindowDays * 24 * 60 * 60 * secondNs) / (1000 * 1000))) = ledger :=
    List.filter_eq_self.mpr fun e member => decide_eq_true (fair.kept e member)
  have kept : ledger.filter (fun e => decide (e.id ≠ blip.eventID)) = ledger :=
    List.filter_eq_self.mpr fun e member => decide_eq_true (fair.fresh e member)
  have gone : ([event].filter fun e => decide (e.timestamp ≥
      (blip.cleanupAt - eventRollingWindowDays * 24 * 60 * 60 * secondNs) / (1000 * 1000))).filter
        (fun e => decide (e.id ≠ blip.eventID)) = [] := by
    rw [List.filter_eq_nil_iff]
    intro e member
    rw [List.mem_singleton.mp (List.mem_of_mem_filter member)]
    simp [own]
  rw [List.filter_append, List.filter_append, others, kept, gone, List.append_nil]

/-- The active stream that a resume writes: the frame rate and the game are not in it. -/
def resumedOf (m : StreamMeta) : ActiveStream := { activeOf m with fps := 0, igdbID := 0 }

/-- What a blip does to the records: all but the active stream are as before. -/
theorem through_eq (streaming : Streaming s a session m) (readable : parseTime a.startedAt = some a.startedAt) (blip : Blip)
    (fair : Fair s.ledger blip) :
    through s a blip = some
      { s with
        active := Function.update s.active a.hostID (some (resumedOf m))
        resume := Function.update s.resume a.hostID none } := by
  obtain ⟨here, advert, known⟩ := streaming
  unfold through cleanupStreamIfHost
  rw [here]
  dsimp only
  rw [if_neg (not_not_intro advert.streamerID), advert.streamID, known]
  dsimp only
  unfold resumeStream stillLive
  dsimp only
  rw [if_neg Bool.false_ne_true, Function.update_self]
  dsimp only
  have inTime := not_lt.mpr fair.inTime
  rw [if_neg (by simp only [advert.streamID, advert.crewID, advert.streamerID, ne_eq, not_true_eq_false, false_or]; exact inTime),
    if_pos fair.named, advert.startedAt, readable, Option.getD_some, ledger_restored fair rfl, Function.update_idem,
    Function.update_idem, Function.update_idem, ← known, Function.update_eq_self]
  have resumed : resumedOf m =
      { hostID := a.hostID, hostName := m.streamerUsername, title := m.title, startedAt := a.startedAt, width := m.width
        height := m.height, bitrateKbps := m.bitrateKbps } := by
    rw [resumedOf, activeOf, advert.streamerID, advert.startedAt]
  rw [resumed]

theorem resumedOf_eq_iff (advert : OfAdvert a m) : resumedOf m = activeOf m ↔ a.fps = 0 ∧ a.igdbID = 0 := by
  rw [← advert.fps, ← advert.igdbID]
  constructor
  · intro same
    exact ⟨(congrArg ActiveStream.fps same).symm, (congrArg ActiveStream.igdbID same).symm⟩
  · rintro ⟨fps, igdbID⟩
    rw [resumedOf, activeOf, fps, igdbID]

/-- The frame rate and the game of the host's active stream do not come back. -/
theorem forgotten (streaming : Streaming s a session m) (active : s.active a.hostID = some (activeOf m))
    (readable : parseTime a.startedAt = some a.startedAt) {first second : Blip} (fair : Fair s.ledger first)
    (undone : UndoneTwice s a first second) : a.fps = 0 ∧ a.igdbID = 0 := by
  obtain ⟨t, went, once, -⟩ := undone
  obtain rfl := Option.some.inj ((through_eq streaming readable first fair).symm.trans went)
  have host := congrFun once.active a.hostID
  dsimp only at host
  rw [Function.update_self, active] at host
  exact (resumedOf_eq_iff streaming.advert).mp (Option.some.inj host)

end Records

/-! ## Two streams -/

section Streams

def hosted : StreamSessionMeta where
  crewID := "c1"
  hostUserID := "u1"
  mode := "p2p"

/-- A viewer comes and the resolution changes. -/
def changes : List Change := [.watchStream "u2" "u1" "s1", .updateStreamResolution "u1" 1280 720]

end Streams

end Mello.Backend.StreamResume
