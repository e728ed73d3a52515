import Mello.Library.Documents

/-!
The crew documents in Nakama storage: the event ledger, the clips and the weekly
recaps. Each is one object that any number of calls read, change and write back.
Every stored object decodes. One reading of the clock serves each attempt.
-/

namespace Mello.Backend.CrewDocuments
open Mello.Library Documents Runs

/-- A failed read and an absent document give the same: the empty document, and
the empty version. -/
def readDoc {Doc : Type} (empty : Doc) : Read Doc → Doc × Expect
  | .failed => (empty, .any)
  | .absent => (empty, .any)
  | .found stored => (stored.value, .version stored.version)

/-! ## The ledger -/

def EventRollingWindowDays : Int := 7

structure CrewEvent where
  id : String
  crewID : String
  type : String
  actorID : String
  timestamp : Int
  data : String
  score : Int
  deriving DecidableEq, Repr

structure CrewEventLedger where
  crewID : String
  events : List CrewEvent := []
  updatedAt : Int := 0
  deriving DecidableEq, Repr

def readLedger (crewID : String) : Read CrewEventLedger → CrewEventLedger × Expect := readDoc { crewID }

/-- Milliseconds. -/
def cutoff (now : Int) : Int := now - EventRollingWindowDays * 24 * 60 * 60 * 1000

def inWindow (now : Int) (event : CrewEvent) : Bool := cutoff now ≤ event.timestamp

def appendEvent (event : CrewEvent) (now : Int) (ledger : CrewEventLedger) : CrewEventLedger :=
  { ledger with events := (ledger.events ++ [event]).filter (inWindow now), updatedAt := now }

def AppendCrewEvent (crewID : String) : Client CrewEvent Int CrewEventLedger Empty where
  attempts := 3
  empty := { crewID }
  take := readLedger crewID
  modify := fun event now ledger => .ok (appendEvent event now ledger)
  take_failed := rfl
  take_absent := rfl
  take_found := fun _ => rfl

/-! ## The clips -/

def CrewClipsMaxRetained : Nat := 250

structure StoredClip where
  eventID : String
  clipID : String
  actorID : String
  ts : Int
  deriving DecidableEq, Repr

structure CrewClipsDoc where
  crewID : String
  clips : List StoredClip := []
  updatedAt : Int := 0
  deriving DecidableEq, Repr

def readClipsDoc (crewID : String) : Read CrewClipsDoc → CrewClipsDoc × Expect := readDoc { crewID }

/-- The sort is not stable, so its order is a parameter. -/
def capClips (sortByTs : List StoredClip → List StoredClip) (clips : List StoredClip) : List StoredClip :=
  if clips.length ≤ CrewClipsMaxRetained then clips
  else (sortByTs clips).drop (clips.length - CrewClipsMaxRetained)

/-- What `AppendClip` answers when it appends nothing. -/
inductive ClipAnswer where
  | existing (clip : StoredClip)
  | clipIDTaken
  deriving DecidableEq, Repr

/-- A clip of the same actor, or else whether another actor holds the id. -/
def existingClip (clips : List StoredClip) (clipID actorID : String) : Option StoredClip × Bool :=
  match clips.find? fun clip => clip.clipID == clipID && clip.actorID == actorID with
  | some clip => (some clip, false)
  | none => (none, clips.any fun clip => clip.clipID == clipID)

def addClip (sortByTs : List StoredClip → List StoredClip) (clip : StoredClip) (clips : List StoredClip) :
    Except ClipAnswer (List StoredClip) :=
  match existingClip clips clip.clipID clip.actorID with
  | (some previous, _) => .error (.existing previous)
  | (none, true) => .error .clipIDTaken
  | (none, false) => .ok (capClips sortByTs (clips ++ [clip]))

def AppendClip (sortByTs : List StoredClip → List StoredClip) (crewID : String) :
    Client StoredClip Int CrewClipsDoc ClipAnswer where
  attempts := 3
  empty := { crewID }
  take := readClipsDoc crewID
  modify := fun clip now doc =>
    (addClip sortByTs clip doc.clips).map fun clips => { doc with clips, updatedAt := now }
  take_failed := rfl
  take_absent := rfl
  take_found := fun _ => rfl

/-! ## The recaps -/

structure WeeklyRecapData where
  weekStart : Int
  weekEnd : Int
  deriving DecidableEq, Repr

structure CrewRecapsDoc where
  crewID : String
  recaps : List WeeklyRecapData := []
  lastRecapWeek : String := ""
  updatedAt : Int := 0
  deriving DecidableEq, Repr

def readRecapsDoc (crewID : String) : Read CrewRecapsDoc → CrewRecapsDoc × Expect := readDoc { crewID }

/-- The name of the ISO week is a parameter. -/
def AppendRecap (isoWeekKey : Int → String) (crewID : String) :
    Client WeeklyRecapData Int CrewRecapsDoc Empty where
  attempts := 3
  empty := { crewID }
  take := readRecapsDoc crewID
  modify := fun recap now doc => .ok { doc with
    recaps := doc.recaps ++ [recap], lastRecapWeek := isoWeekKey recap.weekEnd, updatedAt := now }
  take_failed := rfl
  take_absent := rfl
  take_found := fun _ => rfl

/-! ## The ledger over runs -/

/-- The events inside the window at the latest time are those that the ledger
started with and those of the calls that wrote, in the order of their writes. -/
def Kept (crewID : String) (start : List CrewEvent) (s : State CrewEvent Int CrewEventLedger Empty) : Prop :=
  ((AppendCrewEvent crewID).current s.store).events.filter (inWindow s.latest) =
    (start ++ s.log.map fun entry => entry.2.1).filter (inWindow s.latest)

/-- A write that names no version finds no event inside the window. -/
def Forgotten (crewID : String) (s : State CrewEvent Int CrewEventLedger Empty) (action : Action CrewEvent Int) : Prop :=
  ∀ k call now doc, Blind s action k call now doc →
    ((AppendCrewEvent crewID).current s.store).events.filter (inWindow s.latest) = []

theorem filter_inWindow_of_le {now later : Int} (order : now ≤ later) (events : List CrewEvent) :
    (events.filter (inWindow now)).filter (inWindow later) = events.filter (inWindow later) := by
  rw [List.filter_filter]
  apply List.filter_congr
  intro event _
  unfold inWindow cutoff
  rw [Bool.eq_iff_iff, Bool.and_eq_true]
  simp only [decide_eq_true_eq]
  omega

/-- The trim of an append takes nothing out of the window. -/
theorem filter_appendEvent {now later : Int} (order : now ≤ later) (event : CrewEvent) (ledger : CrewEventLedger) :
    (appendEvent event now ledger).events.filter (inWindow later) =
      ledger.events.filter (inWindow later) ++ [event].filter (inWindow later) := by
  unfold appendEvent
  rw [filter_inWindow_of_le order, List.filter_append]

section Step

variable {crewID : String} {start : List CrewEvent} {s t : State CrewEvent Int CrewEventLedger Empty}
variable {action : Action CrewEvent Int}

theorem kept_mono (kept : Kept crewID start s) (store : t.store = s.store) (log : t.log = s.log)
    (order : s.latest ≤ t.latest) : Kept crewID start t := by
  unfold Kept at kept ⊢
  rw [store, log, ← filter_inWindow_of_le order, kept, filter_inWindow_of_le order]

theorem kept_append {k : Nat} {event : CrewEvent} {now : Int} {ledger : CrewEventLedger}
    (kept : Kept crewID start s) (early : now ≤ s.latest) (latest : t.latest = s.latest)
    (store : t.store = s.store.put (appendEvent event now ledger))
    (log : t.log = s.log ++ [(k, event, now)]) :
    Kept crewID start t ↔ ledger.events.filter (inWindow s.latest) =
      ((AppendCrewEvent crewID).current s.store).events.filter (inWindow s.latest) := by
  unfold Kept at kept ⊢
  rw [store, log, latest, current_put, filter_appendEvent early, List.map_append, List.map_singleton,
    ← List.append_assoc, List.filter_append, ← kept]
  exact List.append_left_inj _

theorem kept_step (sound : Sound (AppendCrewEvent crewID) s) (kept : Kept crewID start s)
    (stepped : (AppendCrewEvent crewID).step s action = some t) :
    Kept crewID start t ↔ Forgotten crewID s action := by
  by_cases blind : ∃ k call now doc, Blind s action k call now doc
  · obtain ⟨k, call, now, doc, blind⟩ := blind
    obtain ⟨early, latest, store, log, modified⟩ := blind_step sound stepped blind
    obtain rfl := Except.ok.inj modified
    rw [kept_append kept early latest store log]
    constructor
    · intro same k' call' now' doc' other
      exact same.symm
    · intro forgotten
      exact (forgotten k call now _ blind).symm
  · have forgotten : Forgotten crewID s action := by
      intro k call now doc other
      exact absurd ⟨k, call, now, doc, other⟩ blind
    rw [iff_true_right forgotten]
    cases (effect_of_step sound stepped).resolve_left blind with
    | still store log => exact kept_mono kept store log (latest_mono stepped)
    | made early latest store log modified =>
      obtain rfl := Except.ok.inj modified
      exact (kept_append kept early latest store log).mpr rfl

end Step

/-! ## Every run -/

/-- The state before any call, on any stored document. -/
def before {Request Doc Answer : Type} (store : Store Doc) (latest : Int) : State Request Int Doc Answer :=
  { store, latest }

theorem addClip_acts (sortByTs : List StoredClip → List StoredClip) (crewID : String) (clip : StoredClip) (now : Int)
    (doc next : CrewClipsDoc) (modified : (AppendClip sortByTs crewID).modify clip now doc = .ok next) :
    addClip sortByTs clip doc.clips = .ok next.clips := by
  change (addClip sortByTs clip doc.clips).map _ = .ok next at modified
  cases added : addClip sortByTs clip doc.clips with
  | error answer =>
    rw [added] at modified
    cases modified
  | ok clips =>
    rw [added] at modified
    cases modified
    rfl

theorem addRecap_acts (isoWeekKey : Int → String) (crewID : String) (recap : WeeklyRecapData) (now : Int)
    (doc next : CrewRecapsDoc) (modified : (AppendRecap isoWeekKey crewID).modify recap now doc = .ok next) :
    (.ok (doc.recaps ++ [recap]) : Except Empty (List WeeklyRecapData)) = .ok next.recaps := by
  cases modified
  rfl

/-- The calls of each helper lose nothing along exactly the runs in which a write
that names no version finds nothing to lose. -/
theorem updates_kept_iff (crewID : String) (sortByTs : List StoredClip → List StoredClip)
    (isoWeekKey : Int → String) (latest : Int) :
    (∀ (store : Store CrewEventLedger) actions,
      let ledger := ((AppendCrewEvent crewID).current store).events
      Always (AppendCrewEvent crewID).step (fun s => Kept crewID ledger s ∧ Accounted s) (before store latest) actions ↔
        EachStep (AppendCrewEvent crewID).step (Forgotten crewID) (before store latest) actions) ∧
    (∀ (store : Store CrewClipsDoc) actions,
      let clips := ((AppendClip sortByTs crewID).current store).clips
      EachStep (AppendClip sortByTs crewID).step (Vacant CrewClipsDoc.clips (AppendClip sortByTs crewID))
          (before store latest) actions →
        Always (AppendClip sortByTs crewID).step
          (fun s => Sequential CrewClipsDoc.clips (fun clip _ => addClip sortByTs clip) (AppendClip sortByTs crewID) clips s ∧
            Accounted s)
          (before store latest) actions) ∧
    (∀ (store : Store CrewRecapsDoc) actions,
      let recaps := ((AppendRecap isoWeekKey crewID).current store).recaps
      EachStep (AppendRecap isoWeekKey crewID).step (Vacant CrewRecapsDoc.recaps (AppendRecap isoWeekKey crewID))
          (before store latest) actions →
        Always (AppendRecap isoWeekKey crewID).step
          (fun s => Sequential CrewRecapsDoc.recaps (fun recap _ recaps => .ok (recaps ++ [recap]))
              (AppendRecap isoWeekKey crewID) recaps s ∧
            Accounted s)
          (before store latest) actions) := by
  refine ⟨?_, ?_, ?_⟩
  · intro store actions ledger
    apply always_iff_eachStep (Sound (AppendCrewEvent crewID))
    · intro s action t sound stepped
      exact sound_step sound stepped
    · rintro s action t sound ⟨kept, -⟩ stepped
      rw [and_iff_left (sound_step sound stepped).toAccounted]
      exact kept_step sound kept stepped
    · exact sound_start store latest
    · have start : Sound (AppendCrewEvent crewID) _ := sound_start store latest
      refine ⟨?_, start.toAccounted⟩
      change _ = List.filter _ (ledger ++ [])
      rw [List.append_nil]
      rfl
  · intro store actions clips vacant
    exact sequential_always (addClip_acts sortByTs crewID) actions (sound_start store latest) rfl vacant
  · intro store actions recaps vacant
    exact sequential_always (addRecap_acts isoWeekKey crewID) actions (sound_start store latest) rfl vacant

def eventAt (id : String) (timestamp : Int) : CrewEvent :=
  { id, crewID := "crew", type := "moment", actorID := "user", timestamp, data := "", score := 10 }

/-- Two calls on an absent ledger: both read before either writes. -/
def firstWrites : List (Action CrewEvent Int) :=
  [.call (eventAt "first" 5), .call (eventAt "second" 6), .read 0 5 true, .read 1 6 true, .write 0 true, .write 1 true]

/-- Both return without an error, and the first event is gone. -/
theorem firstWrites_lose_event :
    ∃ t, run (AppendCrewEvent "crew").step (before {} 0) firstWrites = some t ∧
      (t.calls.map fun call => call.phase matches .wrote) = [true, true] ∧
      ((AppendCrewEvent "crew").current t.store).events = [eventAt "second" 6] ∧
      inWindow t.latest (eventAt "first" 5) = true :=
  ⟨_, rfl, rfl, rfl, by decide⟩

end Mello.Backend.CrewDocuments
