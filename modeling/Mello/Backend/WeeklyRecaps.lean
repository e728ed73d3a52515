import Mello.Library.Calendar
import Mello.Library.Runs

/-!
The weekly recaps of one crew: the documents that a recap counts, and the hourly job that
writes it. Of a recap the model keeps the counts; names, texts and the other rankings are
left out. Storage works, and a tick runs alone.
-/

namespace Mello.Backend.WeeklyRecaps
open Mello.Library Calendar Runs

/-- Durations are in minutes. -/
inductive SessionData where
  | voiceSession (durationMin : Int)
  | streamSession (durationMin : Int)
  | gameSession (durationMin activeMin : Int)
  | other
  deriving DecidableEq, Repr

structure CrewEvent where
  id : String
  timestamp : Int
  data : SessionData
  deriving DecidableEq, Repr

structure StoredClip where
  clipID : String
  ts : Int
  deriving DecidableEq, Repr

structure Head2headTitle where
  titleID : String
  holderUserID : String
  previousHolderUserID : String := ""
  movedAtMs : Int := 0
  deriving DecidableEq, Repr

/-- What a recap reads. `appended` has every event of the ledger, also the trimmed ones,
and `trimmedTo` the last cutoff. -/
structure CrewData where
  ledger : List CrewEvent := []
  clips : List StoredClip := []
  titles : List Head2headTitle := []
  appended : List CrewEvent := []
  trimmedTo : Option Int := none
  deriving DecidableEq, Repr

structure RecapBeltMoved where
  titleID : String
  holderUserID : String
  previousUserID : String
  movedAtMs : Int
  deriving DecidableEq, Repr

/-- What the loop over the events counts, and the events that it counts as sessions. -/
structure Tally where
  totalHangoutMin : Int := 0
  totalGameMin : Int := 0
  sessionCount : Nat := 0
  longestSessionMin : Int := 0
  sessions : List CrewEvent := []
  deriving DecidableEq, Repr

/-- `found` is what was stored when the recap was written. -/
structure WeeklyRecapData where
  weekStart : Int
  weekEnd : Int
  tally : Tally
  totalMin : Int
  clips : List StoredClip
  clipCount : Nat
  beltsMoved : List RecapBeltMoved := []
  found : CrewData
  deriving DecidableEq, Repr

structure CrewRecapsDoc where
  recaps : List WeeklyRecapData := []
  lastRecapWeek : Option Week := none
  deriving DecidableEq, Repr

def eventRollingWindow : Int := 7 * dayMs

def recapLookback : Int := 72 * 60 * 60 * 1000

def isoWeekKey (ms : Int) : Week := isoWeek ms

def mondayStartUTC (ms : Int) : Int := mondayStart ms

def appendCrewEvent (now : Int) (event : CrewEvent) (data : CrewData) : CrewData :=
  let cutoff := now - eventRollingWindow
  { data with
    ledger := (data.ledger ++ [event]).filter fun e => cutoff ≤ e.timestamp
    appended := data.appended ++ [event]
    trimmedTo := some cutoff }

def reportableMinutes (durationMin activeMin : Int) : Int :=
  if 0 < activeMin ∧ activeMin * 3 < durationMin then activeMin else durationMin

def tallyEvent (startMs endMs : Int) (tally : Tally) (e : CrewEvent) : Tally :=
  if e.timestamp < startMs ∨ endMs < e.timestamp then tally
  else match e.data with
    | .voiceSession durationMin | .streamSession durationMin =>
      { tally with
        sessionCount := tally.sessionCount + 1
        totalHangoutMin := tally.totalHangoutMin + durationMin
        longestSessionMin := if tally.longestSessionMin < durationMin then durationMin else tally.longestSessionMin
        sessions := tally.sessions ++ [e] }
    | .gameSession durationMin activeMin =>
      { tally with
        sessionCount := tally.sessionCount + 1
        totalGameMin := tally.totalGameMin + reportableMinutes durationMin activeMin
        sessions := tally.sessions ++ [e] }
    | .other => tally

def tallyEvents (startMs endMs : Int) (events : List CrewEvent) : Tally := events.foldl (tallyEvent startMs endMs) {}

def beltMoved (t : Head2headTitle) : RecapBeltMoved := ⟨t.titleID, t.holderUserID, t.previousHolderUserID, t.movedAtMs⟩

def buildRecapBelts (titles : List Head2headTitle) (startMs endMs : Int) : List RecapBeltMoved :=
  ((titles.filter fun t => t.holderUserID ≠ "" ∧ startMs ≤ t.movedAtMs ∧ t.movedAtMs ≤ endMs).map beltMoved).insertionSort
    fun a b => a.movedAtMs ≤ b.movedAtMs

def isEmptyRecap (r : WeeklyRecapData) : Bool :=
  r.tally.totalHangoutMin = 0 ∧ r.tally.totalGameMin = 0 ∧ r.totalMin = 0 ∧ r.clipCount = 0

/-- A title with its holder, as `computeHead2head` stores it. -/
def computeTitle (prev : List Head2headTitle) (nowMs : Int) (titleID holder : String) : Head2headTitle :=
  match prev.reverse.find? fun t => t.titleID = titleID with
  | some t =>
    if t.holderUserID = holder then ⟨titleID, holder, t.previousHolderUserID, t.movedAtMs⟩
    else ⟨titleID, holder, t.holderUserID, nowMs⟩
  | none => { titleID, holderUserID := holder }

/-- `winners` has the contested titles, each with who wins it. -/
def recomputeHead2head (nowMs : Int) (winners : List (String × String)) (data : CrewData) : CrewData :=
  { data with titles := winners.map fun (titleID, holder) => computeTitle data.titles nowMs titleID holder }

/-- A recap without belts. -/
def countWeek (data : CrewData) (weekEnd : Int) : WeeklyRecapData :=
  let weekStart := weekEnd - weekMs
  let tally := tallyEvents weekStart weekEnd data.ledger
  let clips := data.clips.filter fun c => weekStart ≤ c.ts ∧ c.ts ≤ weekEnd
  { weekStart, weekEnd, tally
    totalMin := tally.totalHangoutMin + tally.totalGameMin
    clips
    clipCount := clips.length
    found := data }

/-- The titles are recomputed for the end of the week, unless that fails. -/
def attachRecapBelts (winners : Option (List (String × String))) (recap : WeeklyRecapData) : WeeklyRecapData :=
  let found := match winners with
    | some winners => recomputeHead2head recap.weekEnd winners recap.found
    | none => recap.found
  { recap with found, beltsMoved := buildRecapBelts found.titles recap.weekStart recap.weekEnd }

def generateWeeklyRecapAt (data : CrewData) (weekEnd : Int) (winners : Option (List (String × String))) :
    Option WeeklyRecapData :=
  let recap := countWeek data weekEnd
  if isEmptyRecap recap then none else some (attachRecapBelts winners recap)

def appendRecap (recap : WeeklyRecapData) (doc : CrewRecapsDoc) : CrewRecapsDoc where
  recaps := doc.recaps ++ [recap]
  lastRecapWeek := some (isoWeekKey recap.weekEnd)

def RecapDue (doc : CrewRecapsDoc) (now : Int) : Prop :=
  ¬(now < mondayStartUTC now ∨ recapLookback ≤ now - mondayStartUTC now) ∧
    doc.lastRecapWeek ≠ some (isoWeekKey now) ∧
    ∀ last ∈ doc.recaps.getLast?, isoWeekKey last.weekEnd ≠ isoWeekKey now

instance (doc : CrewRecapsDoc) (now : Int) : Decidable (RecapDue doc now) := inferInstanceAs (Decidable (_ ∧ _ ∧ _))

/-- A tick of the job within the lookback, and what it found. -/
structure Check where
  weekEnd : Int
  found : CrewData
  deriving DecidableEq, Repr

structure State where
  clock : Int
  data : CrewData := {}
  doc : CrewRecapsDoc := {}
  checks : List Check := []
  deriving DecidableEq, Repr

inductive Action where
  | tick (now : Int)
  | appendCrewEvent (event : CrewEvent)
  | appendClip (clip : StoredClip)
  | recomputeHead2head (nowMs : Int) (winners : List (String × String))
  | generateDueRecaps (winners : Option (List (String × String)))
  deriving DecidableEq, Repr

def generateDueRecaps (winners : Option (List (String × String))) (s : State) : State :=
  let weekEnd := mondayStartUTC s.clock
  if s.clock < weekEnd ∨ recapLookback ≤ s.clock - weekEnd then s
  else
    let checks := s.checks ++ [⟨weekEnd, s.data⟩]
    if RecapDue s.doc s.clock then
      match generateWeeklyRecapAt s.data weekEnd winners with
      | some recap => { s with data := recap.found, doc := appendRecap recap s.doc, checks }
      | none => { s with checks }
    else { s with checks }

def step (s : State) : Action → Option State
  | .tick now => if s.clock ≤ now then some { s with clock := now } else none
  | .appendCrewEvent event => some { s with data := appendCrewEvent s.clock event s.data }
  | .appendClip clip => some { s with data := { s.data with clips := s.data.clips ++ [clip] } }
  | .recomputeHead2head nowMs winners => some { s with data := recomputeHead2head nowMs winners s.data }
  | .generateDueRecaps winners => some (generateDueRecaps winners s)

/-! ## The law -/

def SessionData.isSession : SessionData → Bool
  | .other => false
  | _ => true

def SessionData.hangoutMin : SessionData → Int
  | .voiceSession durationMin | .streamSession durationMin => durationMin
  | _ => 0

def SessionData.gameMin : SessionData → Int
  | .gameSession durationMin activeMin => reportableMinutes durationMin activeMin
  | _ => 0

/-- A Monday 00:00, where one week ends and the next begins. -/
def Midnight (ms : Int) : Prop := mondayStartUTC ms = ms

instance (ms : Int) : Decidable (Midnight ms) := inferInstanceAs (Decidable (_ = _))

/-- Not trimmed. -/
def kept (trimmedTo : Option Int) (ms : Int) : Bool := trimmedTo.all fun cutoff => cutoff ≤ ms

/-- The time is in the week of the recap, and not where it meets the week before. -/
def InWeek (r : WeeklyRecapData) (ms : Int) : Prop := mondayStartUTC ms = r.weekStart ∧ ¬Midnight ms

instance (r : WeeklyRecapData) (ms : Int) : Decidable (InWeek r ms) := inferInstanceAs (Decidable (_ ∧ _))

/-- But for Monday 00:00, a recap counts what was stored from its week, once each: the
sessions that were not trimmed, the clips and the moves of titles. -/
structure Counted (r : WeeklyRecapData) : Prop where
  sessions : (r.tally.sessions.filter fun e => ¬Midnight e.timestamp) =
    r.found.appended.filter fun e => kept r.found.trimmedTo e.timestamp ∧ e.data.isSession ∧ InWeek r e.timestamp
  clips : (r.clips.filter fun c => ¬Midnight c.ts) = r.found.clips.filter fun c => InWeek r c.ts
  belts : (r.beltsMoved.filter fun m => ¬Midnight m.movedAtMs).Perm
    ((r.found.titles.filter fun t => t.holderUserID ≠ "" ∧ InWeek r t.movedAtMs).map beltMoved)
  sessionCount : r.tally.sessionCount = r.tally.sessions.length
  clipCount : r.clipCount = r.clips.length
  totalMin : r.totalMin = (r.tally.sessions.map fun e => e.data.hangoutMin + e.data.gameMin).sum

/-- A week has one recap at most, of a Monday-to-Monday week, and one once a tick in its
lookback has found a minute or a clip. -/
structure Weekly (s : State) : Prop where
  keys : (s.doc.recaps.map fun r => isoWeekKey r.weekEnd).Nodup
  one : ∀ r ∈ s.doc.recaps, ∀ other ∈ s.doc.recaps, r.weekStart = other.weekStart → r = other
  weeks : ∀ r ∈ s.doc.recaps, Midnight r.weekEnd ∧ r.weekStart = r.weekEnd - weekMs
  written : ∀ check ∈ s.checks, (∃ r ∈ s.doc.recaps, r.weekEnd = check.weekEnd) ∨
    isEmptyRecap (countWeek check.found check.weekEnd)
  counted : ∀ r ∈ s.doc.recaps, Counted r

/-! ## The counts -/

section Counts

variable {startMs endMs weekEnd : Int} {tally : Tally} {e : CrewEvent}

/-- The counts of a tally are those of its sessions. -/
structure Summed (tally : Tally) : Prop where
  sessionCount : tally.sessionCount = tally.sessions.length
  totalMin : tally.totalHangoutMin + tally.totalGameMin =
    (tally.sessions.map fun e => e.data.hangoutMin + e.data.gameMin).sum

theorem tallyEvent_sessions : (tallyEvent startMs endMs tally e).sessions = tally.sessions ++
    [e].filter fun e => e.data.isSession ∧ startMs ≤ e.timestamp ∧ e.timestamp ≤ endMs := by
  unfold tallyEvent
  split_ifs with outside
  · have none : ¬(startMs ≤ e.timestamp ∧ e.timestamp ≤ endMs) := by omega
    rw [List.filter_singleton, decide_eq_false fun both => none both.2]
    exact (List.append_nil _).symm
  · have inside : startMs ≤ e.timestamp ∧ e.timestamp ≤ endMs := by omega
    cases data : e.data with
    | voiceSession | streamSession | gameSession =>
      rw [List.filter_singleton, data, decide_eq_true ⟨rfl, inside⟩]
      rfl
    | other =>
      rw [List.filter_singleton, data, decide_eq_false fun both => nomatch both.1]
      exact (List.append_nil _).symm

theorem tallyEvent_summed (summed : Summed tally) : Summed (tallyEvent startMs endMs tally e) := by
  obtain ⟨count, minutes⟩ := summed
  unfold tallyEvent
  split_ifs with outside
  · exact ⟨count, minutes⟩
  · cases data : e.data with
    | voiceSession d | streamSession d =>
      refine ⟨?_, ?_⟩
      · dsimp only
        rw [List.length_append, count]
        rfl
      · dsimp only
        rw [List.map_append, List.sum_append, ← minutes, List.map_singleton, List.sum_singleton, data]
        unfold SessionData.hangoutMin SessionData.gameMin
        ring
    | gameSession d active =>
      refine ⟨?_, ?_⟩
      · dsimp only
        rw [List.length_append, count]
        rfl
      · dsimp only
        rw [List.map_append, List.sum_append, ← minutes, List.map_singleton, List.sum_singleton, data]
        unfold SessionData.hangoutMin SessionData.gameMin
        ring
    | other => exact ⟨count, minutes⟩

theorem tallyEvents_sessions (startMs endMs : Int) (events : List CrewEvent) : (tallyEvents startMs endMs events).sessions =
    events.filter fun e => e.data.isSession ∧ startMs ≤ e.timestamp ∧ e.timestamp ≤ endMs := by
  have folded : ∀ tally : Tally, (events.foldl (tallyEvent startMs endMs) tally).sessions =
      tally.sessions ++ events.filter fun e => e.data.isSession ∧ startMs ≤ e.timestamp ∧ e.timestamp ≤ endMs := by
    induction events with
    | nil => exact fun tally => (List.append_nil _).symm
    | cons e rest ih =>
      intro tally
      rw [List.foldl_cons, ih, tallyEvent_sessions, List.append_assoc, ← List.filter_append]
      rfl
  exact folded {}

theorem tallyEvents_summed (startMs endMs : Int) (events : List CrewEvent) : Summed (tallyEvents startMs endMs events) := by
  have folded : ∀ tally : Tally, Summed tally → Summed (events.foldl (tallyEvent startMs endMs) tally) := by
    induction events with
    | nil => exact fun tally summed => summed
    | cons e rest ih => exact fun tally summed => ih _ (tallyEvent_summed summed)
  exact folded {} ⟨rfl, rfl⟩

/-- Off Monday 00:00 the closed interval of a recap is its week. -/
theorem inWeek_iff {r : WeeklyRecapData} {ms : Int} (monday : Midnight weekEnd) (start : r.weekStart = weekEnd - weekMs) :
    InWeek r ms ↔ ¬Midnight ms ∧ weekEnd - weekMs ≤ ms ∧ ms ≤ weekEnd := by
  have first : mondayStart (weekEnd - weekMs) = weekEnd - weekMs := by
    unfold Midnight mondayStartUTC mondayStart sinceMonday dayOf at monday
    unfold mondayStart sinceMonday dayOf weekMs dayMs at *
    omega
  have week : mondayStartUTC ms = weekEnd - weekMs ↔ weekEnd - weekMs ≤ ms ∧ ms < weekEnd := by
    unfold mondayStartUTC
    rw [mondayStart_eq first, sub_add_cancel]
  unfold InWeek
  rw [start, week]
  constructor
  · rintro ⟨⟨after, before⟩, off⟩
    exact ⟨off, after, before.le⟩
  · rintro ⟨off, after, before⟩
    refine ⟨⟨after, lt_of_le_of_ne before ?_⟩, off⟩
    rintro rfl
    exact off monday

/-- The ledger is what was not trimmed. -/
def Trimmed (data : CrewData) : Prop := data.ledger = data.appended.filter fun e => kept data.trimmedTo e.timestamp

theorem buildRecapBelts_perm {titles : List Head2headTitle} {r : WeeklyRecapData} (monday : Midnight weekEnd)
    (start : r.weekStart = weekEnd - weekMs) :
    ((buildRecapBelts titles (weekEnd - weekMs) weekEnd).filter fun m => ¬Midnight m.movedAtMs).Perm
      ((titles.filter fun t => t.holderUserID ≠ "" ∧ InWeek r t.movedAtMs).map beltMoved) := by
  unfold buildRecapBelts
  refine ((List.perm_insertionSort _ _).filter _).trans (.of_eq ?_)
  rw [List.filter_map, List.filter_filter]
  congr 1
  apply List.filter_congr
  intro t _
  apply Bool.eq_iff_iff.mpr
  rw [Bool.and_eq_true, decide_eq_true_iff, decide_eq_true_iff, inWeek_iff monday start]
  constructor
  · rintro ⟨off, holder, inside⟩
    exact ⟨holder, of_decide_eq_true off, inside⟩
  · rintro ⟨holder, off, inside⟩
    exact ⟨decide_eq_true off, holder, inside⟩

/-- A recap counts its week. -/
theorem attachRecapBelts_counted {data : CrewData} (winners : Option (List (String × String))) (trimmed : Trimmed data)
    (monday : Midnight weekEnd) : Counted (attachRecapBelts winners (countWeek data weekEnd)) := by
  have same : (attachRecapBelts winners (countWeek data weekEnd)).found.appended = data.appended ∧
      (attachRecapBelts winners (countWeek data weekEnd)).found.trimmedTo = data.trimmedTo ∧
      (attachRecapBelts winners (countWeek data weekEnd)).found.clips = data.clips := by
    cases winners with
    | none | some => exact ⟨rfl, rfl, rfl⟩
  obtain ⟨appended, trimmedTo, clips⟩ := same
  have start : (attachRecapBelts winners (countWeek data weekEnd)).weekStart = weekEnd - weekMs := rfl
  have summed := tallyEvents_summed (weekEnd - weekMs) weekEnd data.ledger
  refine ⟨?_, ?_, buildRecapBelts_perm monday start, summed.sessionCount, rfl, summed.totalMin⟩
  · change ((tallyEvents (weekEnd - weekMs) weekEnd data.ledger).sessions.filter _) = _
    rw [tallyEvents_sessions, trimmed, appended, trimmedTo, List.filter_filter, List.filter_filter]
    apply List.filter_congr
    intro e _
    apply Bool.eq_iff_iff.mpr
    rw [Bool.and_eq_true, Bool.and_eq_true, decide_eq_true_iff, decide_eq_true_iff, decide_eq_true_iff, inWeek_iff monday start]
    constructor
    · rintro ⟨⟨off, session, inside⟩, stays⟩
      exact ⟨stays, session, off, inside⟩
    · rintro ⟨stays, session, off, inside⟩
      exact ⟨⟨off, session, inside⟩, stays⟩
  · change ((data.clips.filter _).filter _) = _
    rw [clips, List.filter_filter]
    apply List.filter_congr
    intro c _
    apply Bool.eq_iff_iff.mpr
    rw [Bool.and_eq_true, decide_eq_true_iff, decide_eq_true_iff, decide_eq_true_iff, inWeek_iff monday start]

end Counts

/-! ## One step -/

section Step

variable {s t : State} {action : Action}

structure Inv (s : State) : Prop where
  trimmed : Trimmed s.data
  cutoff : ∀ cutoff ∈ s.data.trimmedTo, cutoff ≤ s.clock - eventRollingWindow
  increasing : s.doc.recaps.Pairwise fun r other => r.weekEnd < other.weekEnd
  begun : ∀ r ∈ s.doc.recaps, r.weekEnd ≤ mondayStartUTC s.clock
  weeks : ∀ r ∈ s.doc.recaps, Midnight r.weekEnd ∧ r.weekStart = r.weekEnd - weekMs
  last : s.doc.lastRecapWeek = s.doc.recaps.getLast?.map fun r => isoWeekKey r.weekEnd
  written : ∀ check ∈ s.checks, (∃ r ∈ s.doc.recaps, r.weekEnd = check.weekEnd) ∨
    isEmptyRecap (countWeek check.found check.weekEnd)
  counted : ∀ r ∈ s.doc.recaps, Counted r

/-- A recap of the week of a Monday has that Monday's key only. -/
theorem weekEnd_eq_of_key {r : WeeklyRecapData} {now : Int} (monday : Midnight r.weekEnd)
    (same : isoWeekKey r.weekEnd = isoWeekKey now) : r.weekEnd = mondayStartUTC now :=
  monday.symm.trans (mondayStart_of_isoWeek same)

theorem weekly_of_inv (inv : Inv s) : Weekly s := by
  refine ⟨?_, ?_, inv.weeks, inv.written, inv.counted⟩
  · apply List.pairwise_map.mpr
    refine inv.increasing.imp_of_mem fun {r other} member there before same => ?_
    have equal := weekEnd_eq_of_key (inv.weeks r member).1 same
    exact before.ne (equal.trans (inv.weeks other there).1)
  · intro r member other there same
    have equal : r.weekEnd = other.weekEnd := by
      have first := (inv.weeks r member).2
      have second := (inv.weeks other there).2
      omega
    have ends : (s.doc.recaps.map WeeklyRecapData.weekEnd).Nodup :=
      List.pairwise_map.mpr (inv.increasing.imp fun before => before.ne)
    exact List.inj_on_of_nodup_map ends member there equal

/-- An append trims what is older than the window. -/
theorem appendCrewEvent_trimmed {data : CrewData} {now : Int} {event : CrewEvent} (trimmed : Trimmed data)
    (cutoff : ∀ cutoff ∈ data.trimmedTo, cutoff ≤ now - eventRollingWindow) :
    Trimmed (appendCrewEvent now event data) := by
  unfold Trimmed appendCrewEvent at *
  dsimp only
  rw [trimmed, List.filter_append, List.filter_append, List.filter_filter]
  congr 1
  apply List.filter_congr
  intro e _
  apply Bool.eq_iff_iff.mpr
  rw [Bool.and_eq_true, decide_eq_true_iff]
  unfold kept
  rw [Option.all_some, decide_eq_true_iff]
  refine and_iff_left_of_imp fun after => ?_
  cases held : data.trimmedTo with
  | none => rfl
  | some before => exact decide_eq_true ((cutoff before held).trans after)

/-- A crew is due only while the weeks of its recaps have ended before this Monday. -/
theorem lt_of_due (inv : Inv s) (due : RecapDue s.doc s.clock) :
    ∀ r ∈ s.doc.recaps, r.weekEnd < mondayStartUTC s.clock := by
  intro r member
  obtain ⟨front, last, split⟩ : ∃ front last, s.doc.recaps = front ++ [last] := by
    rcases List.eq_nil_or_concat s.doc.recaps with none | ⟨front, last, split⟩
    · rw [none] at member
      cases member
    · exact ⟨front, last, split.trans List.concat_eq_append⟩
  have there : last ∈ s.doc.recaps := split ▸ List.mem_append_right _ (List.mem_singleton_self last)
  have other : isoWeekKey last.weekEnd ≠ isoWeekKey s.clock := due.2.2 last (by rw [split]; exact List.getLast?_concat)
  have before : last.weekEnd < mondayStartUTC s.clock := by
    refine lt_of_le_of_ne (inv.begun last there) fun same => other ?_
    rw [same]
    exact isoWeek_mondayStart s.clock
  have increasing := inv.increasing
  rw [split] at member increasing
  rcases List.mem_append.mp member with earlier | now
  · exact ((List.pairwise_append.mp increasing).2.2 r earlier last (List.mem_singleton_self last)).trans before
  · rw [List.mem_singleton.mp now]
    exact before

/-- A crew is not due in the lookback because it has the recap. -/
theorem written_of_not_due (inv : Inv s)
    (inside : ¬(s.clock < mondayStartUTC s.clock ∨ recapLookback ≤ s.clock - mondayStartUTC s.clock))
    (settled : ¬RecapDue s.doc s.clock) : ∃ r ∈ s.doc.recaps, r.weekEnd = mondayStartUTC s.clock := by
  have key : ∃ last ∈ s.doc.recaps.getLast?, isoWeekKey last.weekEnd = isoWeekKey s.clock := by
    by_contra none
    refine settled ⟨inside, fun stored => ?_, fun last member same => none ⟨last, member, same⟩⟩
    rw [inv.last] at stored
    obtain ⟨last, member, same⟩ := Option.map_eq_some_iff.mp stored
    exact none ⟨last, member, same⟩
  obtain ⟨last, member, same⟩ := key
  have there := List.mem_of_getLast? member
  exact ⟨last, there, weekEnd_eq_of_key (inv.weeks last there).1 same⟩

/-- A recap joins the recaps of the weeks before. -/
theorem written_inv (inv : Inv s) {recap : WeeklyRecapData} {checks : List Check} (trimmed : Trimmed recap.found)
    (cutoff : recap.found.trimmedTo = s.data.trimmedTo) (now : recap.weekEnd = mondayStartUTC s.clock)
    (start : recap.weekStart = recap.weekEnd - weekMs) (before : ∀ r ∈ s.doc.recaps, r.weekEnd < recap.weekEnd)
    (checked : ∀ check ∈ checks, check ∈ s.checks ∨ check.weekEnd = recap.weekEnd) (counted : Counted recap) :
    Inv { s with data := recap.found, doc := appendRecap recap s.doc, checks } := by
  have recaps : ∀ r ∈ (appendRecap recap s.doc).recaps, r ∈ s.doc.recaps ∨ r = recap := by
    intro r member
    exact (List.mem_append.mp member).imp_right List.mem_singleton.mp
  refine ⟨trimmed, ?_, ?_, ?_, ?_, ?_, ?_, ?_⟩
  · rw [cutoff]
    exact inv.cutoff
  · refine List.pairwise_append.mpr ⟨inv.increasing, List.pairwise_singleton _ _, fun r member other last => ?_⟩
    rw [List.mem_singleton.mp last]
    exact before r member
  · intro r member
    rcases recaps r member with old | rfl
    · exact inv.begun r old
    · exact now.le
  · intro r member
    rcases recaps r member with old | rfl
    · exact inv.weeks r old
    · refine ⟨?_, start⟩
      rw [now]
      exact mondayStart_mondayStart s.clock
  · change _ = Option.map _ (s.doc.recaps ++ [recap]).getLast?
    rw [List.getLast?_concat]
    rfl
  · intro check member
    rcases checked check member with old | same
    · refine (inv.written check old).imp_left ?_
      rintro ⟨r, there, same⟩
      exact ⟨r, List.mem_append_left _ there, same⟩
    · exact .inl ⟨recap, List.mem_append_right _ (List.mem_singleton_self recap), same.symm⟩
  · intro r member
    rcases recaps r member with old | rfl
    · exact inv.counted r old
    · exact counted

/-- A tick that writes nothing. -/
theorem checked_inv (inv : Inv s) {check : Check} (written : (∃ r ∈ s.doc.recaps, r.weekEnd = check.weekEnd) ∨
    isEmptyRecap (countWeek check.found check.weekEnd)) : Inv { s with checks := s.checks ++ [check] } := by
  refine ⟨inv.trimmed, inv.cutoff, inv.increasing, inv.begun, inv.weeks, inv.last, ?_, inv.counted⟩
  intro other member
  rcases List.mem_append.mp member with old | new
  · exact inv.written other old
  · rw [List.mem_singleton.mp new]
    exact written

theorem generateDueRecaps_inv (inv : Inv s) (winners : Option (List (String × String))) :
    Inv (generateDueRecaps winners s) := by
  unfold generateDueRecaps
  dsimp only
  split_ifs with outside due
  · exact inv
  · unfold generateWeeklyRecapAt
    dsimp only
    split_ifs with empty
    · exact checked_inv inv (.inr empty)
    · have monday : Midnight (mondayStartUTC s.clock) := mondayStart_mondayStart s.clock
      have counted := attachRecapBelts_counted winners inv.trimmed monday
      have same : (attachRecapBelts winners (countWeek s.data (mondayStartUTC s.clock))).found.trimmedTo = s.data.trimmedTo ∧
          Trimmed (attachRecapBelts winners (countWeek s.data (mondayStartUTC s.clock))).found := by
        cases winners with
        | none | some => exact ⟨rfl, inv.trimmed⟩
      refine written_inv inv same.2 same.1 rfl rfl (lt_of_due inv due) (fun check member => ?_) counted
      refine (List.mem_append.mp member).imp_right fun last => ?_
      rw [List.mem_singleton.mp last]
      rfl
  · exact checked_inv inv (.inl (written_of_not_due inv outside due))

theorem inv_step (inv : Inv s) (stepped : step s action = some t) : Inv t := by
  cases action with
  | tick now =>
    rw [step] at stepped
    split_ifs at stepped with later
    cases stepped
    refine ⟨inv.trimmed, fun cutoff member => (inv.cutoff cutoff member).trans ?_, inv.increasing, fun r member => ?_,
      inv.weeks, inv.last, inv.written, inv.counted⟩
    · exact Int.sub_le_sub_right later _
    · exact (inv.begun r member).trans (mondayStart_mono later)
  | appendCrewEvent event =>
    cases stepped
    refine ⟨appendCrewEvent_trimmed inv.trimmed inv.cutoff, ?_, inv.increasing, inv.begun, inv.weeks, inv.last, inv.written,
      inv.counted⟩
    intro cutoff member
    cases member
    exact le_rfl
  | appendClip clip =>
    cases stepped
    exact ⟨inv.trimmed, inv.cutoff, inv.increasing, inv.begun, inv.weeks, inv.last, inv.written, inv.counted⟩
  | recomputeHead2head nowMs winners =>
    cases stepped
    exact ⟨inv.trimmed, inv.cutoff, inv.increasing, inv.begun, inv.weeks, inv.last, inv.written, inv.counted⟩
  | generateDueRecaps winners =>
    cases stepped
    exact generateDueRecaps_inv inv winners

end Step

/-! ## Every run -/

/-- Each week has one recap at most, and one once a tick in its lookback has found a
minute or a clip; off Monday 00:00 each stored session, clip and move of a title is
counted in the recap of its week and in no other. -/
theorem weekly_always (clock : Int) (actions : List Action) : Always step Weekly { clock } actions := by
  have start : Inv { clock } := ⟨rfl, nofun, .nil, nofun, nofun, rfl, nofun, nofun⟩
  have all : Always step Inv { clock } actions :=
    always_of_eachStep (fun _ _ _ inv _ stepped => inv_step inv stepped) start actions (eachStep_true actions)
  exact all.imp fun _ inv => weekly_of_inv inv

/-- 5 January 2026, 00:00. -/
def monday : Int := 20458 * dayMs

/-- A session ends at Monday 00:00, and the job runs in the first hour of that week and of
the next two. -/
def endsAtMidnight : List Action :=
  [.appendCrewEvent ⟨"session", monday, .voiceSession 10⟩, .tick (monday + 1), .generateDueRecaps (some []),
    .tick (monday + weekMs + 1), .generateDueRecaps (some []), .tick (monday + 2 * weekMs + 1), .generateDueRecaps (some [])]

/-- The session is in two recaps, and the third week has none. -/
theorem endsAtMidnight_twice :
    (run step { clock := monday } endsAtMidnight).map (fun s => s.doc.recaps.map fun r =>
        (r.weekEnd, r.tally.sessions.map CrewEvent.id)) =
      some [(monday, ["session"]), (monday + weekMs, ["session"])] ∧
    ¬Always step (fun s => ∀ r ∈ s.doc.recaps, ∀ e ∈ r.tally.sessions, mondayStartUTC e.timestamp = r.weekStart)
      { clock := monday } endsAtMidnight := by
  refine ⟨by decide, fun all => ?_⟩
  have weeks := all.last rfl
  revert weeks
  decide

end Mello.Backend.WeeklyRecaps
