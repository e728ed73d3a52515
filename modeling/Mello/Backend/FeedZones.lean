import Mello.Library.Calendar
import Mello.Library.Latest

/-!
The zones of the crew feed that hold clips, streams and recaps: the Stage, the clips of the free window
and Crew history by week. The sessions, people, quest card and head to head of the feed are left out,
and so is all of the board but its recap. Times do not overflow, and a duration is only copied.
-/

namespace Mello.Backend.FeedZones
open Mello.Library Calendar Latest

def zonesHistoryPageWeeks : Nat := 4
def zonesTeasersMax : Nat := 6
def zonesBeltHeroDays : Int := 14
def feedFreeDaysDefault : Int := 7
def feedFreeDaysMin : Int := 1
def feedFreeDaysMax : Int := 90
def clipTypeGame : String := "game"

structure StoredClip where
  eventID : String
  actorID : String := ""
  ts : Int
  clipType : String
  clipperName : String := ""
  durationSeconds : Rat := 0
  mediaURL : String := ""
  posterURL : String := ""
  deriving DecidableEq, Repr

structure StoredStreamSession where
  eventID : String
  streamerID : String := ""
  streamerName : String := ""
  durationMin : Int := 0
  snapshotURLs : List String := []
  ts : Int
  deriving DecidableEq, Repr

structure WeeklyRecapData where
  weekStart : Int
  weekNumber : Int := 0
  totalHangoutMin : Int := 0
  totalGameMin : Int := 0
  totalMin : Int := 0
  clipCount : Int := 0
  generatedAt : Int := 0
  deriving DecidableEq, Repr

structure Head2headTitle where
  holderUserID : String
  previousHolderUserID : String
  movedAtMs : Int

structure Head2headFeedData where
  memberCount : Int
  titles : List Head2headTitle
  ownValues : Nat

/-- The quest record of a crew; its window runs to `endsMs`. -/
structure CrewQuests where
  madeMs : Int
  endsMs : Int
  clipDone : Bool

structure ZonesInput where
  viewerID : String := ""
  nowMs : Int
  freeDays : Int := feedFreeDaysDefault
  plus : Bool := false
  clips : List StoredClip := []
  streams : List StoredStreamSession := []
  recaps : List WeeklyRecapData := []
  h2h : Option Head2headFeedData := none
  quests : Option CrewQuests := none

inductive EntryData where
  | clip (c : StoredClip)
  | stream (s : StoredStreamSession)
  | recap (r : WeeklyRecapData)
  deriving DecidableEq, Repr

structure FeedEntry where
  id : String
  type : String
  ts : Int
  data : EntryData
  deriving DecidableEq, Repr

inductive StageKind where
  | empty
  | gameClip
  | streamReplay
  | belt
  | ownBelts
  deriving DecidableEq, Repr

structure ZoneStage where
  kind : StageKind := .empty
  entry : Option FeedEntry := none
  deriving DecidableEq, Repr

/-! ## Times -/

def windowStart (z : ZonesInput) : Int :=
  let days := if z.freeDays < feedFreeDaysMin ∨ z.freeDays > feedFreeDaysMax then feedFreeDaysDefault else z.freeDays
  z.nowMs - days * dayMs

/-- Division that rounds down, from the one that rounds to zero. -/
def floorDiv (a b : Int) : Int :=
  let q := a.tdiv b
  if a.tmod b ≠ 0 ∧ (decide (a < 0) ≠ decide (b < 0)) then q - 1 else q

def weekStartOf (ms : Int) : Int :=
  let day := floorDiv ms dayMs
  let weekday := ((day + 3).tmod 7 + 7).tmod 7
  (day - weekday) * dayMs

/-- The day of the week of a date, from Sunday. -/
def timeWeekday (day : Int) : Int := (day + 4) % 7

def mondayStartMs (ms : Int) : Int :=
  let day := dayOf ms
  let back := (timeWeekday day + 6).tmod 7
  (day - back) * dayMs

/-! ## The Stage and the clips -/

def clipEntry (c : StoredClip) : FeedEntry := { id := c.eventID, type := "clip", ts := c.ts, data := .clip c }

def streamEntry (s : StoredStreamSession) : FeedEntry where
  id := s.eventID
  type := if s.snapshotURLs.length > 0 then "session-preview" else "session"
  ts := s.ts
  data := .stream s

def streamQuality (s : StoredStreamSession) : Int :=
  let snapshotN : Int := s.snapshotURLs.length
  if s.durationMin ≤ 2 ∧ snapshotN ≤ 4 then -10000 + snapshotN
  else s.durationMin * 10 + snapshotN * 3 + (if s.durationMin ≥ 15 then 40 else 0) + (if snapshotN ≥ 8 then 30 else 0)

def isGame (c : StoredClip) : Bool := c.clipType = clipTypeGame

/-- Game clips first, then the newest first. -/
def rankClips (clips : List StoredClip) : List StoredClip :=
  clips.insertionSort fun a b => if isGame a ≠ isGame b then isGame a else a.ts ≥ b.ts

def newerClip (start : Int) (clip : Option StoredClip) (c : StoredClip) : Option StoredClip :=
  if c.clipType ≠ clipTypeGame ∨ c.posterURL = "" ∨ c.ts < start then clip
  else match clip with
    | none => some c
    | some best => if c.ts > best.ts then some c else clip

def betterStream (start : Int) (stream : Option StoredStreamSession) (s : StoredStreamSession) : Option StoredStreamSession :=
  if s.snapshotURLs.length = 0 ∨ s.ts < start then stream
  else match stream with
    | none => some s
    | some best =>
      if streamQuality s > streamQuality best ∨ (streamQuality s = streamQuality best ∧ s.ts > best.ts) then some s
      else stream

def involves (z : ZonesInput) (t : Head2headTitle) : Bool :=
  t.movedAtMs > 0 ∧ (t.holderUserID = z.viewerID ∨ t.previousHolderUserID = z.viewerID) ∧
    z.nowMs - t.movedAtMs ≤ zonesBeltHeroDays * dayMs

/-- With nothing to watch: the belt hero of a crew, or a crew of one's own belts. -/
def beltKind (z : ZonesInput) : StageKind :=
  match z.h2h with
  | none => .empty
  | some h2h =>
    if h2h.memberCount ≥ 2 then if h2h.titles.any (involves z) then .belt else .empty
    else if h2h.ownValues > 0 then .ownBelts else .empty

def zoneStage (z : ZonesInput) (start : Int) : ZoneStage :=
  match z.clips.foldl (newerClip start) none with
  | some clip => { kind := .gameClip, entry := some (clipEntry clip) }
  | none =>
    match z.streams.foldl (betterStream start) none with
    | some stream => { kind := .streamReplay, entry := some (streamEntry stream) }
    | none => { kind := beltKind z }

/-- The quest card, while its window runs. -/
def zoneQuests (q : Option CrewQuests) (nowMs : Int) : Option CrewQuests := q.filter fun q => nowMs < q.endsMs

/-- The entry that is not repeated below the Stage. Under a quest card none is. -/
def stageID (z : ZonesInput) : String :=
  match (zoneStage z (windowStart z)).entry, zoneQuests z.quests z.nowMs with
  | some entry, none => entry.id
  | _, _ => ""

def zoneClips (z : ZonesInput) (start : Int) (stageID : String) : List FeedEntry :=
  (rankClips (z.clips.filter fun c => c.ts ≥ start ∧ c.eventID ≠ stageID)).map clipEntry

/-! ## Weeks -/

theorem floorDiv_eq (a : Int) {b : Int} (positive : 0 < b) : floorDiv a b = a / b := by
  unfold floorDiv
  dsimp only
  have exact' : a.tmod b = 0 ↔ b ∣ a := Int.dvd_iff_tmod_eq_zero.symm
  have sign : ¬ b < 0 := positive.le.not_gt
  by_cases low : a < 0
  · by_cases even : b ∣ a
    · rw [if_neg (fun both => both.1 (exact'.mpr even)), Int.tdiv_eq_ediv_of_dvd even]
    · rw [if_pos ⟨fun zero => even (exact'.mp zero), by simp [low, sign]⟩, Int.tdiv_eq_ediv, if_neg (by simp [low, even]),
        Int.sign_eq_one_of_pos positive, add_sub_cancel_right]
  · rw [if_neg (by simp [low, sign]), Int.tdiv_eq_ediv_of_nonneg (not_lt.mp low)]

/-- The days since Monday, from remainders that keep the sign. -/
theorem weekStartOf_eq (ms : Int) : weekStartOf ms = mondayStart ms := by
  have weekday : ∀ day : Int, ((day + 3).tmod 7 + 7).tmod 7 = (day + 3) % 7 := by
    intro day
    have low := Int.lt_tmod_of_pos (day + 3) (show (0 : Int) < 7 by decide)
    have mod := Int.tmod_add_mul_tdiv (day + 3) 7
    rw [Int.tmod_eq_emod_of_nonneg (show 0 ≤ (day + 3).tmod 7 + 7 by omega)]
    omega
  unfold weekStartOf mondayStart sinceMonday dayOf
  dsimp only
  rw [floorDiv_eq ms (by decide), weekday]

theorem weekStartOf_eq_mondayStartMs (ms : Int) : weekStartOf ms = mondayStartMs ms := by
  have back : ∀ day : Int, (timeWeekday day + 6).tmod 7 = sinceMonday day := by
    intro day
    unfold timeWeekday sinceMonday
    rw [Int.tmod_eq_emod_of_nonneg (by omega)]
    omega
  rw [weekStartOf_eq, mondayStartMs, mondayStart, back]

/-! ## The free window -/

/-- Clips and streams have ids of their own. -/
def DistinctIds (z : ZonesInput) : Prop := (z.clips.map StoredClip.eventID ++ z.streams.map StoredStreamSession.eventID).Nodup

theorem rankClips_perm (clips : List StoredClip) : (rankClips clips).Perm clips := List.perm_insertionSort _ _

theorem newerClip_choice (start : Int) (clip : Option StoredClip) (c : StoredClip) :
    newerClip start clip c = clip ∨ newerClip start clip c = some c := by
  unfold newerClip
  cases clip <;> dsimp only <;> split_ifs <;> simp

theorem betterStream_choice (start : Int) (stream : Option StoredStreamSession) (s : StoredStreamSession) :
    betterStream start stream s = stream ∨ betterStream start stream s = some s := by
  unfold betterStream
  cases stream <;> dsimp only <;> split_ifs <;> simp

/-- What is on the Stage is a clip or a stream of the crew. -/
theorem zoneStage_entry {z : ZonesInput} {start : Int} {e : FeedEntry} (entry : (zoneStage z start).entry = some e) :
    (∃ c ∈ z.clips, clipEntry c = e) ∨ ∃ s ∈ z.streams, streamEntry s = e := by
  unfold zoneStage at entry
  rcases clip : z.clips.foldl (newerClip start) none with _ | c
  · rw [clip] at entry
    rcases stream : z.streams.foldl (betterStream start) none with _ | s
    · rw [stream] at entry
      cases entry
    · rw [stream] at entry
      exact .inr ⟨s, mem_of_choice (betterStream_choice start) stream, Option.some.inj entry⟩
  · rw [clip] at entry
    exact .inl ⟨c, mem_of_choice (newerClip_choice start) clip, Option.some.inj entry⟩

/-- A clip of the free window is among the clips, unless it is the one on the Stage. -/
theorem clip_shown {z : ZonesInput} (ids : DistinctIds z) {c : StoredClip} (member : c ∈ z.clips) (named : c.eventID ≠ "")
    (free : windowStart z ≤ c.ts) :
    clipEntry c ∈ zoneClips z (windowStart z) (stageID z) ∨ (zoneStage z (windowStart z)).entry = some (clipEntry c) := by
  by_cases staged : c.eventID = stageID z
  · refine .inr ?_
    rcases entry : (zoneStage z (windowStart z)).entry with _ | e
    · rw [stageID, entry] at staged
      exact absurd staged named
    · have own : c.eventID = e.id := by
        rw [stageID, entry] at staged
        rcases quests : zoneQuests z.quests z.nowMs with _ | q
        · rw [quests] at staged
          exact staged
        · rw [quests] at staged
          exact absurd staged named
      obtain ⟨clips, -, apart⟩ := List.nodup_append.mp ids
      rcases zoneStage_entry entry with ⟨other, listed, rfl⟩ | ⟨s, listed, rfl⟩
      · rw [List.inj_on_of_nodup_map clips member listed own]
      · exact absurd own (apart _ (List.mem_map_of_mem member) _ (List.mem_map_of_mem listed))
  · refine .inl (List.mem_map_of_mem ((rankClips_perm _).mem_iff.mpr (List.mem_filter.mpr ⟨member, ?_⟩)))
    exact decide_eq_true ⟨free, staged⟩

end Mello.Backend.FeedZones
