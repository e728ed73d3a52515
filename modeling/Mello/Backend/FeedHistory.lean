import Mello.Library.Keyed
import Mello.Library.Pages
import Mello.Backend.FeedZones

/-!
Crew history: what is older than the free window by week, newest first, in pages. A member without
m3llo+ gets a week with counts and teasers only, unless it is one of the crew's first. The start of the
page is an argument of its own, as it alone changes from page to page.
-/

namespace Mello.Backend.FeedHistory
open Mello.Library Calendar Keyed Pages Latest FeedZones

/-- One locked clip or stream: who, what kind, how long. -/
structure ZoneTeaser where
  kind : String
  actorID : String
  actorName : String
  durationSeconds : Rat
  ts : Int
  deriving DecidableEq, Repr

structure ZoneHistoryWeek where
  weekStart : Int
  weekNumber : Int
  locked : Bool
  founding : Bool
  clipCount : Nat
  streamCount : Nat
  recap : Option FeedEntry
  items : List FeedEntry
  teasers : List ZoneTeaser
  deriving DecidableEq, Repr

structure Week where
  recap : Option WeeklyRecapData := none
  clips : List StoredClip := []
  streams : List StoredStreamSession := []

structure Zones where
  freeDays : Int
  plus : Bool
  stage : ZoneStage
  clips : List FeedEntry
  recap : Option FeedEntry
  history : List ZoneHistoryWeek
  historyNext : Int

def isEmptyRecap (r : WeeklyRecapData) : Bool :=
  r.totalHangoutMin = 0 ∧ r.totalGameMin = 0 ∧ r.totalMin = 0 ∧ r.clipCount = 0

def recapEntry (r : WeeklyRecapData) : FeedEntry where
  id := "recap_" ++ toString r.weekStart
  type := "recap"
  ts := r.generatedAt
  data := .recap r

def laterRecap (recap : Option WeeklyRecapData) (r : WeeklyRecapData) : Option WeeklyRecapData :=
  if isEmptyRecap r then recap
  else match recap with
    | none => some r
    | some best => if r.weekStart > best.weekStart then some r else recap

/-- The recap on the board: that of the newest week that has one. -/
def boardRecap (z : ZonesInput) : Option WeeklyRecapData := z.recaps.foldl laterRecap none

def boardWeek (z : ZonesInput) : Int := (boardRecap z).elim (-1) WeeklyRecapData.weekStart

/-- The weeks of the crew's first seven days, once a clip was made. -/
def foundingWeeks (q : Option CrewQuests) : List Int :=
  match q with
  | none => []
  | some q =>
    if q.clipDone then
      let first := weekStartOf q.madeMs
      let last := weekStartOf (q.madeMs + 7 * dayMs - 1)
      if last = first then [first] else [first, last]
    else []

def oldClips (z : ZonesInput) : List StoredClip := z.clips.filter (·.ts < windowStart z)

def oldStreams (z : ZonesInput) : List StoredStreamSession := z.streams.filter (·.ts < windowStart z)

def oldRecaps (z : ZonesInput) : List WeeklyRecapData :=
  z.recaps.filter fun r => ¬(r.weekStart ≤ 0 ∨ r.weekStart = boardWeek z ∨ isEmptyRecap r)

def weeksOf (z : ZonesInput) : Table Int Week :=
  let weeks := group {} (fun c : StoredClip => weekStartOf c.ts) (fun w c => { w with clips := w.clips ++ [c] }) ∅ (oldClips z)
  let weeks := group {} (fun s : StoredStreamSession => weekStartOf s.ts) (fun w s => { w with streams := w.streams ++ [s] })
    weeks (oldStreams z)
  group {} (fun r : WeeklyRecapData => weekStartOf r.weekStart) (fun w r => { w with recap := some r }) weeks (oldRecaps z)

def byNewest (starts : List Int) : List Int := starts.insertionSort (· ≥ ·)

def clipTeaser (c : StoredClip) : ZoneTeaser where
  kind := if isGame c then "clip" else "voice"
  actorID := c.actorID
  actorName := c.clipperName
  durationSeconds := c.durationSeconds
  ts := c.ts

def streamTeaser (s : StoredStreamSession) : ZoneTeaser where
  kind := "stream"
  actorID := s.streamerID
  actorName := s.streamerName
  durationSeconds := s.durationMin * 60
  ts := s.ts

def weekTeasers (clips : List StoredClip) (streams : List StoredStreamSession) : List ZoneTeaser :=
  (clips.map clipTeaser ++ streams.map streamTeaser).take zonesTeasersMax

def zoneWeek (z : ZonesInput) (weeks : Table Int Week) (ws : Int) : ZoneHistoryWeek :=
  let founding := decide (ws ∈ foundingWeeks z.quests)
  let unlocked := z.plus || founding
  let w := (weeks.lookup ws).getD {}
  let clips := rankClips w.clips
  let streams := w.streams.insertionSort fun a b => a.ts ≥ b.ts
  { weekStart := ws
    weekNumber := w.recap.elim 0 WeeklyRecapData.weekNumber
    locked := !unlocked
    founding
    clipCount := clips.length
    streamCount := streams.length
    recap := if unlocked then w.recap.map recapEntry else none
    items := if unlocked then clips.map clipEntry ++ streams.map streamEntry else []
    teasers := if unlocked then [] else weekTeasers clips streams }

def zoneHistory (z : ZonesInput) (historyBefore : Int) : List ZoneHistoryWeek × Int :=
  let weeks := weeksOf z
  let starts := byNewest (weeks.keys.filter fun ws => historyBefore ≤ 0 ∨ ws < historyBefore)
  if starts.length > zonesHistoryPageWeeks then
    let starts := starts.take zonesHistoryPageWeeks
    (starts.map (zoneWeek z weeks), starts.getLastD 0)
  else (starts.map (zoneWeek z weeks), 0)

def buildFeedZones (z : ZonesInput) (historyBefore : Int) : Zones :=
  let start := windowStart z
  let (history, historyNext) := zoneHistory z historyBefore
  { freeDays := (z.nowMs - start).tdiv dayMs
    plus := z.plus
    stage := zoneStage z start
    clips := zoneClips z start (stageID z)
    recap := (boardRecap z).map recapEntry
    history, historyNext }

/-- All pages from one on, each asked for with the end of the one before. -/
def followHistory (z : ZonesInput) : Nat → Int → Option (List ZoneHistoryWeek)
  | 0, _ => none
  | fuel + 1, before =>
    let page := buildFeedZones z before
    if page.historyNext = 0 then some page.history
    else (followHistory z fuel page.historyNext).map (page.history ++ ·)

/-! ## What is claimed -/

def hideClip (c : StoredClip) : StoredClip := { c with mediaURL := "", posterURL := "" }

def hideStream (s : StoredStreamSession) : StoredStreamSession := { s with snapshotURLs := [] }

/-- The week has an old clip or stream, or a recap that is not empty and older than the board's. -/
def HasHistory (z : ZonesInput) (ws : Int) : Prop :=
  (∃ c ∈ z.clips, c.ts < windowStart z ∧ weekStartOf c.ts = ws) ∨
    (∃ s ∈ z.streams, s.ts < windowStart z ∧ weekStartOf s.ts = ws) ∨
    ∃ r ∈ z.recaps, 0 < r.weekStart ∧ isEmptyRecap r = false ∧
      (∃ later ∈ z.recaps, isEmptyRecap later = false ∧ r.weekStart < later.weekStart) ∧ weekStartOf r.weekStart = ws

/-- No recap and no items, and teasers that can be told without the media of what they tease. -/
def Closed (z : ZonesInput) (w : ZoneHistoryWeek) : Prop :=
  w.recap = none ∧ w.items = [] ∧ ∀ teaser ∈ w.teasers,
    (∃ c ∈ z.clips, teaser = clipTeaser (hideClip c)) ∨ ∃ s ∈ z.streams, teaser = streamTeaser (hideStream s)

structure Complete (z : ZonesInput) (weeks : List ZoneHistoryWeek) : Prop where
  descending : (weeks.map ZoneHistoryWeek.weekStart).Pairwise (· > ·)
  visited : ∀ ws, ws ∈ weeks.map ZoneHistoryWeek.weekStart ↔ HasHistory z ws
  clips : ∀ w ∈ weeks, w.clipCount = z.clips.countP fun c => c.ts < windowStart z ∧ weekStartOf c.ts = w.weekStart
  streams : ∀ w ∈ weeks, w.streamCount = z.streams.countP fun s => s.ts < windowStart z ∧ weekStartOf s.ts = w.weekStart
  clipOnce : ∀ c ∈ z.clips, c.ts < windowStart z → ∃! w, w ∈ weeks ∧ w.weekStart = weekStartOf c.ts
  streamOnce : ∀ s ∈ z.streams, s.ts < windowStart z → ∃! w, w ∈ weeks ∧ w.weekStart = weekStartOf s.ts
  locked : ∀ w ∈ weeks, w.locked = true → Closed z w

/-- No week of history starts before 1970. -/
def Dated (z : ZonesInput) : Prop := ∀ ws, HasHistory z ws → 0 < ws

/-! ## The weeks -/

section Weeks

variable {z : ZonesInput}

theorem boardRecap_spec (recaps : List WeeklyRecapData) :
    (recaps.foldl laterRecap none = none ∧ ∀ r ∈ recaps, isEmptyRecap r = true) ∨
      ∃ best ∈ recaps, recaps.foldl laterRecap none = some best ∧ isEmptyRecap best = false ∧
        ∀ r ∈ recaps, isEmptyRecap r = false → r.weekStart ≤ best.weekStart := by
  induction recaps using List.reverseRecOn with
  | nil => exact .inl ⟨rfl, fun _ member => (List.not_mem_nil member).elim⟩
  | append_singleton recaps r ih =>
    rw [List.foldl_append, List.foldl_cons, List.foldl_nil]
    generalize recaps.foldl laterRecap none = held at ih ⊢
    unfold laterRecap
    have own : r ∈ recaps ++ [r] := List.mem_append_right _ (List.mem_singleton_self _)
    have known : ∀ {other}, other ∈ recaps ++ [r] → other ∈ recaps ∨ other = r := fun listed =>
      (List.mem_append.mp listed).imp_right List.mem_singleton.mp
    by_cases empty : isEmptyRecap r = true
    · rw [if_pos empty]
      rcases ih with ⟨none, all⟩ | ⟨best, listed, found, full, greatest⟩
      · refine .inl ⟨none, fun other member => ?_⟩
        rcases known member with member | rfl
        · exact all other member
        · exact empty
      · refine .inr ⟨best, List.mem_append_left _ listed, found, full, fun other member filled => ?_⟩
        rcases known member with member | rfl
        · exact greatest other member filled
        · rw [empty] at filled
          cases filled
    · have full : isEmptyRecap r = false := Bool.not_eq_true _ ▸ empty
      rw [if_neg empty]
      rcases ih with ⟨none, all⟩ | ⟨best, listed, found, filled, greatest⟩
      · rw [none]
        refine .inr ⟨r, own, rfl, full, fun other member filled => ?_⟩
        rcases known member with member | rfl
        · rw [all other member] at filled
          cases filled
        · exact le_rfl
      · rw [found]
        dsimp only
        split_ifs with later
        · refine .inr ⟨r, own, rfl, full, fun other member also => ?_⟩
          rcases known member with member | rfl
          · exact (greatest other member also).trans later.le
          · exact le_rfl
        · refine .inr ⟨best, List.mem_append_left _ listed, rfl, filled, fun other member also => ?_⟩
          rcases known member with member | rfl
          · exact greatest other member also
          · exact not_lt.mp later

/-- A recap is off the board when a later one is on it. -/
theorem mem_oldRecaps {r : WeeklyRecapData} :
    r ∈ oldRecaps z ↔ r ∈ z.recaps ∧ 0 < r.weekStart ∧ isEmptyRecap r = false ∧
      ∃ later ∈ z.recaps, isEmptyRecap later = false ∧ r.weekStart < later.weekStart := by
  unfold oldRecaps
  rw [List.mem_filter, decide_eq_true_eq, not_or, not_or, not_le, Bool.not_eq_true]
  refine and_congr_right fun listed => and_congr_right fun _ => ?_
  rw [and_comm]
  refine and_congr_right fun full => ?_
  unfold boardWeek boardRecap
  rcases boardRecap_spec z.recaps with ⟨-, all⟩ | ⟨best, member, found, filled, greatest⟩
  · rw [all r listed] at full
    cases full
  · rw [found, Option.elim_some]
    constructor
    · exact fun other => ⟨best, member, filled, lt_of_le_of_ne (greatest r listed full) other⟩
    · rintro ⟨later, known, also, less⟩ same
      exact (less.trans_le (greatest later known also)).ne same

theorem mem_weeksOf (ws : Int) : ws ∈ (weeksOf z).keys ↔ HasHistory z ws := by
  rw [← AList.mem_keys]
  unfold weeksOf HasHistory
  rw [mem_group, mem_group, mem_group]
  have none : ws ∉ (∅ : Table Int Week) := AList.notMem_empty ws
  simp only [none, false_or, or_assoc, oldClips, oldStreams, mem_oldRecaps, List.mem_filter, decide_eq_true_eq, and_assoc]

theorem add_clips (w : Week) (clips : List StoredClip) :
    clips.foldl (fun w c => { w with clips := w.clips ++ [c] }) w = { w with clips := w.clips ++ clips } := by
  induction clips generalizing w with
  | nil => rw [List.foldl_nil, List.append_nil]
  | cons c rest ih => rw [List.foldl_cons, ih, List.append_assoc, List.singleton_append]

theorem add_streams (w : Week) (streams : List StoredStreamSession) :
    streams.foldl (fun w s => { w with streams := w.streams ++ [s] }) w = { w with streams := w.streams ++ streams } := by
  induction streams generalizing w with
  | nil => rw [List.foldl_nil, List.append_nil]
  | cons s rest ih => rw [List.foldl_cons, ih, List.append_assoc, List.singleton_append]

theorem add_recaps (w : Week) (recaps : List WeeklyRecapData) :
    ∃ recap, recaps.foldl (fun w r => { w with recap := some r }) w = { w with recap } := by
  induction recaps generalizing w with
  | nil => exact ⟨w.recap, rfl⟩
  | cons r rest ih =>
    obtain ⟨recap, same⟩ := ih { w with recap := some r }
    exact ⟨recap, same⟩

/-- A week has its old clips and streams. -/
theorem week_eq (ws : Int) :
    ∃ recap, ((weeksOf z).lookup ws).getD {} = { recap, clips := (oldClips z).filter (weekStartOf ·.ts = ws),
                                                 streams := (oldStreams z).filter (weekStartOf ·.ts = ws) } := by
  have none : ((∅ : Table Int Week).lookup ws).getD {} = {} := by rw [AList.lookup_empty, Option.getD_none]
  unfold weeksOf
  dsimp only
  rw [getD_group, getD_group, getD_group, none, add_clips, add_streams]
  exact add_recaps _ _

end Weeks

/-! ## One week -/

section OneWeek

variable {z : ZonesInput} {ws : Int}

@[simp] theorem zoneWeek_weekStart (z : ZonesInput) (weeks : Table Int Week) (ws : Int) : (zoneWeek z weeks ws).weekStart = ws := rfl

theorem zoneWeek_clipCount (z : ZonesInput) (ws : Int) :
    (zoneWeek z (weeksOf z) ws).clipCount = z.clips.countP fun c => c.ts < windowStart z ∧ weekStartOf c.ts = ws := by
  obtain ⟨recap, week⟩ := week_eq (z := z) ws
  have count : (zoneWeek z (weeksOf z) ws).clipCount = (rankClips (((weeksOf z).lookup ws).getD {}).clips).length := rfl
  rw [count, week, (rankClips_perm _).length_eq, oldClips, List.filter_filter, ← List.countP_eq_length_filter]
  exact List.countP_congr fun c _ => by simp [and_comm]

theorem zoneWeek_streamCount (z : ZonesInput) (ws : Int) :
    (zoneWeek z (weeksOf z) ws).streamCount = z.streams.countP fun s => s.ts < windowStart z ∧ weekStartOf s.ts = ws := by
  obtain ⟨recap, week⟩ := week_eq (z := z) ws
  have count : (zoneWeek z (weeksOf z) ws).streamCount =
      ((((weeksOf z).lookup ws).getD {}).streams.insertionSort fun a b => a.ts ≥ b.ts).length := rfl
  rw [count, week, List.length_insertionSort, oldStreams, List.filter_filter, ← List.countP_eq_length_filter]
  exact List.countP_congr fun s _ => by simp [and_comm]

/-- The gate: a locked week is closed. -/
theorem zoneWeek_closed (locked : (zoneWeek z (weeksOf z) ws).locked = true) : Closed z (zoneWeek z (weeksOf z) ws) := by
  obtain ⟨recap, week⟩ := week_eq (z := z) ws
  have gate : (z.plus || decide (ws ∈ foundingWeeks z.quests)) = false := by
    rw [← Bool.not_eq_true']
    exact locked
  unfold Closed zoneWeek
  dsimp only
  rw [gate, week]
  refine ⟨rfl, rfl, fun teaser member => ?_⟩
  rcases List.mem_append.mp (List.mem_of_mem_take member) with clip | stream
  · obtain ⟨c, listed, rfl⟩ := List.mem_map.mp clip
    have old := List.mem_of_mem_filter ((rankClips_perm _).mem_iff.mp listed)
    exact .inl ⟨c, List.mem_of_mem_filter old, rfl⟩
  · obtain ⟨s, listed, rfl⟩ := List.mem_map.mp stream
    have old := List.mem_of_mem_filter ((List.perm_insertionSort _ _).mem_iff.mp listed)
    exact .inr ⟨s, List.mem_of_mem_filter old, rfl⟩

end OneWeek

/-! ## The pages -/

section Paging

variable {z : ZonesInput}

/-- The starts of all weeks of history, newest first. -/
def allStarts (z : ZonesInput) : List Int := byNewest (weeksOf z).keys

def cursorOf (historyBefore : Int) : Option Int := if historyBefore ≤ 0 then none else some historyBefore

theorem byNewest_perm (starts : List Int) : (byNewest starts).Perm starts := List.perm_insertionSort _ _

theorem byNewest_sorted {starts : List Int} (distinct : starts.Nodup) : (byNewest starts).Pairwise (· > ·) := by
  have total : Std.Total fun a b : Int => a ≥ b := ⟨fun a b => le_total b a⟩
  have trans : IsTrans Int fun a b => a ≥ b := ⟨fun a b c first second => second.trans first⟩
  have order := List.pairwise_insertionSort (fun a b : Int => a ≥ b) starts
  have apart : (byNewest starts).Pairwise (· ≠ ·) := (byNewest_perm starts).nodup_iff.mpr distinct
  exact (order.and apart).imp fun both => lt_of_le_of_ne both.1 both.2.symm

theorem byNewest_filter {starts : List Int} (distinct : starts.Nodup) (keep : Int → Bool) :
    byNewest (starts.filter keep) = (byNewest starts).filter keep := by
  have perm : (byNewest (starts.filter keep)).Perm ((byNewest starts).filter keep) :=
    (byNewest_perm _).trans ((byNewest_perm starts).symm.filter keep)
  refine perm.eq_of_pairwise (fun a b _ _ first second => (lt_asymm first second).elim) (byNewest_sorted (distinct.filter keep)) ?_
  exact (byNewest_sorted distinct).filter keep

theorem allStarts_sorted (z : ZonesInput) : (allStarts z).Pairwise (· > ·) := byNewest_sorted (AList.keys_nodup _)

theorem mem_allStarts {ws : Int} : ws ∈ allStarts z ↔ HasHistory z ws :=
  (byNewest_perm _).mem_iff.trans (mem_weeksOf ws)

/-- A page of weeks is a page of their starts. -/
theorem zoneHistory_eq (z : ZonesInput) (historyBefore : Int) :
    zoneHistory z historyBefore =
      ((page zonesHistoryPageWeeks (allStarts z) (cursorOf historyBefore)).1.map (zoneWeek z (weeksOf z)),
        (page zonesHistoryPageWeeks (allStarts z) (cursorOf historyBefore)).2.getD 0) := by
  have starts : byNewest ((weeksOf z).keys.filter fun ws => historyBefore ≤ 0 ∨ ws < historyBefore) =
      below (cursorOf historyBefore) (allStarts z) := by
    rw [byNewest_filter (AList.keys_nodup _)]
    unfold cursorOf below allStarts
    by_cases first : historyBefore ≤ 0
    · simp [first]
    · simp [first]
  unfold zoneHistory page
  dsimp only
  rw [starts]
  split_ifs with more
  · rw [List.getLastD_eq_getLast?]
  · rfl

theorem below_subset (cursor : Option Int) (keys : List Int) : below cursor keys ⊆ keys := by
  cases cursor with
  | none => exact List.Subset.refl _
  | some c => exact fun _ member => List.mem_of_mem_filter member

theorem next_mem {size : Nat} {keys : List Int} {cursor : Option Int} {next : Int} (ends : (page size keys cursor).2 = some next) :
    next ∈ keys := by
  unfold page at ends
  dsimp only at ends
  split_ifs at ends
  exact below_subset _ _ (List.mem_of_mem_take (List.mem_of_getLast? ends))

/-- With all starts after 1970, the cursor of a page is never taken for that of the first one. -/
theorem followHistory_eq (dated : Dated z) (fuel : Nat) (historyBefore : Int) :
    followHistory z fuel historyBefore =
      (follow zonesHistoryPageWeeks (allStarts z) fuel (cursorOf historyBefore)).map (List.map (zoneWeek z (weeksOf z))) := by
  induction fuel generalizing historyBefore with
  | zero => rfl
  | succ fuel ih =>
    have history : (buildFeedZones z historyBefore).history = (zoneHistory z historyBefore).1 := rfl
    have historyNext : (buildFeedZones z historyBefore).historyNext = (zoneHistory z historyBefore).2 := rfl
    rw [followHistory, follow, history, historyNext, zoneHistory_eq]
    rcases here : page zonesHistoryPageWeeks (allStarts z) (cursorOf historyBefore) with ⟨front, _ | next⟩
    · rfl
    · have positive : 0 < next := dated next (mem_allStarts.mp (next_mem (congrArg Prod.snd here)))
      dsimp only
      rw [Option.getD_some, if_neg positive.ne', ih, cursorOf, if_neg positive.not_ge, Option.map_map, Option.map_map]
      congr 1
      funext rest
      exact (List.map_append ..).symm

theorem complete_allStarts (z : ZonesInput) : Complete z ((allStarts z).map (zoneWeek z (weeksOf z))) := by
  have starts : ((allStarts z).map (zoneWeek z (weeksOf z))).map ZoneHistoryWeek.weekStart = allStarts z := by
    rw [List.map_map]
    exact List.map_id _
  have one : ∀ ws, HasHistory z ws →
      ∃! w, w ∈ (allStarts z).map (zoneWeek z (weeksOf z)) ∧ w.weekStart = ws := by
    intro ws history
    refine ⟨zoneWeek z (weeksOf z) ws, ⟨List.mem_map_of_mem (mem_allStarts.mpr history), rfl⟩, ?_⟩
    rintro w ⟨member, rfl⟩
    obtain ⟨other, -, rfl⟩ := List.mem_map.mp member
    rfl
  refine ⟨?_, fun ws => ?_, fun w member => ?_, fun w member => ?_, fun c member old => one _ (.inl ⟨c, member, old, rfl⟩),
    fun s member old => one _ (.inr (.inl ⟨s, member, old, rfl⟩)), fun w member locked => ?_⟩
  · rw [starts]
    exact allStarts_sorted z
  · rw [starts]
    exact mem_allStarts
  · obtain ⟨ws, -, rfl⟩ := List.mem_map.mp member
    exact zoneWeek_clipCount z ws
  · obtain ⟨ws, -, rfl⟩ := List.mem_map.mp member
    exact zoneWeek_streamCount z ws
  · obtain ⟨ws, -, rfl⟩ := List.mem_map.mp member
    exact zoneWeek_closed locked

/-- The pages visit each week with history once, newest first, and end; what is locked stays closed, and no clip
of the free window is lost. -/
theorem zones_complete (z : ZonesInput) (ids : DistinctIds z) (named : ∀ c ∈ z.clips, c.eventID ≠ "") (dated : Dated z) :
    (∃ fuel weeks, followHistory z fuel 0 = some weeks ∧ Complete z weeks) ∧
      (∀ c ∈ z.clips, windowStart z ≤ c.ts → ∀ before, clipEntry c ∈ (buildFeedZones z before).clips ∨
        (buildFeedZones z before).stage.entry = some (clipEntry c)) ∧
      ∀ ms, weekStartOf ms = mondayStartMs ms := by
  refine ⟨?_, fun c member free before => clip_shown ids member (named c member) free, weekStartOf_eq_mondayStartMs⟩
  obtain ⟨fuel, followed⟩ := follow_all (show 0 < zonesHistoryPageWeeks by decide) (allStarts_sorted z)
  refine ⟨fuel, _, ?_, complete_allStarts z⟩
  rw [followHistory_eq dated, cursorOf, if_pos le_rfl, followed, Option.map_some]

/-- An old clip of a member without m3llo+. -/
def oneWeek : ZonesInput where
  nowMs := 1700000000000
  clips := [{ eventID := "a", ts := 1600000000000, clipType := clipTypeGame, mediaURL := "m" }]

theorem zones_complete_oneWeek : DistinctIds oneWeek ∧
    ((∃ fuel weeks, followHistory oneWeek fuel 0 = some weeks ∧ Complete oneWeek weeks) ∧
      (∀ c ∈ oneWeek.clips, windowStart oneWeek ≤ c.ts → ∀ before, clipEntry c ∈ (buildFeedZones oneWeek before).clips ∨
        (buildFeedZones oneWeek before).stage.entry = some (clipEntry c)) ∧
      ∀ ms, weekStartOf ms = mondayStartMs ms) := by
  have ids : DistinctIds oneWeek := by unfold DistinctIds; decide
  refine ⟨ids, zones_complete oneWeek ids (by decide) ?_⟩
  rintro ws (⟨c, member, -, rfl⟩ | ⟨s, member, -⟩ | ⟨r, member, -⟩)
  · rw [List.mem_singleton.mp member]
    decide
  · cases member
  · cases member

/-- A clip in each of five weeks before 1970, more than a page of them. -/
def fiveOld : ZonesInput where
  nowMs := 0
  clips := (List.range 5).map fun k => { eventID := toString k, ts := -(k + 2) * weekMs, clipType := "voice" }

/-- Two recaps, one of a week that starts before 1970. -/
def oldRecap : ZonesInput where
  nowMs := 1000000000
  recaps := [{ weekStart := -259200000, totalMin := 60 }, { weekStart := 345600000, totalMin := 60 }]

/-- A clip without an id. -/
def unnamed : ZonesInput where
  nowMs := 1700000000000
  clips := [{ eventID := "", ts := 1700000000000, clipType := "voice" }]

theorem fiveOld_page : (zoneHistory fiveOld 0).2 = -3283200000 := by decide

/-- The page ends before 1970, and a page asked for before 1970 is the first one again. -/
theorem fiveOld_circles (fuel : Nat) (before : Int) (early : before ≤ 0) : followHistory fiveOld fuel before = none := by
  induction fuel generalizing before with
  | zero => rfl
  | succ fuel ih =>
    have first : zoneHistory fiveOld before = zoneHistory fiveOld 0 := by
      rw [zoneHistory_eq, zoneHistory_eq, cursorOf, if_pos early, cursorOf, if_pos le_rfl]
    have next : (buildFeedZones fiveOld before).historyNext = -3283200000 := (congrArg Prod.snd first).trans fiveOld_page
    rw [followHistory, next, if_neg (by decide), ih _ (by decide), Option.map_none]

theorem early_weeks : (∀ fuel, followHistory fiveOld fuel 0 = none) ∧ followHistory oldRecap 1 0 = some [] ∧
    (buildFeedZones unnamed 0).clips = [] ∧ (buildFeedZones unnamed 0).stage.entry = none :=
  ⟨fun fuel => fiveOld_circles fuel 0 le_rfl, by decide, by decide, by decide⟩

end Paging

end Mello.Backend.FeedHistory
