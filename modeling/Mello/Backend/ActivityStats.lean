import Mello.Library.Buckets
import Mello.Library.Latest
import Mello.Library.Calendar

/-!
One user's activity: lifetime counters and a bucket for each of the last days. A date is the number
of its day, as its ten characters sort in the order of the days; counters do not overflow.
-/

namespace Mello.Backend.ActivityStats
open Mello.Library Calendar Buckets Latest

def activityDaysCap : Int := 14
def head2headNightHr : Int := 18

/-- The counters that the document and each of its days have. -/
structure ActivityFigures where
  voiceMin : Int := 0
  gameMin : Int := 0
  sessions : Int := 0
  shortSessions : Int := 0
  longestSessionMin : Int := 0
  latestEndLocalMin : Option Int := none
  winMoments : Int := 0
  clips : Int := 0
  deriving DecidableEq, Repr

structure ActivityDay extends ActivityFigures where
  date : Int
  deriving DecidableEq, Repr

structure UserActivityStats extends ActivityFigures where
  latestEndDate : String := ""
  tzOffsetMin : Option Int := none
  days : List ActivityDay := []
  updatedAt : Int := 0
  deriving DecidableEq, Repr

structure ActivityDelta where
  voiceMin : Int := 0
  gameMin : Int := 0
  sessions : Int := 0
  shortSessions : Int := 0
  sessionMin : Int := 0
  endLocalMin : Option Int := none
  endLocalDate : String := ""
  tzOffsetMin : Option Int := none
  winMoments : Int := 0
  clips : Int := 0
  deriving DecidableEq, Repr

/-- The rank of a minute of the local day, from 18:00. -/
def activityNightKey (localMin : Int) : Int := (localMin - head2headNightHr * 60 + 1440).tmod 1440

/-- The minute of the local day at which a session ended, on a clock east of UTC. -/
def sessionEndLocalMin (endMs tzOffsetMin : Int) : Int := (endMs + tzOffsetMin * 60 * 1000) % dayMs / (60 * 1000)

def cutoffDate (nowMs days : Int) : Int := dayOf nowMs - (days - 1)

/-- What a delta does to the document's counters and to those of its day. -/
def addDelta (f : ActivityFigures) (d : ActivityDelta) : ActivityFigures where
  voiceMin := f.voiceMin + d.voiceMin
  gameMin := f.gameMin + d.gameMin
  sessions := f.sessions + d.sessions
  shortSessions := f.shortSessions + d.shortSessions
  longestSessionMin := if d.sessionMin > f.longestSessionMin then d.sessionMin else f.longestSessionMin
  latestEndLocalMin := replace activityNightKey f.latestEndLocalMin d.endLocalMin
  winMoments := f.winMoments + d.winMoments
  clips := f.clips + d.clips

def ActivityDay.add (day : ActivityDay) (d : ActivityDelta) : ActivityDay where
  toActivityFigures := addDelta day.toActivityFigures d
  date := day.date

/-- The local date of the end that is held. -/
def endDate (s : UserActivityStats) (d : ActivityDelta) : String :=
  match d.endLocalMin, s.latestEndLocalMin with
  | none, _ => s.latestEndDate
  | some _, none => d.endLocalDate
  | some localMin, some held =>
    if activityNightKey localMin ≥ activityNightKey held then d.endLocalDate else s.latestEndDate

/-- The day's bucket, or a new one behind the others. -/
def addToDay (days : List ActivityDay) (d : ActivityDelta) (date : Int) : List ActivityDay :=
  (changeFirst ActivityDay.date date (·.add d) days).getD (days ++ [ActivityDay.add { date } d])

/-- The given time, or the start of a later day that is held. -/
def newestHeld (days : List ActivityDay) (nowMs : Int) : Int :=
  days.foldl (fun newest day => if day.date * dayMs > newest then day.date * dayMs else newest) nowMs

def dropOld (days : List ActivityDay) (nowMs : Int) : List ActivityDay :=
  let cutoff := cutoffDate (newestHeld days nowMs) activityDaysCap
  sortBy ActivityDay.date (days.filter fun day => day.date ≥ cutoff)

def applyActivityDelta (s : UserActivityStats) (d : ActivityDelta) (nowMs : Int) : UserActivityStats :=
  { addDelta s.toActivityFigures d with
    latestEndDate := endDate s d
    tzOffsetMin := d.tzOffsetMin.or s.tzOffsetMin
    days := dropOld (addToDay s.days d (dayOf nowMs)) nowMs
    updatedAt := nowMs }

/-- A delta with its time. -/
structure Write where
  delta : ActivityDelta
  nowMs : Int
  deriving DecidableEq, Repr

/-- The writes in the order of their arrival, from the empty document. -/
def applies (writes : List Write) : UserActivityStats :=
  writes.foldl (fun s write => applyActivityDelta s write.delta write.nowMs) {}

/-! ## What is claimed -/

def Write.date (write : Write) : Int := dayOf write.nowMs

def Write.endLocalMin (write : Write) : Option Int := write.delta.endLocalMin

def Write.tzOffsetMin (write : Write) : Option Int := write.delta.tzOffsetMin

/-- The sums of some deltas, the longest of their sessions and their latest end. -/
def figures (writes : List Write) : ActivityFigures where
  voiceMin := (writes.map (·.delta.voiceMin)).sum
  gameMin := (writes.map (·.delta.gameMin)).sum
  sessions := (writes.map (·.delta.sessions)).sum
  shortSessions := (writes.map (·.delta.shortSessions)).sum
  longestSessionMin := (writes.map (·.delta.sessionMin)).foldl max 0
  latestEndLocalMin := highest activityNightKey Write.endLocalMin writes
  winMoments := (writes.map (·.delta.winMoments)).sum
  clips := (writes.map (·.delta.clips)).sum

def dayEntry (writes : List Write) (date : Int) : ActivityDay where
  toActivityFigures := figures (writes.filter (·.date = date))
  date := date

def writeDates (writes : List Write) : Finset Int := (writes.map Write.date).toFinset

/-- The dates of the days that end at the newest one. -/
def window (writes : List Write) : Finset Int := recent activityDaysCap (writeDates writes)

/-- What the order of the writes is to leave as it is. -/
def keptOf (s : UserActivityStats) : ActivityFigures × Option Int × List ActivityDay :=
  (s.toActivityFigures, s.tzOffsetMin, s.days)

structure OrderFree (writes : List Write) : Prop where
  same : ∀ other : List Write, other.Perm writes → keptOf (applies other) = keptOf (applies writes)
  offset : OfNewest Write.tzOffsetMin Write.nowMs writes (applies writes).tzOffsetMin
  increasing : ((applies writes).days.map ActivityDay.date).Pairwise (· < ·)
  dates : ∀ date, date ∈ (applies writes).days.map ActivityDay.date ↔ date ∈ window writes
  sums : ∀ day ∈ (applies writes).days, day = dayEntry writes day.date

/-- No two ends tie as the latest at different minutes, of all or of a day. -/
def OneEnd (writes : List Write) : Prop :=
  OneHighest activityNightKey Write.endLocalMin writes ∧
    ∀ date ∈ window writes, OneHighest activityNightKey Write.endLocalMin (writes.filter (·.date = date))

/-! ## The figures -/

theorem figures_append (writes : List Write) (write : Write) :
    figures (writes ++ [write]) = addDelta (figures writes) write.delta := by
  unfold figures addDelta
  simp only [List.map_append, List.sum_append, List.map_singleton, List.sum_singleton, List.foldl_append,
    List.foldl_cons, List.foldl_nil, highest_append]
  congr 1
  rw [max_def]
  split_ifs <;> first | rfl | omega

theorem figures_perm {writes other : List Write} (perm : other.Perm writes)
    (ends : highest activityNightKey Write.endLocalMin other = highest activityNightKey Write.endLocalMin writes) :
    figures other = figures writes := by
  have sums : ∀ field : Write → Int, (other.map field).sum = (writes.map field).sum := fun field => (perm.map field).sum_eq
  unfold figures
  rw [ends, (perm.map _).foldl_op_eq]
  simp only [sums]

theorem dayEntry_date (writes : List Write) (date : Int) : (dayEntry writes date).date = date := rfl

theorem dayEntry_append (writes : List Write) (write : Write) (date : Int) :
    dayEntry (writes ++ [write]) date =
      if write.date = date then (dayEntry writes date).add write.delta else dayEntry writes date := by
  unfold dayEntry
  rw [List.filter_append]
  by_cases same : write.date = date
  · have one : [write].filter (·.date = date) = [write] := by simp [same]
    rw [if_pos same, one, figures_append]
    rfl
  · have none : [write].filter (·.date = date) = [] := by simp [same]
    rw [if_neg same, none, List.append_nil]

/-- A date without a delta has an empty bucket. -/
theorem dayEntry_of_absent {writes : List Write} {date : Int} (absent : date ∉ writeDates writes) :
    dayEntry writes date = { date } := by
  have none : writes.filter (·.date = date) = [] := by
    rw [List.filter_eq_nil_iff]
    intro write member same
    exact absent (List.mem_toFinset.mpr (List.mem_map.mpr ⟨write, member, of_decide_eq_true same⟩))
  unfold dayEntry
  rw [none]
  rfl

theorem writeDates_append (writes : List Write) (write : Write) :
    writeDates (writes ++ [write]) = insert write.date (writeDates writes) := by
  unfold writeDates
  rw [List.map_append, List.toFinset_append]
  ext date
  simp

/-! ## One delta -/

/-- The greatest date held or given, for times in the days. -/
theorem dayOf_newestHeld (days : List ActivityDay) (nowMs : Int) :
    dayOf (newestHeld days nowMs) = (days.map ActivityDay.date).foldl max (dayOf nowMs) := by
  induction days generalizing nowMs with
  | nil => rfl
  | cons day rest ih =>
    have step : dayOf (if day.date * dayMs > nowMs then day.date * dayMs else nowMs) = max (dayOf nowMs) day.date := by
      unfold dayOf dayMs
      split_ifs <;> omega
    rw [List.map_cons, List.foldl_cons, ← step]
    exact ih _

theorem foldl_max_lt (dates : List Int) (start bound : Int) :
    dates.foldl max start < bound ↔ start < bound ∧ ∀ date ∈ dates, date < bound := by
  induction dates generalizing start with
  | nil => simp
  | cons date rest ih =>
    rw [List.foldl_cons, ih, max_lt_iff, List.forall_mem_cons, and_assoc]

/-- The window of the dates held, when that of the given time is among them. -/
theorem kept_iff {days : List ActivityDay} {nowMs : Int} (held : dayOf nowMs ∈ days.map ActivityDay.date) (date : Int) :
    date ≥ cutoffDate (newestHeld days nowMs) activityDaysCap ↔
      ∀ other ∈ days.map ActivityDay.date, other < date + activityDaysCap := by
  have bound := foldl_max_lt (days.map ActivityDay.date) (dayOf nowMs) (date + activityDaysCap)
  rw [← dayOf_newestHeld] at bound
  have all : dayOf (newestHeld days nowMs) < date + activityDaysCap ↔
      ∀ other ∈ days.map ActivityDay.date, other < date + activityDaysCap :=
    bound.trans (and_iff_right_of_imp fun near => near _ held)
  rw [← all]
  unfold cutoffDate
  omega

/-- The days as a set of dates with the given one and an entry for each. -/
theorem dropOld_buckets {days : List ActivityDay} {dates : Finset Int} {entry : Int → ActivityDay} {nowMs : Int}
    (keyed : ∀ date, (entry date).date = date) (perm : days.Perm (buckets dates entry)) (held : dayOf nowMs ∈ dates) :
    dropOld days nowMs = buckets (recent activityDaysCap dates) entry := by
  have dates' : ∀ date, date ∈ days.map ActivityDay.date ↔ date ∈ dates := fun date => by
    rw [(perm.map _).mem_iff, map_key_buckets keyed, Finset.mem_sort]
  have window : ∀ day, day ∈ days → (decide (day.date ≥ cutoffDate (newestHeld days nowMs) activityDaysCap) =
      decide (∀ other ∈ dates, other < day.date + activityDaysCap)) := by
    intro day _
    rw [decide_eq_decide, kept_iff ((dates' _).mpr held)]
    exact forall_congr' fun other => by rw [dates']
  unfold dropOld
  dsimp only
  rw [List.filter_congr window]
  refine sortBy_perm keyed ((perm.filter _).trans (List.Perm.of_eq ?_))
  exact filter_buckets keyed fun date => ∀ other ∈ dates, other < date + activityDaysCap

/-! ## All deltas -/

theorem applies_append (writes : List Write) (write : Write) :
    applies (writes ++ [write]) = applyActivityDelta (applies writes) write.delta write.nowMs := by
  rw [applies, List.foldl_append]
  rfl

theorem window_append (writes : List Write) (write : Write) :
    window (writes ++ [write]) = recent activityDaysCap (insert write.date (window writes)) := by
  unfold window
  rw [writeDates_append, recent_insert (by decide)]

/-- The greatest date does not fall, so a date that comes into the window is new. -/
theorem fresh_of_window {writes : List Write} {write : Write} (gone : write.date ∉ window writes)
    (inside : write.date ∈ window (writes ++ [write])) : write.date ∉ writeDates writes := by
  intro old
  unfold window at inside
  rw [writeDates_append, Finset.insert_eq_of_mem old] at inside
  exact gone inside

/-- A bucket that is not held was dropped, and is dropped again, or had no delta. -/
theorem days_append (writes : List Write) (write : Write) :
    dropOld (addToDay (buckets (window writes) (dayEntry writes)) write.delta write.date) write.nowMs =
      buckets (window (writes ++ [write])) (dayEntry (writes ++ [write])) := by
  have keyed := dayEntry_date writes
  unfold addToDay
  by_cases held : write.date ∈ window writes
  · have changed : ∀ date, (Function.update (dayEntry writes) write.date ((dayEntry writes write.date).add write.delta)
        date).date = date := update_keyed keyed ((dayEntry writes write.date).add write.delta)
    rw [changeFirst_present keyed held, Option.getD_some, window_append, Finset.insert_eq_of_mem held,
      dropOld_buckets changed (List.Perm.refl _) held]
    refine buckets_congr fun date _ => ?_
    rw [dayEntry_append]
    by_cases same : write.date = date
    · subst same
      rw [Function.update_self, if_pos rfl]
    · rw [Function.update_of_ne (Ne.symm same), if_neg same]
  · have changed : ∀ date, (Function.update (dayEntry writes) write.date
        (ActivityDay.add { date := write.date } write.delta) date).date = date :=
      update_keyed keyed (ActivityDay.add { date := write.date } write.delta)
    have absent : (ActivityDay.add { date := write.date } write.delta).date ∉ window writes := held
    have new : (buckets (window writes) (dayEntry writes) ++ [ActivityDay.add { date := write.date } write.delta]).Perm
        (buckets (insert write.date (window writes))
          (Function.update (dayEntry writes) write.date (ActivityDay.add { date := write.date } write.delta))) :=
      append_perm absent
    rw [changeFirst_absent keyed held, Option.getD_none, dropOld_buckets changed new (Finset.mem_insert_self _ _),
      ← window_append]
    refine buckets_congr fun date member => ?_
    rw [dayEntry_append]
    by_cases same : write.date = date
    · subst same
      rw [Function.update_self, if_pos rfl, dayEntry_of_absent (fresh_of_window held member)]
    · rw [Function.update_of_ne (Ne.symm same), if_neg same]

/-- The counters of all deltas, the last offset to arrive, and the buckets of the window. -/
theorem keptOf_applies (writes : List Write) :
    keptOf (applies writes) = (figures writes, latest Write.tzOffsetMin writes, buckets (window writes) (dayEntry writes)) := by
  induction writes using List.reverseRecOn with
  | nil =>
    have none : window [] = ∅ := Finset.filter_empty _
    rw [none, buckets, Finset.sort_empty]
    rfl
  | append_singleton writes write ih =>
    simp only [keptOf, Prod.mk.injEq] at ih ⊢
    obtain ⟨counters, offset, days⟩ := ih
    rw [applies_append]
    refine ⟨?_, ?_, ?_⟩
    · rw [figures_append, ← counters]
      rfl
    · rw [latest_append, ← offset]
      rfl
    · rw [← days_append, ← days]
      rfl

theorem days_applies (writes : List Write) : (applies writes).days = buckets (window writes) (dayEntry writes) :=
  congrArg (fun kept => kept.2.2) (keptOf_applies writes)

theorem offset_applies (writes : List Write) : (applies writes).tzOffsetMin = latest Write.tzOffsetMin writes :=
  congrArg (fun kept => kept.2.1) (keptOf_applies writes)

/-! ## Any order -/

theorem window_perm {writes other : List Write} (perm : other.Perm writes) : window other = window writes :=
  congrArg (recent activityDaysCap) (List.toFinset_eq_of_perm _ _ (perm.map _))

/-- The writes of a date in another order, before all others. -/
theorem perm_of_day {writes : List Write} {date : Int} {day : List Write} (perm : day.Perm (writes.filter (·.date = date))) :
    ∃ other : List Write, other.Perm writes ∧ other.filter (·.date = date) = day := by
  refine ⟨day ++ writes.filter (fun write => ¬ write.date = date), ?_, ?_⟩
  · refine (perm.append_right _).trans ?_
    simpa using List.filter_append_perm (fun write : Write => decide (write.date = date)) writes
  · have all : day.filter (·.date = date) = day := by
      rw [List.filter_eq_self]
      intro write member
      exact (List.mem_filter.mp (perm.mem_iff.mp member)).2
    rw [List.filter_append, all, List.filter_filter]
    simp

theorem oneOffset_of_orderFree {writes : List Write} (free : OrderFree writes) : One Write.tzOffsetMin writes := by
  refine latest_perm_iff.mp fun other perm => ?_
  rw [← offset_applies, ← offset_applies]
  exact congrArg (fun kept => kept.2.1) (free.same other perm)

theorem oneEnd_of_orderFree {writes : List Write} (free : OrderFree writes) : OneEnd writes := by
  constructor
  · refine highest_perm_iff.mp fun other perm => ?_
    have same := congrArg (fun kept => kept.1.latestEndLocalMin) (free.same other perm)
    simp only [keptOf_applies] at same
    exact same
  · intro date inside
    refine highest_perm_iff.mp fun day perm => ?_
    obtain ⟨other, perm', rfl⟩ := perm_of_day perm
    have days := congrArg (fun kept => kept.2.2) (free.same other perm')
    simp only [keptOf_applies, buckets, window_perm perm'] at days
    have entry := List.map_inj_left.mp days date ((Finset.mem_sort (· ≤ ·)).mpr inside)
    exact congrArg (fun day => day.latestEndLocalMin) entry

/-- The document does not depend on the order of arrival exactly when all offsets that were sent are one,
and no two ends tie at different minutes. -/
theorem writesOrderFree_iff (writes : List Write) : OrderFree writes ↔ One Write.tzOffsetMin writes ∧ OneEnd writes := by
  constructor
  · exact fun free => ⟨oneOffset_of_orderFree free, oneEnd_of_orderFree free⟩
  · rintro ⟨one, ends, dayEnds⟩
    refine ⟨fun other perm => ?_, ?_, ?_, fun date => ?_, fun day member => ?_⟩
    · have entries : ∀ date ∈ window writes, dayEntry other date = dayEntry writes date := by
        intro date inside
        have same := figures_perm (perm.filter (·.date = date)) (highest_perm_iff.mpr (dayEnds date inside) _ (perm.filter _))
        unfold dayEntry
        rw [same]
      rw [keptOf_applies, keptOf_applies, figures_perm perm (highest_perm_iff.mpr ends other perm),
        latest_perm_iff.mpr one other perm, window_perm perm, buckets_congr entries]
    · rw [offset_applies]
      exact ofNewest_of_one Write.nowMs one
    · rw [days_applies]
      exact increasing (dayEntry_date writes)
    · rw [days_applies, map_key_buckets (dayEntry_date writes), Finset.mem_sort]
    · rw [days_applies] at member
      obtain ⟨date, -, rfl⟩ := mem_buckets.mp member
      rfl

/-- Two minutes of a day do not tie. -/
theorem activityNightKey_injective {a b : Int} (first : 0 ≤ a ∧ a < 1440) (second : 0 ≤ b ∧ b < 1440)
    (same : activityNightKey a = activityNightKey b) : a = b := by
  unfold activityNightKey head2headNightHr at same
  rw [Int.tmod_eq_emod_of_nonneg (by omega), Int.tmod_eq_emod_of_nonneg (by omega)] at same
  omega

theorem sessionEndLocalMin_range (endMs tzOffsetMin : Int) :
    0 ≤ sessionEndLocalMin endMs tzOffsetMin ∧ sessionEndLocalMin endMs tzOffsetMin < 1440 := by
  unfold sessionEndLocalMin dayMs
  omega

/-- The ends that the server derives from a session's end and offset do not tie. -/
theorem oneEnd_of_sessions {writes : List Write}
    (ended : ∀ write ∈ writes, ∀ a, write.endLocalMin = some a → ∃ endMs tz, a = sessionEndLocalMin endMs tz) :
    OneEnd writes := by
  have minute : ∀ write ∈ writes, ∀ a, write.endLocalMin = some a → 0 ≤ a ∧ a < 1440 := by
    intro write member a found
    obtain ⟨endMs, tz, rfl⟩ := ended write member a found
    exact sessionEndLocalMin_range endMs tz
  constructor
  · refine oneHighest_of_injective fun first member second member' a b found found' same => ?_
    exact activityNightKey_injective (minute first member a found) (minute second member' b found') same
  · intro date _
    refine oneHighest_of_injective fun first member second member' a b found found' same => ?_
    exact activityNightKey_injective (minute first (List.mem_of_mem_filter member) a found)
      (minute second (List.mem_of_mem_filter member') b found') same

/-- The member travelled; the session from before the flight waited in the queue. -/
def travelled : List Write :=
  [{ delta := { gameMin := 30, sessions := 1, sessionMin := 30, endLocalMin := some 93, tzOffsetMin := some 60 }
     nowMs := 2000000 },
    { delta := { gameMin := 10, sessions := 1, sessionMin := 10, endLocalMin := some 136, tzOffsetMin := some 120 }
      nowMs := 1000000 }]

theorem late_write : (applies travelled).tzOffsetMin = some 120 ∧ ¬ ∀ writes, OrderFree writes := by
  constructor
  · rw [offset_applies]
    rfl
  · intro all
    have one := oneOffset_of_orderFree (all travelled)
    exact absurd (one _ List.mem_cons_self _ (List.mem_cons_of_mem _ List.mem_cons_self) 60 120 rfl rfl) (by decide)

end Mello.Backend.ActivityStats
