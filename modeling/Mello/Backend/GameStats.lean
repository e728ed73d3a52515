import Mello.Library.Buckets
import Mello.Library.Latest
import Mello.Library.Calendar

/-!
One user's stats for one game. A client may deliver queued sessions late, so a session can end
before one that was applied earlier. A date is the number of its day, as its ten characters sort in
the order of the days; minutes do not overflow.
-/

namespace Mello.Backend.GameStats
open Mello.Library Calendar Buckets Latest

def recentFormCap : Nat := 10
def recentDaysCap : Nat := 14

structure RecentDayEntry where
  date : Int
  wallMin : Int
  activeMin : Int
  deriving DecidableEq, Repr

structure UserGameStats where
  wins : Int := 0
  losses : Int := 0
  draws : Int := 0
  currentStreak : Int := 0
  longestWinStreak : Int := 0
  longestLossStreak : Int := 0
  recentForm : List String := []
  lastResult : String := ""
  lastPlayed : Int := 0
  updatedAt : Int := 0
  playedMinTotal : Int := 0
  activeMinTotal : Int := 0
  recentDays : List RecentDayEntry := []
  lastTzOffsetMin : Option Int := none
  deriving DecidableEq, Repr

def sessionResult (wins losses : Int) : String :=
  if wins > losses then "win" else if losses > wins then "loss" else "even"

/-- A win extends or begins a streak of wins, a loss one of losses. -/
def applyStreak (s : UserGameStats) (result : String) : UserGameStats :=
  if result = "win" then
    let currentStreak := (if s.currentStreak < 0 then 0 else s.currentStreak) + 1
    { s with currentStreak, longestWinStreak := if currentStreak > s.longestWinStreak then currentStreak else s.longestWinStreak }
  else if result = "loss" then
    let currentStreak := (if s.currentStreak > 0 then 0 else s.currentStreak) - 1
    { s with
      currentStreak, longestLossStreak := if -currentStreak > s.longestLossStreak then -currentStreak else s.longestLossStreak }
  else s

def applySessionOutcome (s : UserGameStats) (wins losses draws : Int) : UserGameStats :=
  let result := sessionResult wins losses
  let s := applyStreak { s with wins := s.wins + wins, losses := s.losses + losses, draws := s.draws + draws } result
  let letter := if result = "win" then "W" else if result = "loss" then "L" else "D"
  let recentForm := s.recentForm ++ [letter]
  { s with lastResult := result, recentForm := recentForm.drop (recentForm.length - recentFormCap) }

/-- The minutes of a day's entry, or a new entry in its place by date. -/
def addDay (days : List RecentDayEntry) (durationMin activeMin date : Int) : List RecentDayEntry :=
  match changeFirst RecentDayEntry.date date
      (fun day => { day with wallMin := day.wallMin + durationMin, activeMin := day.activeMin + activeMin }) days with
  | some days => days
  | none =>
    let days := sortBy RecentDayEntry.date (days ++ [{ date, wallMin := durationMin, activeMin }])
    days.drop (days.length - recentDaysCap)

def applySessionPlayTime (s : UserGameStats) (durationMin activeMin now : Int) : UserGameStats :=
  let s := { s with playedMinTotal := s.playedMinTotal + durationMin, activeMinTotal := s.activeMinTotal + activeMin }
  if durationMin = 0 ∧ activeMin = 0 then s
  else { s with recentDays := addDay s.recentDays durationMin activeMin (dayOf now) }

/-- The arguments of one update, and the server's clock at its write. -/
structure Session where
  durationMin : Int
  activeMin : Int
  wins : Int := 0
  losses : Int := 0
  draws : Int := 0
  tzOffsetMin : Option Int := none
  endAt : Int
  now : Int := 0
  deriving DecidableEq, Repr

/-- An offset that was sent replaces the stored one. -/
def replaceOffset (s : UserGameStats) (session : Session) : UserGameStats :=
  match session.tzOffsetMin with
  | some tz => { s with lastTzOffsetMin := some tz }
  | none => s

def applyOutcomes (s : UserGameStats) (session : Session) : UserGameStats :=
  if session.wins > 0 ∨ session.losses > 0 ∨ session.draws > 0 then
    applySessionOutcome s session.wins session.losses session.draws
  else s

def stampEnd (s : UserGameStats) (session : Session) : UserGameStats :=
  let s := { s with updatedAt := session.now }
  if session.endAt > s.lastPlayed then { s with lastPlayed := session.endAt } else s

/-- What the attempt that writes does to the document that it read. -/
def updateUserGameStatsForSession (s : UserGameStats) (session : Session) : UserGameStats :=
  let s := applySessionPlayTime s session.durationMin session.activeMin session.endAt
  let s := replaceOffset s session
  let s := applyOutcomes s session
  stampEnd s session

/-- The sessions in the order of their arrival, from the empty document. -/
def updates (sessions : List Session) : UserGameStats := sessions.foldl updateUserGameStatsForSession {}

/-! ## What is claimed -/

def Session.played (session : Session) : Bool := ¬(session.durationMin = 0 ∧ session.activeMin = 0)

def Session.date (session : Session) : Int := dayOf session.endAt

/-- The dates with play time. -/
def playDates (sessions : List Session) : Finset Int := ((sessions.filter Session.played).map Session.date).toFinset

/-- All minutes of a date. -/
def dayEntry (sessions : List Session) (date : Int) : RecentDayEntry where
  date := date
  wallMin := ((sessions.filter (·.date = date)).map Session.durationMin).sum
  activeMin := ((sessions.filter (·.date = date)).map Session.activeMin).sum

def fieldsOf (s : UserGameStats) : Int × Int × Int × Option Int × List RecentDayEntry :=
  (s.playedMinTotal, s.activeMinTotal, s.lastPlayed, s.lastTzOffsetMin, s.recentDays)

structure OrderFree (sessions : List Session) : Prop where
  same : ∀ other : List Session, other.Perm sessions → fieldsOf (updates other) = fieldsOf (updates sessions)
  offset : OfNewest Session.tzOffsetMin Session.endAt sessions (updates sessions).lastTzOffsetMin
  increasing : ((updates sessions).recentDays.map RecentDayEntry.date).Pairwise (· < ·)
  capped : (updates sessions).recentDays.length ≤ recentDaysCap
  sums : ∀ date ∈ newest recentDaysCap (playDates sessions), dayEntry sessions date ∈ (updates sessions).recentDays

/-- All sessions that sent an offset sent the same one. -/
def OneOffset (sessions : List Session) : Prop := One Session.tzOffsetMin sessions

/-! ## One update -/

theorem applySessionOutcome_fields (s : UserGameStats) (wins losses draws : Int) :
    fieldsOf (applySessionOutcome s wins losses draws) = fieldsOf s := by
  unfold applySessionOutcome applyStreak
  dsimp only
  split_ifs <;> rfl

theorem applySessionPlayTime_fields (s : UserGameStats) (durationMin activeMin now : Int) :
    fieldsOf (applySessionPlayTime s durationMin activeMin now) =
      (s.playedMinTotal + durationMin, s.activeMinTotal + activeMin, s.lastPlayed, s.lastTzOffsetMin,
        if durationMin = 0 ∧ activeMin = 0 then s.recentDays else addDay s.recentDays durationMin activeMin (dayOf now)) := by
  unfold applySessionPlayTime
  dsimp only
  split_ifs <;> rfl

theorem replaceOffset_fields (s : UserGameStats) (session : Session) :
    fieldsOf (replaceOffset s session) =
      (s.playedMinTotal, s.activeMinTotal, s.lastPlayed, session.tzOffsetMin.or s.lastTzOffsetMin, s.recentDays) := by
  unfold replaceOffset
  cases session.tzOffsetMin <;> rfl

theorem applyOutcomes_fields (s : UserGameStats) (session : Session) : fieldsOf (applyOutcomes s session) = fieldsOf s := by
  unfold applyOutcomes
  split_ifs
  · exact applySessionOutcome_fields s session.wins session.losses session.draws
  · rfl

theorem stampEnd_fields (s : UserGameStats) (session : Session) :
    fieldsOf (stampEnd s session) =
      (s.playedMinTotal, s.activeMinTotal, max s.lastPlayed session.endAt, s.lastTzOffsetMin, s.recentDays) := by
  unfold stampEnd
  dsimp only
  by_cases later : session.endAt > s.lastPlayed
  · rw [if_pos later, max_eq_right later.le]
    rfl
  · rw [if_neg later, max_eq_left (not_lt.mp later)]
    rfl

/-- What an update does to the fields, whatever the outcomes and the clock. -/
theorem update_fields (s : UserGameStats) (session : Session) :
    fieldsOf (updateUserGameStatsForSession s session) =
      (s.playedMinTotal + session.durationMin, s.activeMinTotal + session.activeMin, max s.lastPlayed session.endAt,
        session.tzOffsetMin.or s.lastTzOffsetMin,
        if session.played then addDay s.recentDays session.durationMin session.activeMin session.date else s.recentDays) := by
  have timed := applySessionPlayTime_fields s session.durationMin session.activeMin session.endAt
  unfold updateUserGameStatsForSession
  dsimp only
  generalize applySessionPlayTime s session.durationMin session.activeMin session.endAt = s1 at timed ⊢
  have placed := replaceOffset_fields s1 session
  have decided := applyOutcomes_fields (replaceOffset s1 session) session
  rw [stampEnd_fields]
  simp only [fieldsOf, Prod.mk.injEq] at timed placed decided ⊢
  obtain ⟨played, active, last, offset, days⟩ := decided
  obtain ⟨played', active', last', offset', days'⟩ := placed
  obtain ⟨played'', active'', last'', offset'', days''⟩ := timed
  refine ⟨by rw [played, played', played''], by rw [active, active', active''], by rw [last, last', last''],
    by rw [offset, offset', offset''], ?_⟩
  rw [days, days', days'']
  unfold Session.played Session.date
  by_cases none : session.durationMin = 0 ∧ session.activeMin = 0
  · rw [if_pos none, if_neg (by simpa using none)]
  · rw [if_neg none, if_pos (decide_eq_true none)]

/-! ## All updates -/

theorem updates_append (sessions : List Session) (session : Session) :
    updates (sessions ++ [session]) = updateUserGameStatsForSession (updates sessions) session := by
  rw [updates, List.foldl_append]
  rfl

theorem dayEntry_append (sessions : List Session) (session : Session) (date : Int) :
    dayEntry (sessions ++ [session]) date =
      if session.date = date then
        { date, wallMin := (dayEntry sessions date).wallMin + session.durationMin
          activeMin := (dayEntry sessions date).activeMin + session.activeMin }
      else dayEntry sessions date := by
  unfold dayEntry
  rw [List.filter_append]
  by_cases same : session.date = date
  · have one : [session].filter (·.date = date) = [session] := by simp [same]
    rw [if_pos same, one, List.map_append, List.map_append, List.sum_append, List.sum_append]
    simp
  · have none : [session].filter (·.date = date) = [] := by simp [same]
    rw [if_neg same, none, List.append_nil]

theorem playDates_append (sessions : List Session) (session : Session) :
    playDates (sessions ++ [session]) =
      if session.played then insert session.date (playDates sessions) else playDates sessions := by
  unfold playDates
  rw [List.filter_append]
  by_cases played : session.played = true
  · rw [if_pos played, List.filter_cons_of_pos played, List.filter_nil, List.map_append, List.toFinset_append]
    ext date
    simp
  · rw [if_neg played, List.filter_cons_of_neg played, List.filter_nil, List.append_nil]

/-- A date without play time has no minutes. -/
theorem dayEntry_of_unplayed {sessions : List Session} {date : Int} (unplayed : date ∉ playDates sessions) :
    dayEntry sessions date = { date, wallMin := 0, activeMin := 0 } := by
  have zero : ∀ session ∈ sessions.filter (·.date = date), session.durationMin = 0 ∧ session.activeMin = 0 := by
    intro session member
    obtain ⟨listed, same⟩ := List.mem_filter.mp member
    by_contra some
    refine unplayed (List.mem_toFinset.mpr (List.mem_map.mpr ⟨session, List.mem_filter.mpr ⟨listed, ?_⟩, ?_⟩))
    · exact decide_eq_true some
    · exact of_decide_eq_true same
  unfold dayEntry
  rw [List.sum_eq_zero, List.sum_eq_zero]
  · intro minutes member
    obtain ⟨session, listed, rfl⟩ := List.mem_map.mp member
    exact (zero session listed).2
  · intro minutes member
    obtain ⟨session, listed, rfl⟩ := List.mem_map.mp member
    exact (zero session listed).1

theorem dayEntry_keyed (sessions : List Session) (date : Int) : (dayEntry sessions date).date = date := rfl

/-- A day that is not kept was cut, and is cut again, or had no play time. -/
theorem addDay_updates (sessions : List Session) (session : Session) :
    addDay (buckets (newest recentDaysCap (playDates sessions)) (dayEntry sessions)) session.durationMin session.activeMin
        session.date =
      buckets (newest recentDaysCap (insert session.date (playDates sessions))) (dayEntry (sessions ++ [session])) := by
  have keyed := dayEntry_keyed sessions
  unfold addDay
  by_cases kept : session.date ∈ newest recentDaysCap (playDates sessions)
  · have old : insert session.date (playDates sessions) = playDates sessions :=
      Finset.insert_eq_of_mem (newest_subset _ _ kept)
    rw [changeFirst_present keyed kept, old]
    refine buckets_congr fun date _ => ?_
    rw [dayEntry_append]
    by_cases same : session.date = date
    · subst same
      rw [Function.update_self, if_pos rfl]
      rfl
    · rw [Function.update_of_ne (Ne.symm same), if_neg same]
  · rw [changeFirst_absent keyed kept]
    dsimp only
    rw [sortBy_append keyed kept, drop_buckets, newest_insert]
    refine buckets_congr fun date member => ?_
    rw [dayEntry_append]
    by_cases same : session.date = date
    · subst same
      have fresh : session.date ∉ playDates sessions := by
        intro old
        rw [Finset.insert_eq_of_mem old] at member
        exact kept member
      rw [Function.update_self, if_pos rfl, dayEntry_of_unplayed fresh, zero_add, zero_add]
    · rw [Function.update_of_ne (Ne.symm same), if_neg same]

/-- The entries are those of the newest dates with play time, with all their minutes. -/
theorem recentDays_updates (sessions : List Session) :
    (updates sessions).recentDays = buckets (newest recentDaysCap (playDates sessions)) (dayEntry sessions) := by
  induction sessions using List.reverseRecOn with
  | nil =>
    have none : newest recentDaysCap (playDates []) = ∅ := Finset.filter_empty _
    rw [none, buckets, Finset.sort_empty]
    rfl
  | append_singleton sessions session ih =>
    have fields := congrArg (fun fields => fields.2.2.2.2) (update_fields (updates sessions) session)
    have days : (updates (sessions ++ [session])).recentDays = if session.played then
        addDay (updates sessions).recentDays session.durationMin session.activeMin session.date
      else (updates sessions).recentDays := by
      rw [updates_append]
      exact fields
    rw [days, playDates_append]
    by_cases played : session.played = true
    · rw [if_pos played, if_pos played, ih]
      exact addDay_updates sessions session
    · rw [if_neg played, if_neg played, ih]
      refine buckets_congr fun date _ => ?_
      have none : session.durationMin = 0 ∧ session.activeMin = 0 := by
        unfold Session.played at played
        simpa using played
      rw [dayEntry_append, none.1, none.2]
      split_ifs
      · rw [add_zero, add_zero]
        rfl
      · rfl

theorem played_updates (sessions : List Session) :
    (updates sessions).playedMinTotal = (sessions.map Session.durationMin).sum ∧
      (updates sessions).activeMinTotal = (sessions.map Session.activeMin).sum ∧
      (updates sessions).lastPlayed = (sessions.map Session.endAt).foldl max 0 := by
  induction sessions using List.reverseRecOn with
  | nil => exact ⟨rfl, rfl, rfl⟩
  | append_singleton sessions session ih =>
    obtain ⟨played, active, last⟩ := ih
    have fields := update_fields (updates sessions) session
    simp only [fieldsOf, Prod.mk.injEq] at fields
    obtain ⟨played', active', last', -⟩ := fields
    rw [updates_append]
    refine ⟨?_, ?_, ?_⟩
    · rw [played', played, List.map_append, List.sum_append, List.map_singleton, List.sum_singleton]
    · rw [active', active, List.map_append, List.sum_append, List.map_singleton, List.sum_singleton]
    · rw [last', last, List.map_append, List.foldl_append]
      rfl

/-- The last offset to arrive. -/
theorem offset_updates (sessions : List Session) :
    (updates sessions).lastTzOffsetMin = latest Session.tzOffsetMin sessions := by
  induction sessions using List.reverseRecOn with
  | nil => rfl
  | append_singleton sessions session ih =>
    have fields := update_fields (updates sessions) session
    simp only [fieldsOf, Prod.mk.injEq] at fields
    rw [updates_append, fields.2.2.2.1, ih, latest_append]

/-! ## Any order -/

theorem dayEntry_perm {sessions other : List Session} (perm : other.Perm sessions) (date : Int) :
    dayEntry other date = dayEntry sessions date := by
  unfold dayEntry
  rw [((perm.filter _).map _).sum_eq, ((perm.filter _).map _).sum_eq]

theorem playDates_perm {sessions other : List Session} (perm : other.Perm sessions) : playDates other = playDates sessions :=
  List.toFinset_eq_of_perm _ _ ((perm.filter _).map _)

/-- Each session that sent an offset can come last. -/
theorem oneOffset_of_orderFree {sessions : List Session} (free : OrderFree sessions) : OneOffset sessions := by
  refine latest_perm_iff.mp fun other perm => ?_
  have fields := free.same other perm
  simp only [fieldsOf, Prod.mk.injEq] at fields
  rw [← offset_updates, ← offset_updates, fields.2.2.2.1]

/-- The stats do not depend on the order of arrival exactly when all sessions that sent an offset sent
the same one. -/
theorem orderFree_iff (sessions : List Session) : OrderFree sessions ↔ OneOffset sessions := by
  constructor
  · exact oneOffset_of_orderFree
  · intro one
    have days := recentDays_updates sessions
    refine ⟨fun other perm => ?_, ?_, ?_, ?_, fun date member => ?_⟩
    · obtain ⟨played, active, last⟩ := played_updates sessions
      obtain ⟨played', active', last'⟩ := played_updates other
      have entries : dayEntry other = dayEntry sessions := funext (dayEntry_perm perm)
      unfold fieldsOf
      rw [played, played', active, active', last, last', offset_updates, offset_updates, latest_perm_iff.mpr one other perm,
        recentDays_updates, days, entries, playDates_perm perm, (perm.map _).sum_eq, (perm.map _).sum_eq,
        (perm.map _).foldl_op_eq]
    · rw [offset_updates]
      exact ofNewest_of_one Session.endAt one
    · rw [days]
      exact increasing (dayEntry_keyed sessions)
    · rw [days, length_buckets, card_newest]
      exact min_le_left _ _
    · rw [days]
      exact mem_buckets.mpr ⟨date, member, rfl⟩

/-- The member travelled; the session from before the flight waited in the queue. -/
def travelled : List Session :=
  [{ durationMin := 30, activeMin := 20, tzOffsetMin := some 60, endAt := 2000000 },
    { durationMin := 10, activeMin := 10, tzOffsetMin := some 120, endAt := 1000000 }]

theorem late_offset : (updates travelled).lastTzOffsetMin = some 120 ∧ ¬ ∀ sessions, OrderFree sessions := by
  constructor
  · rw [offset_updates]
    rfl
  · intro all
    have one := oneOffset_of_orderFree (all travelled)
    exact absurd (one _ List.mem_cons_self _ (List.mem_cons_of_mem _ List.mem_cons_self) 60 120 rfl rfl) (by decide)

end Mello.Backend.GameStats
