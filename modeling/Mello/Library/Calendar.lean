import Mathlib

/-!
Days and ISO weeks of the proleptic Gregorian calendar. Days are counted from 1 January
1970, a Thursday, and times in milliseconds from the start of that day, UTC. A year has
the ISO week of its Thursday.
-/

namespace Mello.Library.Calendar

def dayMs : Int := 24 * 60 * 60 * 1000

def weekMs : Int := 7 * dayMs

def dayOf (ms : Int) : Int := ms / dayMs

/-- Days since Monday. -/
def sinceMonday (day : Int) : Int := (day + 3) % 7

/-- The year of a day and the days of that year before it. -/
def yearDay (day : Int) : Int × Int :=
  let d := day + 719162
  let n400 := d / 146097
  let d := d - 146097 * n400
  -- The last day of a cycle that ends in a leap year would begin another year.
  let n100 := d / 36524 - d / 36524 / 4
  let d := d - 36524 * n100
  let n4 := d / 1461
  let d := d - 1461 * n4
  let n1 := d / 365 - d / 365 / 4
  (400 * n400 + 100 * n100 + 4 * n4 + n1 + 1, d - 365 * n1)

/-- The first day of a year. -/
def firstDay (year : Int) : Int := 365 * (year - 1) + (year - 1) / 4 - (year - 1) / 100 + (year - 1) / 400 - 719162

structure Week where
  year : Int
  week : Int
  deriving DecidableEq, Repr

def thursday (day : Int) : Int := day - sinceMonday day + 3

def isoWeek (ms : Int) : Week :=
  let (year, yday) := yearDay (thursday (dayOf ms))
  ⟨year, yday / 7 + 1⟩

/-- The start of the Monday of a week. -/
def mondayStart (ms : Int) : Int := (dayOf ms - sinceMonday (dayOf ms)) * dayMs

/-- The years of a cycle, counted in centuries, leap years and single years. -/
theorem firstDay_cycle {n400 n100 n4 n1 : Int} (centuries : 0 ≤ n100 ∧ n100 ≤ 3) (leaps : 0 ≤ n4 ∧ n4 ≤ 24)
    (years : 0 ≤ n1 ∧ n1 ≤ 3) : firstDay (400 * n400 + 100 * n100 + 4 * n4 + n1 + 1) =
      146097 * n400 + 36524 * n100 + 1461 * n4 + 365 * n1 - 719162 := by
  unfold firstDay
  rw [add_sub_cancel_right]
  have four : (400 * n400 + 100 * n100 + 4 * n4 + n1) / 4 = 100 * n400 + 25 * n100 + n4 := by omega
  have hundred : (400 * n400 + 100 * n100 + 4 * n4 + n1) / 100 = 4 * n400 + n100 := by omega
  have cycle : (400 * n400 + 100 * n100 + 4 * n4 + n1) / 400 = n400 := by omega
  rw [four, hundred, cycle]
  ring

theorem firstDay_yearDay (day : Int) : firstDay (yearDay day).1 + (yearDay day).2 = day := by
  unfold yearDay
  dsimp only
  rw [firstDay_cycle]
  · omega
  · omega
  · omega
  · omega

theorem mondayStart_le (ms : Int) : mondayStart ms ≤ ms := by
  unfold mondayStart sinceMonday dayOf dayMs
  omega

theorem lt_mondayStart (ms : Int) : ms < mondayStart ms + weekMs := by
  unfold mondayStart sinceMonday dayOf weekMs dayMs
  omega

/-- The week of a time is the one whose Monday has begun and whose next Monday has not. -/
theorem mondayStart_eq {monday ms : Int} (starts : mondayStart monday = monday) :
    mondayStart ms = monday ↔ monday ≤ ms ∧ ms < monday + weekMs := by
  constructor
  · rintro rfl
    exact ⟨mondayStart_le ms, lt_mondayStart ms⟩
  · rintro ⟨after, before⟩
    unfold mondayStart sinceMonday dayOf weekMs dayMs at *
    omega

theorem mondayStart_mondayStart (ms : Int) : mondayStart (mondayStart ms) = mondayStart ms := by
  unfold mondayStart sinceMonday dayOf dayMs
  omega

theorem mondayStart_mono {first second : Int} (before : first ≤ second) : mondayStart first ≤ mondayStart second := by
  unfold mondayStart sinceMonday dayOf dayMs
  omega

theorem thursday_mondayStart (ms : Int) : thursday (dayOf (mondayStart ms)) = thursday (dayOf ms) := by
  unfold thursday mondayStart sinceMonday dayOf dayMs
  omega

theorem isoWeek_mondayStart (ms : Int) : isoWeek (mondayStart ms) = isoWeek ms := by
  unfold isoWeek
  rw [thursday_mondayStart]

/-- Two times with one ISO week have one Monday. -/
theorem mondayStart_of_isoWeek {first second : Int} (same : isoWeek first = isoWeek second) :
    mondayStart first = mondayStart second := by
  have one := firstDay_yearDay (thursday (dayOf first))
  have two := firstDay_yearDay (thursday (dayOf second))
  unfold isoWeek at same
  dsimp only at same
  rw [Week.mk.injEq] at same
  obtain ⟨year, week⟩ := same
  rw [year] at one
  have close : thursday (dayOf first) - thursday (dayOf second) < 7 ∧
      thursday (dayOf second) - thursday (dayOf first) < 7 := by
    omega
  have monday : dayOf first - sinceMonday (dayOf first) = dayOf second - sinceMonday (dayOf second) := by
    unfold thursday sinceMonday at close
    unfold sinceMonday
    omega
  unfold mondayStart
  rw [monday]

example : isoWeek (dayMs * 20454) = ⟨2026, 1⟩ := by decide

end Mello.Library.Calendar
