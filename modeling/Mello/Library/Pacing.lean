import Mathlib

/-!
A pace of one event each interval, kept by a deadline that moves on by an interval with each event. An
event may be early by a tolerance, and lateness up to a credit is made up for.
-/

namespace Mello.Library.Pacing

/-- The fields of a pace, in one unit of time. -/
structure Pace where
  interval : ℕ
  tolerance : ℕ
  credit : ℕ
  room : credit + tolerance < interval

namespace Pace

variable (p : Pace)

/-- Whether an event at time `t` is taken, and the deadline after it. Without a deadline, or with one that
is too far ahead, the pace starts at `t`. -/
def step (deadline : Option ℕ) (t : ℕ) : Bool × ℕ :=
  match deadline with
  | none => (true, t + p.interval)
  | some d =>
    if t + p.interval + p.tolerance < d then (true, t + p.interval)
    else if t + p.tolerance < d then (false, d)
    else (true, max d (t - p.credit) + p.interval)

def taken : Option ℕ → List ℕ → List ℕ
  | _, [] => []
  | deadline, t :: rest =>
    let (take, next) := p.step deadline t
    if take then t :: taken (some next) rest else taken (some next) rest

def deadlineAfter : Option ℕ → List ℕ → Option ℕ
  | deadline, [] => deadline
  | deadline, t :: rest => deadlineAfter (some (p.step deadline t).2) rest

end Pace

/-- The times in `[start, stop)`. -/
def inWindow (start stop : ℕ) (times : List ℕ) : ℕ := times.countP fun t => start ≤ t ∧ t < stop

theorem inWindow_cons_of_mem {start stop t : ℕ} (times : List ℕ) (inside : start ≤ t ∧ t < stop) :
    inWindow start stop (t :: times) = inWindow start stop times + 1 :=
  List.countP_cons_of_pos (decide_eq_true inside)

theorem inWindow_cons_of_not_mem {start stop t : ℕ} (times : List ℕ) (outside : ¬ (start ≤ t ∧ t < stop)) :
    inWindow start stop (t :: times) = inWindow start stop times :=
  List.countP_cons_of_neg (by simpa using outside)

namespace Pace

variable {p : Pace} {d t : ℕ}

/-! ## One event -/

/-- The deadline is at most an interval and the tolerance after a time. -/
def Near (p : Pace) (last d : ℕ) : Prop := d ≤ last + p.interval + p.tolerance

theorem step_none (t : ℕ) : p.step none t = (true, t + p.interval) := rfl

theorem step_of_early (far : ¬ t + p.interval + p.tolerance < d) (early : t + p.tolerance < d) : p.step (some d) t = (false, d) := by
  unfold step
  dsimp only
  rw [if_neg far, if_pos early]

theorem step_of_due (due : d ≤ t + p.tolerance) : p.step (some d) t = (true, max d (t - p.credit) + p.interval) := by
  unfold step
  dsimp only
  rw [if_neg (by omega), if_neg (by omega)]

/-- What is left when the event comes after an earlier one, near the deadline. -/
theorem step_near (near : p.Near t d) :
    (t + p.tolerance < d ∧ p.step (some d) t = (false, d)) ∨
      (d ≤ t + p.tolerance ∧ p.step (some d) t = (true, max d (t - p.credit) + p.interval)) := by
  unfold Near at near
  rcases lt_or_ge (t + p.tolerance) d with early | due
  · exact .inl ⟨early, step_of_early (by omega) early⟩
  · exact .inr ⟨due, step_of_due due⟩

theorem near_of_due (due : d ≤ t + p.tolerance) : p.Near t (max d (t - p.credit) + p.interval) := by
  unfold Near
  omega

theorem taken_cons_of_take {deadline : Option ℕ} {next : ℕ} (take : p.step deadline t = (true, next)) (rest : List ℕ) :
    p.taken deadline (t :: rest) = t :: p.taken (some next) rest := by
  rw [taken, take]
  rfl

theorem taken_cons_of_not_take {deadline : Option ℕ} {next : ℕ} (skip : p.step deadline t = (false, next)) (rest : List ℕ) :
    p.taken deadline (t :: rest) = p.taken (some next) rest := by
  rw [taken, skip]
  rfl

/-! ## How far the deadline is ahead -/

theorem step_snd_near (deadline : Option ℕ) (t : ℕ) :
    ((p.step deadline t).1 = true → p.Near t (p.step deadline t).2) ∧
      ((p.step deadline t).1 = false → deadline = some (p.step deadline t).2) := by
  cases deadline with
  | none => exact ⟨fun _ => Nat.le_add_right _ _, fun skip => Bool.noConfusion skip⟩
  | some d =>
    unfold step
    dsimp only
    split_ifs with far early
    · exact ⟨fun _ => Nat.le_add_right _ _, fun skip => skip.elim⟩
    · exact ⟨fun take => take.elim, fun _ => rfl⟩
    · exact ⟨fun _ => near_of_due (not_lt.mp early), fun skip => skip.elim⟩

/-- Whatever the times are, the deadline is near the last event that was taken. -/
theorem deadlineAfter_near {deadline : Option ℕ} {last : Option ℕ} (start : ∀ d ∈ deadline, ∃ l ∈ last, p.Near l d) (times : List ℕ) :
    ∀ d ∈ p.deadlineAfter deadline times, ∃ l ∈ (p.taken deadline times).getLast?.or last, p.Near l d := by
  induction times generalizing deadline last with
  | nil => exact start
  | cons t rest ih =>
    obtain ⟨took, skipped⟩ := p.step_snd_near deadline t
    cases take : (p.step deadline t).1 with
    | true =>
      have steps : p.step deadline t = (true, (p.step deadline t).2) := Prod.ext take rfl
      rw [taken_cons_of_take steps, List.getLast?_cons]
      intro d found
      obtain ⟨l, member, near⟩ := @ih _ (some t) (fun d same => ⟨t, rfl, Option.mem_some_iff.mp same ▸ took take⟩) d found
      refine ⟨l, ?_, near⟩
      cases tail : (p.taken (some (p.step deadline t).2) rest).getLast? with
      | none => rwa [tail] at member
      | some other => rwa [tail] at member
    | false =>
      have steps : p.step deadline t = (false, (p.step deadline t).2) := Prod.ext take rfl
      rw [taken_cons_of_not_take steps]
      refine ih fun d same => start d ?_
      rw [skipped take]
      exact same

/-! ## How many events a window has -/

variable {last start stop : ℕ} {times : List ℕ}

theorem Near.later (near : p.Near last d) (le : last ≤ t) : p.Near t d := by
  unfold Near at near ⊢
  omega

/-- After a deadline, each event but the first takes an interval. -/
theorem inWindow_succ_before (order : (last :: times).Pairwise (· ≤ ·)) (near : p.Near last d) {n : ℕ}
    (count : inWindow start stop (p.taken (some d) times) = n + 1) : n * p.interval + d < stop + p.tolerance := by
  induction times generalizing last d n with
  | nil => exact absurd count.symm (Nat.succ_ne_zero n)
  | cons t rest ih =>
    obtain ⟨first, later⟩ := List.pairwise_cons.mp order
    rcases step_near (near.later (first t List.mem_cons_self)) with ⟨early, skip⟩ | ⟨due, take⟩
    · rw [taken_cons_of_not_take skip] at count
      exact ih later (near.later (first t List.mem_cons_self)) count
    · rw [taken_cons_of_take take] at count
      by_cases inside : start ≤ t ∧ t < stop
      · rw [inWindow_cons_of_mem _ inside] at count
        cases n with
        | zero => omega
        | succ n =>
          have after := ih later (near_of_due due) (Nat.succ.inj count)
          rw [Nat.succ_mul]
          omega
      · rw [inWindow_cons_of_not_mem _ inside] at count
        have after := ih later (near_of_due due) count
        omega

theorem inWindow_taken_le_of_taken {next width : ℕ} (inside : start ≤ t) (order : (t :: times).Pairwise (· ≤ ·)) (near : p.Near t next)
    (behind : t + p.interval ≤ next + p.credit) :
    inWindow start (start + width) (p.taken (some next) times) ≤ width / p.interval + 1 := by
  have room := p.room
  cases count : inWindow start (start + width) (p.taken (some next) times) with
  | zero => exact Nat.zero_le _
  | succ n =>
    have after := inWindow_succ_before order near count
    have fits : n ≤ width / p.interval := by
      refine (Nat.le_div_iff_mul_le (by omega)).mpr ?_
      omega
    exact Nat.succ_le_succ fits

/-- However late the events are made up for, a window has at most two more than its width gives. -/
theorem inWindow_taken_le {deadline : Option ℕ} {last : ℕ} (order : (last :: times).Pairwise (· ≤ ·))
    (near : ∀ d ∈ deadline, p.Near last d) (start width : ℕ) :
    inWindow start (start + width) (p.taken deadline times) ≤ width / p.interval + 2 := by
  have room := p.room
  induction times generalizing deadline last with
  | nil => exact Nat.zero_le _
  | cons t rest ih =>
    obtain ⟨first, later⟩ := List.pairwise_cons.mp order
    have taking {next : ℕ} (take : p.step deadline t = (true, next)) (near : p.Near t next) (behind : t + p.interval ≤ next + p.credit) :
        inWindow start (start + width) (p.taken deadline (t :: rest)) ≤ width / p.interval + 2 := by
      rw [taken_cons_of_take take]
      by_cases inside : start ≤ t ∧ t < start + width
      · rw [inWindow_cons_of_mem _ inside]
        exact Nat.succ_le_succ (inWindow_taken_le_of_taken inside.1 later near behind)
      · rw [inWindow_cons_of_not_mem _ inside]
        exact ih later fun d same => Option.mem_some_iff.mp same ▸ near
    cases deadline with
    | none => exact taking (step_none t) (Nat.le_add_right _ _) (Nat.le_add_right _ _)
    | some d =>
      have near := (near d rfl).later (first t List.mem_cons_self)
      rcases step_near near with ⟨early, skip⟩ | ⟨due, take⟩
      · rw [taken_cons_of_not_take skip]
        exact ih later fun d same => Option.mem_some_iff.mp same ▸ near
      · refine taking take (near_of_due due) ?_
        omega

/-- Times that do not go back and come at most the credit after one another. -/
def Steady (p : Pace) (times : List ℕ) : Prop := times.IsChain fun s t => s ≤ t ∧ t ≤ s + p.credit

/-- With an ahead deadline and steady times, the deadline moves on by the interval alone. -/
theorem step_steady (near : p.Near last d) (ahead : last + p.tolerance < d) (le : last ≤ t) (steady : t ≤ last + p.credit) :
    (t + p.tolerance < d ∧ p.step (some d) t = (false, d)) ∨ (d ≤ t + p.tolerance ∧ p.step (some d) t = (true, d + p.interval)) := by
  rcases step_near (near.later le) with early | ⟨due, take⟩
  · exact .inl early
  · refine .inr ⟨due, ?_⟩
    rw [take, max_eq_left (by omega)]

/-- From a deadline past the start of the window on, none of the intervals is without its event. -/
theorem lt_inWindow_of_after (steady : p.Steady (last :: times)) (near : p.Near last d) (ahead : last + p.tolerance < d)
    (past : start + p.tolerance ≤ d) (ends : stop ≤ (last :: times).getLast (List.cons_ne_nil last times)) :
    stop + p.tolerance < d + inWindow start stop (p.taken (some d) times) * p.interval + p.credit := by
  have room := p.room
  induction times generalizing last d with
  | nil =>
    rw [List.getLast_singleton] at ends
    omega
  | cons t rest ih =>
    obtain ⟨⟨le, gap⟩, later⟩ := List.isChain_cons_cons.mp steady
    rw [List.getLast_cons_cons] at ends
    rcases step_steady near ahead le gap with ⟨early, skip⟩ | ⟨due, take⟩
    · rw [taken_cons_of_not_take skip]
      exact ih later (near.later le) early past ends
    · rw [taken_cons_of_take take]
      rcases lt_or_ge t stop with inside | outside
      · have after := ih later (d := d + p.interval) (by unfold Near; omega) (by omega) (by omega) ends
        rw [inWindow_cons_of_mem _ ⟨by omega, inside⟩, Nat.succ_mul]
        omega
      · omega

theorem lt_inWindow (steady : p.Steady (last :: times)) (near : p.Near last d) (ahead : last + p.tolerance < d)
    (before : d ≤ start + p.tolerance + p.interval) (ends : stop ≤ (last :: times).getLast (List.cons_ne_nil last times)) :
    stop < start + p.interval + inWindow start stop (p.taken (some d) times) * p.interval + p.credit := by
  have room := p.room
  induction times generalizing last d with
  | nil =>
    rw [List.getLast_singleton] at ends
    omega
  | cons t rest ih =>
    obtain ⟨⟨le, gap⟩, later⟩ := List.isChain_cons_cons.mp steady
    rw [List.getLast_cons_cons] at ends
    rcases step_steady near ahead le gap with ⟨early, skip⟩ | ⟨due, take⟩
    · rw [taken_cons_of_not_take skip]
      exact ih later (near.later le) early before ends
    · have nextNear : p.Near t (d + p.interval) := by
        unfold Near
        omega
      rw [taken_cons_of_take take]
      by_cases inside : start ≤ t ∧ t < stop
      · have ahead : t + p.tolerance < d + p.interval := by omega
        have past : start + p.tolerance ≤ d + p.interval := by omega
        have after := lt_inWindow_of_after later nextNear ahead past ends
        rw [inWindow_cons_of_mem _ inside, Nat.succ_mul]
        omega
      · rw [inWindow_cons_of_not_mem _ inside]
        rcases lt_or_ge t start with early | late
        · exact ih later nextNear (by omega) (by omega) ends
        · omega

/-- With steady times, a window inside the run has at most one event less than its width gives. -/
theorem le_inWindow_taken {first : ℕ} {width : ℕ} (steady : p.Steady (first :: times)) (begins : first ≤ start)
    (ends : start + width ≤ (first :: times).getLast (List.cons_ne_nil first times)) :
    width / p.interval ≤ inWindow start (start + width) (p.taken none (first :: times)) + 1 := by
  have room := p.room
  have ahead : first + p.tolerance < first + p.interval := by omega
  have before : first + p.interval ≤ start + p.tolerance + p.interval := by omega
  have bound := lt_inWindow steady (Nat.le_add_right _ _) ahead before ends
  have fewer : inWindow start (start + width) (p.taken (some (first + p.interval)) times) ≤
      inWindow start (start + width) (p.taken none (first :: times)) := by
    rw [taken_cons_of_take (step_none first)]
    exact (List.sublist_cons_self first _).countP_le
  have whole : width / p.interval < inWindow start (start + width) (p.taken (some (first + p.interval)) times) + 2 := by
    refine Nat.div_lt_of_lt_mul ?_
    rw [Nat.mul_comm, Nat.add_mul]
    omega
  omega

/-! ## Two in a row -/

theorem taken_sublist (deadline : Option ℕ) (times : List ℕ) : (p.taken deadline times).Sublist times := by
  induction times generalizing deadline with
  | nil => exact List.Sublist.refl []
  | cons t rest ih =>
    rw [taken]
    dsimp only
    split_ifs
    · exact (ih _).cons_cons t
    · exact (ih _).cons t

/-- A second pace whose deadline is not later takes all that the first one takes. -/
theorem taken_taken_of_le {u : ℕ} (order : (last :: times).Pairwise (· ≤ ·)) (near : p.Near last d) (le : u ≤ d) :
    p.taken (some u) (p.taken (some d) times) = p.taken (some d) times := by
  induction times generalizing last d u with
  | nil => rfl
  | cons t rest ih =>
    obtain ⟨first, later⟩ := List.pairwise_cons.mp order
    have near := near.later (first t List.mem_cons_self)
    rcases step_near near with ⟨early, skip⟩ | ⟨due, take⟩
    · rw [taken_cons_of_not_take skip]
      exact ih later near le
    · have second : p.step (some u) t = (true, max u (t - p.credit) + p.interval) := step_of_due (le.trans due)
      rw [taken_cons_of_take take, taken_cons_of_take second]
      exact congrArg (t :: ·) (ih later (near_of_due due) (Nat.add_le_add_right (max_le_max_right _ le) _))

/-- The lateness left at each slot from `slot` on: the first event of a slot cuts it to the credit that the
event leaves. -/
def lateness (p : Pace) (times : List ℕ) : ℕ → ℕ → ℕ → ℕ
  | _, late, 0 => late
  | slot, late, k + 1 =>
    let left := match times.find? fun t => slot ≤ t + p.tolerance with
      | none => late
      | some t => min late (p.credit - (t - slot))
    lateness p times (slot + p.interval) left k

/-- No event comes before its slot by less than the lateness left. -/
def OnTime (p : Pace) (times : List ℕ) (slot late : ℕ) : Prop :=
  ∀ k, ∀ t ∈ times, slot + k * p.interval ≤ t + p.tolerance + p.lateness times slot late k → slot + k * p.interval ≤ t + p.tolerance

section Slots

variable {rest : List ℕ} {slot late : ℕ}

theorem lateness_le (times : List ℕ) (slot late k : ℕ) : p.lateness times slot late k ≤ late := by
  induction k generalizing slot late with
  | zero => exact le_rfl
  | succ k ih =>
    rw [lateness]
    refine (ih _ _).trans ?_
    split
    · exact le_rfl
    · exact min_le_left _ _

/-- An event before all slots is in none. -/
theorem lateness_cons_of_before (before : t + p.tolerance < slot) (k : ℕ) :
    p.lateness (t :: rest) slot late k = p.lateness rest slot late k := by
  induction k generalizing slot late with
  | zero => rfl
  | succ k ih =>
    have skip : (t :: rest).find? (fun t => slot ≤ t + p.tolerance) = rest.find? fun t => slot ≤ t + p.tolerance :=
      List.find?_cons_of_neg (by simpa using before)
    rw [lateness, lateness, skip]
    exact ih (by omega)

theorem lateness_cons_of_in (inside : slot ≤ t + p.tolerance) (soon : t + p.tolerance < slot + p.interval) (k : ℕ) :
    p.lateness (t :: rest) slot late (k + 1) = p.lateness rest (slot + p.interval) (min late (p.credit - (t - slot))) k := by
  have found : (t :: rest).find? (fun t => slot ≤ t + p.tolerance) = some t := List.find?_cons_of_pos (by simpa using inside)
  rw [lateness, found]
  exact lateness_cons_of_before soon k

theorem onTime_cons_of_before (before : t + p.tolerance + late < slot) : p.OnTime (t :: rest) slot late ↔ p.OnTime rest slot late := by
  have same (k : ℕ) := @lateness_cons_of_before p t rest slot late (by omega) k
  unfold OnTime
  simp only [same, List.forall_mem_cons]
  refine forall_congr' fun k => and_iff_right fun within => ?_
  have bound := p.lateness_le rest slot late k
  have ahead := Nat.zero_le (k * p.interval)
  omega

theorem onTime_cons_of_in (order : ∀ s ∈ rest, t ≤ s) (inside : slot ≤ t + p.tolerance) (soon : t ≤ slot + p.credit) :
    p.OnTime (t :: rest) slot late ↔ p.OnTime rest (slot + p.interval) (min late (p.credit - (t - slot))) := by
  have room := p.room
  have shift (k : ℕ) : slot + (k + 1) * p.interval = slot + p.interval + k * p.interval := by ring
  have next (k : ℕ) := @lateness_cons_of_in p t rest slot late inside (by omega) k
  constructor
  · intro onTime k s member within
    have later := onTime (k + 1) s (List.mem_cons_of_mem t member)
    rw [next, shift] at later
    exact later within
  · intro onTime k s member within
    cases k with
    | zero =>
      rcases List.mem_cons.mp member with rfl | member
      · rwa [Nat.zero_mul]
      · have after := order s member
        omega
    | succ k =>
      rw [next, shift] at within
      rw [shift]
      rcases List.mem_cons.mp member with rfl | member
      · have bound := p.lateness_le rest (slot + p.interval) (min late (p.credit - (s - slot))) k
        have cut := min_le_right late (p.credit - (s - slot))
        have ahead := Nat.zero_le (k * p.interval)
        omega
      · exact onTime k s member within

/-- After a stall of the whole credit all events are on time. -/
theorem onTime_cons_of_stalled (order : ∀ s ∈ rest, t ≤ s) (stalled : slot + p.credit ≤ t) : p.OnTime (t :: rest) slot late := by
  have found : (t :: rest).find? (fun t => slot ≤ t + p.tolerance) = some t := List.find?_cons_of_pos (decide_eq_true (by omega))
  intro k s member within
  cases k with
  | zero =>
    rcases List.mem_cons.mp member with rfl | member
    · omega
    · have after := order s member
      omega
  | succ k =>
    rw [lateness, found] at within
    dsimp only at within
    have bound := p.lateness_le (t :: rest) (slot + p.interval) (min late (p.credit - (t - slot))) k
    omega

/-- Without lateness all events are on time. -/
theorem onTime_zero (times : List ℕ) (slot : ℕ) : p.OnTime times slot 0 := by
  intro k t _ within
  have bound := p.lateness_le times slot 0 k
  omega

end Slots

/-- A second pace that is behind the first one by `late` takes all that the first one takes exactly when the
events are on time. -/
theorem taken_taken_iff {late : ℕ} (order : (last :: times).Pairwise (· ≤ ·)) (near : p.Near last (d + late))
    (capped : late ≤ p.credit) :
    p.taken (some (d + late)) (p.taken (some d) times) = p.taken (some d) times ↔ p.OnTime times (d + late) late := by
  have room := p.room
  induction times generalizing last d late with
  | nil => exact iff_of_true rfl nofun
  | cons t rest ih =>
    obtain ⟨first, later⟩ := List.pairwise_cons.mp order
    obtain ⟨after, -⟩ := List.pairwise_cons.mp later
    have near := near.later (first t List.mem_cons_self)
    have behind : p.Near t d := (Nat.le_add_right d late).trans near
    rcases step_near behind with ⟨early, skip⟩ | ⟨due, take⟩
    · rw [taken_cons_of_not_take skip, onTime_cons_of_before (by omega)]
      exact ih later near capped
    · rw [taken_cons_of_take take]
      rcases step_near near with ⟨early, skip⟩ | ⟨inside, second⟩
      · rw [taken_cons_of_not_take skip]
        refine iff_of_false ?_ ?_
        · intro same
          have shorter := (p.taken_sublist (some (d + late)) (p.taken (some (max d (t - p.credit) + p.interval)) rest)).length_le
          rw [same, List.length_cons] at shorter
          omega
        · intro onTime
          have inTime := onTime 0 t List.mem_cons_self
          rw [Nat.zero_mul, lateness] at inTime
          omega
      · rw [taken_cons_of_take second, List.cons.injEq, and_iff_right rfl]
        rcases le_or_gt t (d + late + p.credit) with soon | long
        · rw [onTime_cons_of_in after inside soon]
          have slot : max (d + late) (t - p.credit) + p.interval =
              max d (t - p.credit) + p.interval + min late (p.credit - (t - (d + late))) := by omega
          have whole : d + late + p.interval = max d (t - p.credit) + p.interval + min late (p.credit - (t - (d + late))) := by omega
          rw [slot, whole]
          refine ih later ?_ ((min_le_left _ _).trans capped)
          rw [← slot]
          exact near_of_due inside
        · -- after a stall both deadlines are the same
          have same : max (d + late) (t - p.credit) = max d (t - p.credit) := by omega
          rw [same]
          exact iff_of_true (taken_taken_of_le later (near_of_due due) le_rfl) (onTime_cons_of_stalled after long.le)

end Pace

end Mello.Library.Pacing
