import Mathlib.Data.List.Basic
import Mathlib.Data.List.Pairwise
import Mathlib.Tactic.Common

/-!
A journal of the timed calls of a run, and the two marks that such a program keeps
instead of it: since when a condition held at every call, and when something last
changed.
-/

namespace Mello.Library.Journal

/-- One call: its time and the states on both sides of it. -/
structure Moment (State : Type) where
  now : ℕ
  before : State
  after : State

section
variable {State Event : Type} (step : State → Event → State) (pick : Event → Option ℕ)

/-- The moment of an event that `pick` gives a time. -/
def momentOf (s : State) (event : Event) : List (Moment State) :=
  ((pick event).map fun now => ⟨now, s, step s event⟩).toList

def moments : State → List Event → List (Moment State)
  | _, [] => []
  | s, event :: rest => momentOf step pick s event ++ moments (step s event) rest

theorem moments_append (s : State) (events rest : List Event) :
    moments step pick s (events ++ rest) = moments step pick s events ++ moments step pick (events.foldl step s) rest := by
  induction events generalizing s with
  | nil => rfl
  | cons first others ih => rw [List.cons_append, moments, moments, ih, List.append_assoc, List.foldl_cons]

theorem moments_concat (s : State) (events : List Event) (event : Event) :
    moments step pick s (events ++ [event]) =
      moments step pick s events ++ momentOf step pick (events.foldl step s) event := by
  rw [moments_append, moments, moments, List.append_nil]

theorem momentOf_none {event : Event} (s : State) (none : pick event = none) :
    momentOf step pick s event = [] := by
  rw [momentOf, none]
  rfl

theorem momentOf_some {event : Event} {now : ℕ} (s : State) (timed : pick event = some now) :
    momentOf step pick s event = [⟨now, s, step s event⟩] := by
  rw [momentOf, timed]
  rfl

/-- Every moment is the step of an event of the run, at its time. -/
theorem exists_split_of_mem {s : State} {events : List Event} {moment : Moment State}
    (member : moment ∈ moments step pick s events) :
    ∃ before event after, events = before ++ event :: after ∧ pick event = some moment.now ∧
      moment.before = before.foldl step s ∧ moment.after = step moment.before event := by
  induction events generalizing s with
  | nil => cases member
  | cons event rest ih =>
    rcases List.mem_append.mp member with first | later
    · refine ⟨[], event, rest, rfl, ?_⟩
      cases timed : pick event with
      | none =>
        rw [momentOf_none step pick s timed] at first
        cases first
      | some now =>
        rw [momentOf_some step pick s timed, List.mem_singleton] at first
        subst first
        exact ⟨rfl, rfl, rfl⟩
    · obtain ⟨before, other, after, rfl, found⟩ := ih later
      exact ⟨event :: before, other, after, rfl, found⟩

theorem mem_moments_split {s : State} {before after : List Event} {event : Event} {now : ℕ}
    (timed : pick event = some now) :
    ⟨now, before.foldl step s, step (before.foldl step s) event⟩ ∈
      moments step pick s (before ++ event :: after) := by
  induction before generalizing s with
  | nil =>
    rw [List.nil_append, moments, momentOf_some step pick s timed]
    exact List.mem_append_left _ (List.mem_singleton_self _)
  | cons first rest ih =>
    rw [List.cons_append, moments]
    exact List.mem_append_right _ ih

end

/-- The times of the events do not decrease. -/
def Ordered {Event : Type} (time : Event → Option ℕ) (events : List Event) : Prop :=
  (events.filterMap time).Pairwise (· ≤ ·)

theorem Ordered.of_concat {Event : Type} {time : Event → Option ℕ} {events : List Event} {event : Event}
    (ordered : Ordered time (events ++ [event])) :
    Ordered time events ∧
      ∀ earlier ∈ events, ∀ then_ now, time earlier = some then_ → time event = some now → then_ ≤ now := by
  rw [Ordered, List.filterMap_append, List.pairwise_append] at ordered
  refine ⟨ordered.1, ?_⟩
  intro earlier member then_ now first second
  apply ordered.2.2 then_ (List.mem_filterMap.mpr ⟨earlier, member, first⟩) now
  rw [List.mem_filterMap]
  exact ⟨event, List.mem_singleton_self event, second⟩

/-- What comes before an event in time comes before it in the run. -/
theorem Ordered.mem_before {Event : Type} {time pick : Event → Option ℕ} {before after : List Event} {event : Event}
    {now x : ℕ} (ordered : Ordered time (before ++ event :: after)) (timed : time event = some now)
    (picked : ∀ other y, pick other = some y → time other = some y)
    (member : x ∈ (before ++ event :: after).filterMap pick) (sooner : x < now) : x ∈ before.filterMap pick := by
  rw [Ordered, List.filterMap_append, List.filterMap_cons_some timed, List.pairwise_append,
    List.pairwise_cons] at ordered
  obtain ⟨-, ⟨later, -⟩, -⟩ := ordered
  rw [List.filterMap_append, List.mem_append] at member
  refine member.resolve_right ?_
  intro inside
  obtain ⟨other, found, at_⟩ := List.mem_filterMap.mp inside
  have same := picked other x at_
  rcases List.mem_cons.mp found with rfl | rest
  · rw [timed] at same
    obtain rfl := Option.some.inj same
    exact Nat.lt_irrefl _ sooner
  · exact Nat.not_lt.mpr (later x (List.mem_filterMap.mpr ⟨other, rest, same⟩)) sooner

/-- Calls that come at least every `gap` from `start` until `stop`. -/
def Paced (gap stop : ℕ) : ℕ → List ℕ → Prop
  | start, [] => stop ≤ start
  | start, next :: rest => next ≤ start + gap ∧ Paced gap stop next rest

instance decidablePaced (gap stop : ℕ) : ∀ start times, Decidable (Paced gap stop start times)
  | start, [] => inferInstanceAs (Decidable (stop ≤ start))
  | start, next :: rest =>
    have := decidablePaced gap stop next rest
    inferInstanceAs (Decidable (next ≤ start + gap ∧ Paced gap stop next rest))

theorem Paced.exists_mem {gap stop start t : ℕ} {times : List ℕ} (paced : Paced gap stop start times)
    (after : start ≤ t) (before : t < stop) : ∃ x ∈ times, t < x ∧ x ≤ t + gap := by
  induction times generalizing start with
  | nil => exact absurd before (Nat.not_lt.mpr (Nat.le_trans paced after))
  | cons next rest ih =>
    by_cases passed : next ≤ t
    · obtain ⟨x, member, inside⟩ := ih paced.2 passed
      exact ⟨x, List.mem_cons_of_mem _ member, inside⟩
    · exact ⟨next, List.mem_cons_self, Nat.not_le.mp passed, Nat.le_trans paced.1 (Nat.add_le_add_right after gap)⟩

/-- The calls that are left keep the pace, from any time between. -/
theorem Paced.rest {gap stop start t : ℕ} {times rest : List ℕ} (paced : Paced gap stop start (times ++ rest))
    (after : start ≤ t) (passed : ∀ x ∈ times, x ≤ t) : Paced gap stop t rest := by
  induction times generalizing start with
  | nil =>
    cases rest with
    | nil => exact Nat.le_trans paced after
    | cons next rest => exact ⟨Nat.le_trans paced.1 (Nat.add_le_add_right after gap), paced.2⟩
  | cons first others ih =>
    exact ih paced.2 (passed first List.mem_cons_self) fun x member => passed x (List.mem_cons_of_mem _ member)

/-! ## Marks -/

section
variable {α : Type} {holds marks follows : α → Prop} {time : α → ℕ} {log : List α} {entry : α}

/-- The last entries of a log all hold, and the first of these is from the time `since`. -/
def HeldSince (holds : α → Prop) (time : α → ℕ) (log : List α) (since : ℕ) : Prop :=
  ∃ early first later, log = early ++ first :: later ∧ time first = since ∧
    ∀ entry ∈ first :: later, holds entry

theorem HeldSince.concat {since : ℕ} (held : HeldSince holds time log since) (good : holds entry) :
    HeldSince holds time (log ++ [entry]) since := by
  obtain ⟨early, first, later, rfl, start, all⟩ := held
  refine ⟨early, first, later ++ [entry], by rw [List.append_assoc, List.cons_append], start, ?_⟩
  intro other member
  rw [← List.cons_append, List.mem_append, List.mem_singleton] at member
  rcases member with inside | rfl
  · exact all other inside
  · exact good

theorem heldSince_last (log : List α) (good : holds entry) :
    HeldSince holds time (log ++ [entry]) (time entry) := by
  refine ⟨log, entry, [], rfl, rfl, ?_⟩
  intro other member
  rw [List.mem_singleton.mp member]
  exact good

/-- What an entry tells of the log before it, for each entry in turn. -/
def Each (tells : List α → α → Prop) (log : List α) : Prop :=
  ∀ before entry after, log = before ++ entry :: after → tells before entry

theorem each_nil (tells : List α → α → Prop) : Each tells [] := by
  intro before entry after same
  exact absurd same.symm (List.append_ne_nil_of_right_ne_nil _ (List.cons_ne_nil _ _))

theorem Each.concat {tells : List α → α → Prop} (each : Each tells log) (last : tells log entry) :
    Each tells (log ++ [entry]) := by
  intro before other after same
  rcases List.eq_nil_or_concat after with rfl | ⟨front, final, rfl⟩
  · obtain ⟨rfl, entries⟩ := List.append_inj' same rfl
    obtain rfl := List.singleton_inj.mp entries
    exact last
  · rw [List.concat_eq_append, ← List.cons_append, ← List.append_assoc] at same
    exact each before other front (List.append_inj' same rfl).1

/-- A timer that runs since the first of the entries that hold up to now. -/
def Timer (holds : α → Prop) (time : α → ℕ) (log : List α) (timer : Option ℕ) : Prop :=
  ∀ since, timer = some since → HeldSince holds time log since

theorem timer_none (holds : α → Prop) (time : α → ℕ) (log : List α) : Timer holds time log none := nofun

/-- An entry that holds starts the timer, or keeps it. -/
theorem Timer.concat {timer : Option ℕ} (timed : Timer holds time log timer) (good : holds entry) :
    Timer holds time (log ++ [entry]) (some (timer.getD (time entry))) := by
  intro since started
  obtain rfl := Option.some.inj started
  cases timer with
  | none => exact heldSince_last log good
  | some since => exact (timed since rfl).concat good

/-- `last` is no earlier than any entry that marks. -/
def LastMark (marks : α → Prop) (time : α → ℕ) (log : List α) (last : Option ℕ) : Prop :=
  ∀ entry ∈ log, marks entry → ∃ mark, last = some mark ∧ time entry ≤ mark

theorem lastMark_nil (marks : α → Prop) (time : α → ℕ) (last : Option ℕ) : LastMark marks time [] last := by
  intro entry member
  cases member

theorem LastMark.concat_of_not {last : Option ℕ} (kept : LastMark marks time log last) (none : ¬marks entry) :
    LastMark marks time (log ++ [entry]) last := by
  intro other member marked
  rcases List.mem_append.mp member with inside | added
  · exact kept other inside marked
  · rw [List.mem_singleton.mp added] at marked
    exact absurd marked none

theorem lastMark_concat (sooner : ∀ other ∈ log, time other ≤ time entry) :
    LastMark marks time (log ++ [entry]) (some (time entry)) := by
  intro other member _
  refine ⟨time entry, rfl, ?_⟩
  rcases List.mem_append.mp member with inside | added
  · exact sooner other inside
  · obtain rfl := List.mem_singleton.mp added
    exact Nat.le_refl _

/-- An entry that follows one that marks comes at least `gap` after it. -/
def Apart (marks follows : α → Prop) (time : α → ℕ) (gap : ℕ) (log : List α) : Prop :=
  log.Pairwise fun first second => marks first → follows second → time first + gap ≤ time second

theorem apart_nil (marks follows : α → Prop) (time : α → ℕ) (gap : ℕ) : Apart marks follows time gap [] :=
  List.Pairwise.nil

theorem Apart.concat {gap : ℕ} {last : Option ℕ} (apart : Apart marks follows time gap log)
    (kept : LastMark marks time log last)
    (waited : follows entry → ∀ mark, last = some mark → mark + gap ≤ time entry) :
    Apart marks follows time gap (log ++ [entry]) := by
  apply List.pairwise_append.mpr
  refine ⟨apart, List.pairwise_singleton _ _, ?_⟩
  intro other inside added member marked follow
  rw [List.mem_singleton] at member
  subst member
  obtain ⟨mark, same, sooner⟩ := kept other inside marked
  exact Nat.le_trans (Nat.add_le_add_right sooner gap) (waited follow mark same)

end

end Mello.Library.Journal
