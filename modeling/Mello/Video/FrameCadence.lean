import Mello.Library.Pacing

/-!
The frame-rate rule of the capture backends and the decimator. Times are `uint64_t` and wrap.
-/

namespace Mello.Video.FrameCadence
open Mello.Library Pacing

def intervalUs (fps : ℕ) : ℕ := 1000000 / fps

def toleranceUs (fps : ℕ) : ℕ := intervalUs fps / 8

def maxCreditUs (fps : ℕ) : ℕ := intervalUs fps * 3 / 4

/-- Whether the frame is accepted, and the next deadline. -/
def frameCadenceAccepts (timestampUs nextDeadlineUs fps : ℕ) : Bool × ℕ :=
  if fps = 0 then (true, nextDeadlineUs)
  else if nextDeadlineUs = 0 ∨ (timestampUs + intervalUs fps + toleranceUs fps) % 2 ^ 64 < nextDeadlineUs then
    (true, (timestampUs + intervalUs fps) % 2 ^ 64)
  else if (timestampUs + toleranceUs fps) % 2 ^ 64 < nextDeadlineUs then (false, nextDeadlineUs)
  else
    let deadline :=
      if (nextDeadlineUs + maxCreditUs fps) % 2 ^ 64 < timestampUs then (timestampUs + 2 ^ 64 - maxCreditUs fps) % 2 ^ 64
      else nextDeadlineUs
    (true, (deadline + intervalUs fps) % 2 ^ 64)

/-- The frames that are accepted, from a deadline on. -/
def accepted (fps : ℕ) : ℕ → List ℕ → List ℕ
  | _, [] => []
  | deadline, t :: rest =>
    let (accepts, next) := frameCadenceAccepts t deadline fps
    if accepts then t :: accepted fps next rest else accepted fps next rest

def deadlineAfter (fps : ℕ) : ℕ → List ℕ → ℕ
  | deadline, [] => deadline
  | deadline, t :: rest => deadlineAfter fps (frameCadenceAccepts t deadline fps).2 rest

/-! ## Without wraps -/

/-- The pace of the frames. -/
def pace (fps : ℕ) (pos : 0 < intervalUs fps) : Pace where
  interval := intervalUs fps
  tolerance := toleranceUs fps
  credit := maxCreditUs fps
  room := by
    unfold maxCreditUs toleranceUs
    omega

/-- No deadline is 0. -/
def toDeadline (deadline : ℕ) : Option ℕ := if deadline = 0 then none else some deadline

/-- A time whose next deadlines do not wrap. -/
def Fits (fps t : ℕ) : Prop := t + intervalUs fps + toleranceUs fps < 2 ^ 64

section Pace

variable {fps : ℕ} (pos : 0 < intervalUs fps)

theorem toDeadline_of_ne {deadline : ℕ} (present : deadline ≠ 0) : toDeadline deadline = some deadline := if_neg present

theorem frameCadenceAccepts_eq_step {t : ℕ} (fits : Fits fps t) (deadline : ℕ) :
    frameCadenceAccepts t deadline fps = (pace fps pos).step (toDeadline deadline) t := by
  have present : fps ≠ 0 := by
    rintro rfl
    exact absurd pos (by decide)
  unfold Fits at fits
  have room := (pace fps pos).room
  change maxCreditUs fps + toleranceUs fps < intervalUs fps at room
  unfold frameCadenceAccepts
  rw [if_neg present, Nat.mod_eq_of_lt fits, Nat.mod_eq_of_lt (by omega : t + intervalUs fps < 2 ^ 64),
    Nat.mod_eq_of_lt (by omega : t + toleranceUs fps < 2 ^ 64)]
  rcases eq_or_ne deadline 0 with rfl | there
  · rw [if_pos (.inl rfl)]
    rfl
  · rw [toDeadline_of_ne there]
    unfold Pace.step pace
    dsimp only
    rcases lt_or_ge (t + intervalUs fps + toleranceUs fps) deadline with far | near
    · rw [if_pos (.inr far), if_pos far]
    · rw [if_neg (not_or_intro there (not_lt.mpr near)), if_neg (not_lt.mpr near)]
      rcases lt_or_ge (t + toleranceUs fps) deadline with early | due
      · rw [if_pos early, if_pos early]
      · have kept : (if (deadline + maxCreditUs fps) % 2 ^ 64 < t then (t + 2 ^ 64 - maxCreditUs fps) % 2 ^ 64 else deadline) =
            max deadline (t - maxCreditUs fps) := by
          rw [Nat.mod_eq_of_lt (by omega : deadline + maxCreditUs fps < 2 ^ 64)]
          split_ifs with late <;> omega
        rw [if_neg (not_lt.mpr due), if_neg (not_lt.mpr due), kept, Nat.mod_eq_of_lt]
        omega

theorem step_pos (deadline : Option ℕ) (t : ℕ) (there : ∀ d ∈ deadline, d ≠ 0) : ((pace fps pos).step deadline t).2 ≠ 0 := by
  unfold Pace.step pace
  cases deadline with
  | none =>
    dsimp only
    omega
  | some d =>
    have present := there d rfl
    dsimp only
    split_ifs
    all_goals
      dsimp only
      omega

theorem toDeadline_ne (deadline : ℕ) : ∀ d ∈ toDeadline deadline, d ≠ 0 := by
  unfold toDeadline
  split_ifs with absent
  · exact fun d member => absurd member (Option.not_mem_none d)
  · rintro d ⟨⟩
    exact absent

theorem toDeadline_next {t : ℕ} (fits : Fits fps t) (deadline : ℕ) :
    toDeadline (frameCadenceAccepts t deadline fps).2 = some ((pace fps pos).step (toDeadline deadline) t).2 := by
  rw [frameCadenceAccepts_eq_step pos fits]
  exact toDeadline_of_ne (step_pos pos _ t (toDeadline_ne deadline))

theorem accepted_eq_taken {times : List ℕ} (fits : ∀ t ∈ times, Fits fps t) (deadline : ℕ) :
    accepted fps deadline times = (pace fps pos).taken (toDeadline deadline) times := by
  induction times generalizing deadline with
  | nil => rfl
  | cons t rest ih =>
    obtain ⟨first, later⟩ := List.forall_mem_cons.mp fits
    rw [accepted, Pace.taken]
    dsimp only
    rw [ih later, toDeadline_next pos first, frameCadenceAccepts_eq_step pos first]

theorem deadlineAfter_eq {times : List ℕ} (fits : ∀ t ∈ times, Fits fps t) (deadline : ℕ) :
    toDeadline (deadlineAfter fps deadline times) = (pace fps pos).deadlineAfter (toDeadline deadline) times := by
  induction times generalizing deadline with
  | nil => rfl
  | cons t rest ih =>
    obtain ⟨first, later⟩ := List.forall_mem_cons.mp fits
    rw [deadlineAfter, Pace.deadlineAfter, ih later, toDeadline_next pos first]

end Pace

/-! ## What is claimed -/

instance (fps t : ℕ) : Decidable (Fits fps t) := inferInstanceAs (Decidable (_ < _))

/-- Times that do not go back, and come at most 3/4 of an interval after one another. -/
def Steady (fps : ℕ) (times : List ℕ) : Prop := times.IsChain fun s t => s ≤ t ∧ 4 * (t - s) ≤ 3 * intervalUs fps

instance (fps : ℕ) (times : List ℕ) : Decidable (Steady fps times) := inferInstanceAs (Decidable (List.IsChain _ times))

/-- No burst and no loss in any window, and a deadline that is never far ahead, for times whose next
deadlines do not wrap. -/
theorem frame_cadence_bounds {fps : ℕ} (wide : 8 ≤ intervalUs fps) {times : List ℕ} (fits : ∀ t ∈ times, Fits fps t) :
    (times.Pairwise (· ≤ ·) → ∀ start width,
      inWindow start (start + width) (accepted fps 0 times) ≤ width / intervalUs fps + 2) ∧
    (Steady fps times → ∀ first ∈ times.head?, ∀ final ∈ times.getLast?, ∀ start width, first ≤ start → start + width ≤ final →
      width / intervalUs fps - 1 ≤ inWindow start (start + width) (accepted fps 0 times)) ∧
    ∀ last ∈ (accepted fps 0 times).getLast?, deadlineAfter fps 0 times ≤ last + intervalUs fps + toleranceUs fps := by
  have pos : 0 < intervalUs fps := by omega
  have fresh : ∀ d ∈ toDeadline 0, ∃ l ∈ (none : Option ℕ), (pace fps pos).Near l d :=
    fun d absent => absurd absent (Option.not_mem_none d)
  rw [accepted_eq_taken pos fits]
  refine ⟨?_, ?_, ?_⟩
  · intro order start width
    have ordered : (0 :: times).Pairwise (· ≤ ·) := List.pairwise_cons.mpr ⟨fun t _ => Nat.zero_le t, order⟩
    exact Pace.inWindow_taken_le ordered (fun d absent => absurd absent (Option.not_mem_none d)) start width
  · intro steady first begins final ends start width after before
    cases times with
    | nil => exact absurd begins (Option.not_mem_none first)
    | cons t rest =>
      obtain rfl : t = first := Option.some.inj begins
      have last : (t :: rest).getLast (List.cons_ne_nil t rest) = final :=
        Option.some.inj ((List.getLast?_eq_some_getLast (List.cons_ne_nil t rest)).symm.trans ends)
      have chain : (pace fps pos).Steady (t :: rest) := by
        refine steady.imp fun s t next => ⟨next.1, ?_⟩
        have gap := next.2
        change t ≤ s + intervalUs fps * 3 / 4
        omega
      have bound := Pace.le_inWindow_taken chain after (last ▸ before)
      exact Nat.sub_le_iff_le_add.mpr bound
  · intro last taken
    have near := deadlineAfter_eq pos fits 0 ▸ Pace.deadlineAfter_near fresh times
    rcases eq_or_ne (deadlineAfter fps 0 times) 0 with none' | there
    · rw [none']
      exact Nat.zero_le _
    · rw [toDeadline_of_ne there, taken, Option.or_none] at near
      obtain ⟨l, ⟨⟩, bound⟩ := near _ rfl
      exact bound

/-- At a source of 100 fps. -/
theorem frame_cadence_bounds_steady : inWindow 1000 51000 (accepted 60 0 [1000, 11000, 21000, 31000, 41000, 51000]) ≤ 50000 / 16666 + 2 ∧
    50000 / 16666 - 1 ≤ inWindow 1000 51000 (accepted 60 0 [1000, 11000, 21000, 31000, 41000, 51000]) := by
  have bounds := @frame_cadence_bounds 60 (by decide) [1000, 11000, 21000, 31000, 41000, 51000] (by decide)
  exact ⟨bounds.1 (by decide) 1000 50000, bounds.2.1 (by decide) 1000 rfl 51000 rfl 1000 50000 (by decide) (by decide)⟩

/-- Three frames at one time, where the next deadline wraps: all are accepted. -/
theorem wrapped_burst : [2 ^ 64 - 16665, 2 ^ 64 - 16665, 2 ^ 64 - 16665].Pairwise (· ≤ ·) ∧
    1 / intervalUs 60 + 2 < inWindow (2 ^ 64 - 16665) (2 ^ 64 - 16665 + 1)
      (accepted 60 0 [2 ^ 64 - 16665, 2 ^ 64 - 16665, 2 ^ 64 - 16665]) := by
  decide +kernel

end Mello.Video.FrameCadence
