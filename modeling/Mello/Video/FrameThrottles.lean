import Mello.Video.FrameCadence

/-!
A capture backend's throttle in front of the pipeline's decimator, with one rule and one frame rate. The
backend may run before the decimator starts.
-/

namespace Mello.Video.FrameThrottles
open Mello.Library Pacing FrameCadence

/-- The decimator's rule is the one of the backends. -/
def decimationAccepts (timestampUs nextDeadlineUs outputFps : ℕ) : Bool × ℕ := frameCadenceAccepts timestampUs nextDeadlineUs outputFps

/-- The frames that the decimator accepts, from a deadline on. -/
def decimated (outputFps : ℕ) : ℕ → List ℕ → List ℕ
  | _, [] => []
  | deadline, t :: rest =>
    let (accepts, next) := decimationAccepts t deadline outputFps
    if accepts then t :: decimated outputFps next rest else decimated outputFps next rest

theorem decimated_eq_accepted (fps deadline : ℕ) (times : List ℕ) : decimated fps deadline times = accepted fps deadline times := by
  induction times generalizing deadline with
  | nil => rfl
  | cons t rest ih =>
    rw [decimated, accepted]
    dsimp only
    rw [ih]
    rfl

/-- The decimator, started at the first of the frames, accepts all that the backend passes of them. -/
def AllPass (fps backendDeadline : ℕ) (frames : List ℕ) : Prop :=
  decimated fps 0 (accepted fps backendDeadline frames) = accepted fps backendDeadline frames

/-- How late the frame is for the backend, up to the credit. -/
def startLateness (fps backendDeadline start : ℕ) : ℕ :=
  if backendDeadline = 0 then 0 else min (maxCreditUs fps) (start - backendDeadline)

/-- The lateness that the backend has at each interval after the start: the first frame that is due for an
interval cuts it to the credit that the frame leaves. -/
def latenessAt (fps : ℕ) (frames : List ℕ) : ℕ → ℕ → ℕ → ℕ
  | _, late, 0 => late
  | due, late, k + 1 =>
    let left := match frames.find? fun t => due ≤ t + toleranceUs fps with
      | none => late
      | some t => min late (maxCreditUs fps - (t - due))
    latenessAt fps frames (due + intervalUs fps) left k

/-- No frame comes earlier than the tolerance before one of the intervals after the start, by no more than the
lateness that the backend has there. -/
def NoneEarly (fps backendDeadline start : ℕ) (frames : List ℕ) : Prop :=
  ∀ k, ∀ t ∈ frames,
    let due := start + intervalUs fps + k * intervalUs fps
    let late := latenessAt fps frames (start + intervalUs fps) (startLateness fps backendDeadline start) k
    due ≤ t + toleranceUs fps + late → due ≤ t + toleranceUs fps

/-! ## Without an interval -/

section NoInterval

variable {fps : ℕ}

theorem frameCadenceAccepts_of_no_interval (zero : intervalUs fps = 0) (t deadline : ℕ) : (frameCadenceAccepts t deadline fps).1 = true := by
  have tolerance : toleranceUs fps = 0 := by rw [toleranceUs, zero]
  unfold frameCadenceAccepts
  split_ifs with all fresh early
  · rfl
  · rfl
  · rw [zero, tolerance] at fresh
    rw [tolerance] at early
    exact absurd (.inr early) fresh
  all_goals rfl

theorem accepted_of_no_interval (zero : intervalUs fps = 0) (deadline : ℕ) (times : List ℕ) : accepted fps deadline times = times := by
  induction times generalizing deadline with
  | nil => rfl
  | cons t rest ih =>
    rw [accepted]
    dsimp only
    rw [frameCadenceAccepts_of_no_interval zero, if_pos rfl, ih]

theorem startLateness_of_no_interval (zero : intervalUs fps = 0) (backendDeadline start : ℕ) : startLateness fps backendDeadline start = 0 := by
  have credit : maxCreditUs fps = 0 := by rw [maxCreditUs, zero]
  unfold startLateness
  rw [credit, Nat.zero_min, ite_self]

end NoInterval

theorem latenessAt_le (fps : ℕ) (frames : List ℕ) (due late k : ℕ) : latenessAt fps frames due late k ≤ late := by
  induction k generalizing due late with
  | zero => exact le_rfl
  | succ k ih =>
    rw [latenessAt]
    refine (ih _ _).trans ?_
    split
    · exact le_rfl
    · exact min_le_left _ _

/-- Without lateness at the start no frame is early. -/
theorem noneEarly_of_startLateness {fps backendDeadline start : ℕ} (zero : startLateness fps backendDeadline start = 0)
    (frames : List ℕ) : NoneEarly fps backendDeadline start frames := by
  intro k t _ due late within
  have bound := latenessAt_le fps frames (start + intervalUs fps) (startLateness fps backendDeadline start) k
  omega

/-! ## The start -/

section Start

variable {fps : ℕ} (pos : 0 < intervalUs fps)

theorem latenessAt_eq (frames : List ℕ) (due late k : ℕ) : latenessAt fps frames due late k = (pace fps pos).lateness frames due late k := by
  induction k generalizing due late with
  | zero => rfl
  | succ k ih => exact ih _ _

theorem noneEarly_iff (backendDeadline start : ℕ) (frames : List ℕ) : NoneEarly fps backendDeadline start frames ↔
    (pace fps pos).OnTime frames (start + intervalUs fps) (startLateness fps backendDeadline start) := by
  unfold NoneEarly
  simp only [latenessAt_eq pos]
  rfl

/-- The deadline of the backend after the first frame is behind the decimator's by the lateness, or not before it. -/
theorem start_cases {backendDeadline start next : ℕ}
    (begins : (pace fps pos).step (toDeadline backendDeadline) start = (true, next)) :
    (pace fps pos).Near start next ∧
      (next + startLateness fps backendDeadline start = start + intervalUs fps ∨
        startLateness fps backendDeadline start = 0 ∧ start + intervalUs fps ≤ next) := by
  have near := ((pace fps pos).step_snd_near (toDeadline backendDeadline) start).1 (congrArg Prod.fst begins)
  rw [begins] at near
  refine ⟨near, ?_⟩
  unfold startLateness
  rcases eq_or_ne backendDeadline 0 with fresh | present
  · rw [toDeadline, if_pos fresh, Pace.step_none] at begins
    rw [if_pos fresh]
    exact .inl (congrArg Prod.snd begins).symm
  · rw [toDeadline_of_ne present] at begins
    rw [if_neg present]
    unfold Pace.step pace at begins
    dsimp only at begins
    split_ifs at begins with far early
    · have moved : start + intervalUs fps = next := congrArg Prod.snd begins
      omega
    · cases congrArg Prod.fst begins
    · have moved : max backendDeadline (start - maxCreditUs fps) + intervalUs fps = next := congrArg Prod.snd begins
      omega

end Start

/-! ## What is claimed -/

/-- For every start of the decimator in a sequence of frames, at a frame that the backend passes: all frames that the
backend passes from there on are accepted exactly when none is early for the lateness that the backend started with. -/
theorem backend_frames_pass_iff {fps start : ℕ} {earlier later : List ℕ} (order : (earlier ++ start :: later).Pairwise (· ≤ ·))
    (fits : ∀ t ∈ earlier ++ start :: later, Fits fps t)
    (passes : (frameCadenceAccepts start (deadlineAfter fps 0 earlier) fps).1 = true) :
    AllPass fps (deadlineAfter fps 0 earlier) (start :: later) ↔ NoneEarly fps (deadlineAfter fps 0 earlier) start later := by
  unfold AllPass
  rw [decimated_eq_accepted]
  generalize deadlineAfter fps 0 earlier = backendDeadline at passes
  rcases Nat.eq_zero_or_pos (intervalUs fps) with zero | pos
  · exact iff_of_true (accepted_of_no_interval zero 0 _) (noneEarly_of_startLateness (startLateness_of_no_interval zero _ _) _)
  · have frames := (List.pairwise_append.mp order).2.1
    have fits : ∀ t ∈ start :: later, Fits fps t := fun t member => fits t (List.mem_append_right earlier member)
    rw [frameCadenceAccepts_eq_step pos (fits start List.mem_cons_self)] at passes
    obtain ⟨next, begins⟩ : ∃ next, (pace fps pos).step (toDeadline backendDeadline) start = (true, next) := ⟨_, Prod.ext passes rfl⟩
    obtain ⟨near, cases⟩ := start_cases pos begins
    have passed := (accepted_eq_taken pos fits backendDeadline).trans (Pace.taken_cons_of_take begins later)
    have inside : ∀ t ∈ accepted fps backendDeadline (start :: later), Fits fps t := by
      rw [accepted_eq_taken pos fits]
      exact fun t member => fits t ((Pace.taken_sublist _ _).subset member)
    have fresh : toDeadline 0 = none := if_pos rfl
    rw [accepted_eq_taken pos inside, passed, noneEarly_iff pos, fresh, Pace.taken_cons_of_take (Pace.step_none start),
      List.cons.injEq, and_iff_right rfl]
    change Pace.taken _ (some (start + intervalUs fps)) _ = _ ↔ _
    rcases cases with behind | ⟨onTime, after⟩
    · rw [← behind]
      refine Pace.taken_taken_iff frames ?_ ?_
      · rw [behind]
        exact Nat.le_add_right _ _
      · unfold startLateness
        split_ifs
        · exact Nat.zero_le _
        · exact min_le_left _ _
    · rw [onTime]
      exact iff_of_true (Pace.taken_taken_of_le frames near after) (Pace.onTime_zero _ _)

/-- At 60 fps, with a decimator that starts at a frame of the backend's grid. -/
theorem backend_frames_pass_onGrid : AllPass 60 (deadlineAfter 60 0 [1000000]) [1016666, 1020000, 1033332] :=
  (@backend_frames_pass_iff 60 1016666 [1000000] [1020000, 1033332] (by decide) (by decide) (by decide)).mpr
    (noneEarly_of_startLateness (by decide) _)

/-- A decimator that starts at a frame 12 ms late rejects the next one, 2.5 ms later. -/
theorem backend_frame_rejected : [1000000, 1029000, 1031500].Pairwise (· ≤ ·) ∧
    (frameCadenceAccepts 1029000 (deadlineAfter 60 0 [1000000]) 60).1 = true ∧
    accepted 60 (deadlineAfter 60 0 [1000000]) [1029000, 1031500] = [1029000, 1031500] ∧
    ¬ AllPass 60 (deadlineAfter 60 0 [1000000]) [1029000, 1031500] := by
  refine ⟨by decide, by decide, by decide, ?_⟩
  unfold AllPass
  decide

end Mello.Video.FrameThrottles
