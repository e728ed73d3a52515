import Mathlib

/-!
The decisions of the A/V sync of one stream viewer, in exact arithmetic: which minimum delay the video
gets and which one the audio gets, from one measured offset after another.
-/

namespace Mello.Transport.AvSyncDecisions

structure Config where
  deadBandMs : ℚ := 20
  filterLength : ℤ := 4
  maxVideoStepMs : ℚ := 10
  maxAudioStepMs : ℚ := 40
  maxVideoDelayMs : ℚ := 150
  maxAudioDelayMs : ℚ := 250
  maxOffsetMs : ℚ := 1000
  bindingMarginMs : ℚ := 5

structure Decision where
  changed : Bool := false
  videoMinDelayMs : ℚ := 0
  audioMinDelayMs : ℤ := 0

structure AvSync where
  filtered : Option ℚ := none
  videoMinMs : ℚ := 0
  audioMinMs : ℚ := 0

/-- One measurement. The audio is late when the offset is positive. -/
structure Measurement where
  offsetMs : ℚ
  videoDelayMs : ℚ
  audioDelayMs : ℚ := 0
  audioOwnTargetMs : ℚ := -1

def AvSync.audioMinDelayMs (s : AvSync) : ℤ :=
  let rounded := s.audioMinMs + 1 / 2
  rounded.num.tdiv rounded.den

section Update

variable (c : Config) (s : AvSync) (m : Measurement)

/-- The filtered offset with the measurement in it. -/
def filter : ℚ :=
  let n : ℚ := max 1 c.filterLength
  match s.filtered with
  | some filtered => (filtered * (n - 1) + m.offsetMs) / n
  | none => m.offsetMs

/-- The audio minimum that is left when it is lowered for late audio: none where it does not bind. -/
def unbound (own audioMinMs : ℚ) : ℚ := if 0 < audioMinMs ∧ audioMinMs ≤ own + c.bindingMarginMs then 0 else audioMinMs

/-- The minima of the video and the audio when the audio is late by `want`. -/
def lateAudio (want : ℚ) : ℚ × ℚ :=
  let own := max 0 m.audioOwnTargetMs
  let audioMinMs := unbound c own s.audioMinMs
  if 0 < audioMinMs then
    (s.videoMinMs, unbound c own (audioMinMs - min (min audioMinMs want) c.maxAudioStepMs))
  else
    let base := max s.videoMinMs m.videoDelayMs
    (min (base + min want c.maxVideoStepMs) c.maxVideoDelayMs, audioMinMs)

/-- The same when the video is late by `late`. -/
def lateVideo (late : ℚ) : ℚ × ℚ :=
  let step := min late c.maxAudioStepMs
  if 0 < s.videoMinMs ∧ m.videoDelayMs ≤ s.videoMinMs + c.bindingMarginMs then (max 0 (s.videoMinMs - step), s.audioMinMs)
  else
    let base := max s.audioMinMs m.audioDelayMs
    let cap := min c.maxAudioDelayMs (max 0 m.videoDelayMs)
    (s.videoMinMs, if base < cap then min (base + step) cap else s.audioMinMs)

def moved (videoMinMs audioMinMs : ℚ) : Bool := 1 / 2 ≤ |videoMinMs - s.videoMinMs| ∨ 1 / 2 ≤ |audioMinMs - s.audioMinMs|

def update : AvSync × Decision :=
  let kept : Decision := { videoMinDelayMs := s.videoMinMs, audioMinDelayMs := s.audioMinDelayMs }
  if c.maxOffsetMs < |m.offsetMs| then (s, kept)
  else
    let want := filter c s m
    if |want| < c.deadBandMs then ({ s with filtered := some want }, kept)
    else
      let (videoMinMs, audioMinMs) := if 0 < want then lateAudio c s m want else lateVideo c s m (-want)
      let changed := moved s videoMinMs audioMinMs
      let next : AvSync := { filtered := if changed then none else some want, videoMinMs, audioMinMs }
      (next, { changed, videoMinDelayMs := videoMinMs, audioMinDelayMs := next.audioMinDelayMs })

def startAudio (audioMinDelayMs : ℚ) : AvSync :=
  { s with filtered := none, audioMinMs := min (max audioMinDelayMs 0) c.maxAudioDelayMs }

end Update

inductive Call where
  | update (m : Measurement)
  | startAudio (audioMinDelayMs : ℚ)
  | reset

def call (s : AvSync) : Call → AvSync
  | .update m => (update {} s m).1
  | .startAudio audioMinDelayMs => startAudio {} s audioMinDelayMs
  | .reset => {}

/-- The state after some calls, with the default configuration. -/
def after (calls : List Call) : AvSync := calls.foldl call {}

/-! ## What is claimed -/

structure Bounded (s : AvSync) : Prop where
  video : 0 ≤ s.videoMinMs ∧ s.videoMinMs ≤ 150
  audio : 0 ≤ s.audioMinMs ∧ s.audioMinMs ≤ 250

/-- What an update does to the minima. -/
structure Disciplined (s : AvSync) (m : Measurement) : Prop where
  late : 0 < filter {} s m → (update {} s m).1.audioMinMs ≤ s.audioMinMs ∧ s.videoMinMs ≤ (update {} s m).1.videoMinMs ∧
    (update {} s m).1.videoMinMs ≤ max s.videoMinMs m.videoDelayMs + 10
  early : filter {} s m < 0 → (update {} s m).1.videoMinMs ≤ s.videoMinMs ∧ s.audioMinMs ≤ (update {} s m).1.audioMinMs
  quiet : |filter {} s m| < 20 ∨ 1000 < |m.offsetMs| →
    (update {} s m).1.videoMinMs = s.videoMinMs ∧ (update {} s m).1.audioMinMs = s.audioMinMs
  changed : (update {} s m).2.changed = true ↔
    1 / 2 ≤ |(update {} s m).1.videoMinMs - s.videoMinMs| ∨ 1 / 2 ≤ |(update {} s m).1.audioMinMs - s.audioMinMs|
  emptied : (update {} s m).2.changed = true → (update {} s m).1.filtered = none

/-! ## One update -/

section Step

variable {s : AvSync} {m : Measurement} {want : ℚ}

theorem unbound_spec (own : ℚ) {audio : ℚ} (nonneg : 0 ≤ audio) : 0 ≤ unbound {} own audio ∧ unbound {} own audio ≤ audio := by
  unfold unbound
  split_ifs
  · exact ⟨le_rfl, nonneg⟩
  · exact ⟨nonneg, le_rfl⟩

/-- Late audio never has the audio wait longer or the video shorter. -/
theorem lateAudio_spec (bounded : Bounded s) (late : 0 < want) :
    (s.videoMinMs ≤ (lateAudio {} s m want).1 ∧ (lateAudio {} s m want).1 ≤ 150 ∧
      (lateAudio {} s m want).1 ≤ max s.videoMinMs m.videoDelayMs + 10) ∧
    0 ≤ (lateAudio {} s m want).2 ∧ (lateAudio {} s m want).2 ≤ s.audioMinMs := by
  obtain ⟨⟨videoLow, videoHigh⟩, audioLow, audioHigh⟩ := bounded
  have own := unbound_spec (max 0 m.audioOwnTargetMs) audioLow
  have base : s.videoMinMs ≤ max s.videoMinMs m.videoDelayMs := le_max_left _ _
  unfold lateAudio
  dsimp only
  split_ifs with binds
  · set audio := unbound {} (max 0 m.audioOwnTargetMs) s.audioMinMs
    have less : 0 ≤ min (min audio want) 40 := le_min (le_min own.1 late.le) (by norm_num)
    have most : min (min audio want) 40 ≤ audio := (min_le_left _ _).trans (min_le_left _ _)
    have rest := unbound_spec (max 0 m.audioOwnTargetMs) (sub_nonneg.mpr most)
    exact ⟨⟨le_rfl, videoHigh, by linarith⟩, rest.1, by linarith [rest.2]⟩
  · have step : 0 ≤ min want 10 := le_min late.le (by norm_num)
    have most : min want 10 ≤ 10 := min_le_right _ _
    refine ⟨⟨le_min (by linarith) videoHigh, min_le_right _ _, ?_⟩, own⟩
    exact (min_le_left _ _).trans (by linarith)

/-- Late video never has the video wait longer or the audio shorter. -/
theorem lateVideo_spec (bounded : Bounded s) (late : 0 < want) :
    (0 ≤ (lateVideo {} s m want).1 ∧ (lateVideo {} s m want).1 ≤ s.videoMinMs) ∧
    s.audioMinMs ≤ (lateVideo {} s m want).2 ∧ (lateVideo {} s m want).2 ≤ 250 := by
  obtain ⟨⟨videoLow, videoHigh⟩, audioLow, audioHigh⟩ := bounded
  have step : 0 ≤ min want 40 := le_min late.le (by norm_num)
  unfold lateVideo
  dsimp only
  split_ifs with binds room
  · exact ⟨⟨le_max_left _ _, max_le videoLow (by linarith)⟩, le_rfl, audioHigh⟩
  · have base : s.audioMinMs ≤ max s.audioMinMs m.audioDelayMs := le_max_left _ _
    refine ⟨⟨videoLow, le_rfl⟩, le_min (by linarith) (by linarith), ?_⟩
    exact (min_le_right _ _).trans (min_le_left _ _)
  · exact ⟨⟨videoLow, le_rfl⟩, le_rfl, audioHigh⟩

/-- The three ways that an update can go. -/
theorem update_cases (s : AvSync) (m : Measurement) :
    (1000 < |m.offsetMs| ∧ (update {} s m).1 = s ∧ (update {} s m).2.changed = false) ∨
    (|filter {} s m| < 20 ∧ (update {} s m).1 = { s with filtered := some (filter {} s m) } ∧ (update {} s m).2.changed = false) ∨
    (20 ≤ |filter {} s m| ∧ |m.offsetMs| ≤ 1000 ∧
      ((update {} s m).1.videoMinMs, (update {} s m).1.audioMinMs) =
        (if 0 < filter {} s m then lateAudio {} s m (filter {} s m) else lateVideo {} s m (-filter {} s m)) ∧
      (update {} s m).2.changed = moved s (update {} s m).1.videoMinMs (update {} s m).1.audioMinMs ∧
      (update {} s m).1.filtered = if (update {} s m).2.changed then none else some (filter {} s m)) := by
  unfold update
  dsimp only
  rcases lt_or_ge 1000 |m.offsetMs| with far | near
  · rw [if_pos far]
    exact .inl ⟨far, rfl, rfl⟩
  · rw [if_neg near.not_gt]
    rcases lt_or_ge |filter {} s m| 20 with quiet | loud
    · rw [if_pos quiet]
      exact .inr (.inl ⟨quiet, rfl, rfl⟩)
    · rw [if_neg loud.not_gt]
      exact .inr (.inr ⟨loud, near, rfl, rfl, rfl⟩)

theorem moved_iff (s : AvSync) (videoMinMs audioMinMs : ℚ) :
    moved s videoMinMs audioMinMs = true ↔ 1 / 2 ≤ |videoMinMs - s.videoMinMs| ∨ 1 / 2 ≤ |audioMinMs - s.audioMinMs| :=
  decide_eq_true_iff

/-- Where the minima stay, nothing is reported. -/
theorem disciplined_of_still (same : (update {} s m).1.videoMinMs = s.videoMinMs ∧ (update {} s m).1.audioMinMs = s.audioMinMs)
    (silent : (update {} s m).2.changed = false) : Disciplined s m where
  late _ := by
    rw [same.1, same.2]
    exact ⟨le_rfl, le_rfl, (le_max_left _ _).trans (by linarith)⟩
  early _ := by
    rw [same.1, same.2]
    exact ⟨le_rfl, le_rfl⟩
  quiet _ := same
  changed := by
    rw [same.1, same.2, silent, sub_self, sub_self, abs_zero]
    norm_num
  emptied reported := Bool.noConfusion (silent.symm.trans reported)

theorem disciplined (bounded : Bounded s) (m : Measurement) : Disciplined s m := by
  rcases update_cases s m with ⟨far, same, silent⟩ | ⟨quiet, same, silent⟩ | ⟨loud, near, minima, changed, emptied⟩
  · exact disciplined_of_still ⟨by rw [same], by rw [same]⟩ silent
  · exact disciplined_of_still ⟨by rw [same], by rw [same]⟩ silent
  · refine ⟨?_, ?_, ?_, ?_, ?_⟩
    · intro late
      rw [if_pos late] at minima
      obtain ⟨video, audio⟩ := Prod.mk.inj minima
      obtain ⟨⟨notLower, -, notFar⟩, -, notHigher⟩ := lateAudio_spec bounded late
      rw [video, audio]
      exact ⟨notHigher, notLower, notFar⟩
    · intro early
      rw [if_neg early.not_gt] at minima
      obtain ⟨video, audio⟩ := Prod.mk.inj minima
      obtain ⟨⟨-, notHigher⟩, notLower, -⟩ := lateVideo_spec bounded (neg_pos.mpr early)
      rw [video, audio]
      exact ⟨notHigher, notLower⟩
    · rintro (quiet | far)
      · exact absurd quiet loud.not_gt
      · exact absurd far near.not_gt
    · rw [changed, moved_iff]
    · intro reported
      rw [emptied, reported]
      rfl

theorem Bounded.update (bounded : Bounded s) (m : Measurement) : Bounded (update {} s m).1 := by
  rcases update_cases s m with ⟨-, same, -⟩ | ⟨-, same, -⟩ | ⟨loud, near, minima, -, -⟩
  · rw [same]
    exact bounded
  · rw [same]
    exact ⟨bounded.video, bounded.audio⟩
  · rcases lt_or_ge 0 (filter {} s m) with late | notLate
    · rw [if_pos late] at minima
      obtain ⟨video, audio⟩ := Prod.mk.inj minima
      obtain ⟨⟨low, high, -⟩, audioLow, audioHigh⟩ := lateAudio_spec bounded late
      refine ⟨?_, ?_⟩
      · rw [video]
        exact ⟨bounded.video.1.trans low, high⟩
      · rw [audio]
        exact ⟨audioLow, audioHigh.trans bounded.audio.2⟩
    · have early : 0 < -filter {} s m := by
        rw [abs_of_nonpos notLate] at loud
        linarith
      rw [if_neg notLate.not_gt] at minima
      obtain ⟨video, audio⟩ := Prod.mk.inj minima
      obtain ⟨⟨low, high⟩, audioLow, audioHigh⟩ := lateVideo_spec bounded early
      refine ⟨?_, ?_⟩
      · rw [video]
        exact ⟨low, high.trans bounded.video.2⟩
      · rw [audio]
        exact ⟨bounded.audio.1.trans audioLow, audioHigh⟩

theorem bounded_initial : Bounded {} where
  video := ⟨le_rfl, by norm_num⟩
  audio := ⟨le_rfl, by norm_num⟩

theorem Bounded.call (bounded : Bounded s) (c : Call) : Bounded (call s c) := by
  cases c with
  | update m => exact bounded.update m
  | startAudio ms => exact ⟨bounded.video, le_min (le_max_right _ _) (by norm_num), min_le_right _ _⟩
  | reset => exact bounded_initial

end Step

theorem after_concat (calls : List Call) (c : Call) : after (calls ++ [c]) = call (after calls) c := List.foldl_concat ..

theorem after_bounded (calls : List Call) : Bounded (after calls) := by
  induction calls using List.reverseRecOn with
  | nil => exact bounded_initial
  | append_singleton calls c ih =>
    rw [after_concat]
    exact ih.call c

/-- After any calls the minima are in their bounds, and the next update moves them the right way. -/
theorem after_disciplined (calls : List Call) : Bounded (after calls) ∧ ∀ m, Disciplined (after calls) m :=
  ⟨after_bounded calls, disciplined (after_bounded calls)⟩

end Mello.Transport.AvSyncDecisions
