import Mello.Stream.Congestion

/-!
What holds of the viewer's receive target over any run: its bounds, the pace of its changes, what an increase
must follow, and what was emitted of it.
-/

namespace Mello.Stream.CongestionDiscipline
open Mello.Library Journal Congestion ViewerCongestionController

variable {c d : ViewerCongestionController} {stats : CongestionSample} {now : ℕ}

/-! ## What a call does -/

/-- What is emitted and when; the rest is the controller as it was. -/
def emitting (c : ViewerCongestionController) (bps : ℕ) (at_ : Option ℕ) : ViewerCongestionController :=
  { c with lastEmittedBps := bps, lastRembEmitAt := at_ }

/-- A call that does not emit leaves a target near the last emission, which is not long ago. -/
theorem emitIfNeeded_cases (c : ViewerCongestionController) (now : ℕ) (force : Bool) :
    c.emitIfNeeded now force = (emitting c c.currentTargetBps (some now), some c.currentTargetBps) ∨
      c.emitIfNeeded now force = (c, none) ∧ c.lastEmittedBps ≠ 0 ∧
        (c.currentTargetBps - c.lastEmittedBps + (c.lastEmittedBps - c.currentTargetBps)) * 100 < c.lastEmittedBps * 5 ∧
        ∃ last, c.lastRembEmitAt = some last ∧ now - last < REMB_HEARTBEAT_INTERVAL := by
  unfold emitIfNeeded
  dsimp only
  split_ifs with emits
  · exact .inl rfl
  · rw [not_or, not_or, not_or] at emits
    obtain ⟨-, ⟨known, small⟩, recent⟩ := emits
    refine .inr ⟨rfl, known, by omega, ?_⟩
    cases last : c.lastRembEmitAt with
    | none => exact absurd rfl (last ▸ recent)
    | some last' =>
      rw [last, Option.all_some, decide_eq_true_eq] at recent
      exact ⟨last', rfl, not_le.mp recent⟩

/-- The sample is taken: the news and the time of it. -/
def sampled (c : ViewerCongestionController) (stats : CongestionSample) (now : ℕ) (high : Bool) : ViewerCongestionController :=
  { c with lastStats := some stats, lastSampleAt := some now, jitterHighLast := high }

/-- What a tick can do before it emits. -/
inductive Updated (c : ViewerCongestionController) (stats : CongestionSample) (now : ℕ) : ViewerCongestionController → Prop where
  | idle (early : ¬ (Tick.mk c stats now).Due) : Updated c stats now c
  | first (due : (Tick.mk c stats now).Due) (fresh : c.lastStats = none) :
      Updated c stats now { c with lastStats := some stats, lastSampleAt := some now, currentTargetBps := c.clampBps c.ceilingBps }
  | lowered (high : Bool) (factor : ℚ) (delta : CongestionSample) (due : (Tick.mk c stats now).Due)
      (news : (Tick.mk c stats now).judged = some delta) (bad : isGoodSample delta = false) (nonneg : 0 ≤ factor) (less : factor ≤ 1) :
      Updated c stats now ((sampled c stats now high).stepDown factor)
  | raised (high : Bool) (delta : CongestionSample) (due : (Tick.mk c stats now).Due)
      (news : (Tick.mk c stats now).judged = some delta) (good : isGoodSample delta = true)
      (earned : GOOD_SAMPLES_FOR_INCREASE ≤ c.consecutiveGoodSamples + 1) : Updated c stats now (sampled c stats now high).applyIncrease
  | counted (high : Bool) (delta : CongestionSample) (due : (Tick.mk c stats now).Due)
      (news : (Tick.mk c stats now).judged = some delta) (good : isGoodSample delta = true)
      (few : c.consecutiveGoodSamples + 1 < GOOD_SAMPLES_FOR_INCREASE) :
      Updated c stats now { sampled c stats now high with consecutiveGoodSamples := c.consecutiveGoodSamples + 1 }
  | spoilt (high : Bool) (delta : CongestionSample) (due : (Tick.mk c stats now).Due)
      (news : (Tick.mk c stats now).judged = some delta) (bad : isGoodSample delta = false) :
      Updated c stats now { sampled c stats now high with consecutiveGoodSamples := 0 }

/-- A good sample does not step down. -/
theorem classifySample_of_good {delta : CongestionSample} (good : isGoodSample delta = true) : c.classifySample delta = .hold := by
  unfold isGoodSample LOSS_GOOD_THRESHOLD JITTER_GOOD_MS at good
  rw [decide_eq_true_eq] at good
  obtain ⟨loss, complete, open_, jitter⟩ := good
  unfold classifySample LOSS_STEP_DOWN_THRESHOLD LOSS_MILD_THRESHOLD JITTER_MILD_MS
  rw [if_neg, if_neg]
  · rintro (lossy | ⟨jumpy, -⟩)
    · linarith
    · linarith
  · rintro (incomplete | gated | lossy)
    · omega
    · omega
    · linarith

theorem tick_cases (c : ViewerCongestionController) (stats : CongestionSample) (now : ℕ) :
    ∃ d force, Updated c stats now d ∧ c.tick stats now = d.emitIfNeeded now force := by
  unfold tick
  split_ifs with early
  · exact ⟨c, false, .idle (by
      unfold Tick.Due
      rw [Bool.not_eq_false]
      exact early), rfl⟩
  · have due : (Tick.mk c stats now).Due := (Bool.not_eq_true _).mp early
    cases known : c.lastStats with
    | none => exact ⟨_, true, .first due known, rfl⟩
    | some previous =>
      have news : (Tick.mk c stats now).judged = some (stats.deltaSince previous) := by
        unfold Tick.judged
        rw [if_pos due, known]
        rfl
      dsimp only
      refine ⟨_, false, ?_, rfl⟩
      generalize stats.deltaSince previous = delta at news
      cases good : isGoodSample delta with
      | true =>
        rw [classifySample_of_good good]
        dsimp only
        rw [if_pos rfl]
        split_ifs with earned
        · exact .raised _ delta due news good (by omega)
        · have few : c.consecutiveGoodSamples + 1 < GOOD_SAMPLES_FOR_INCREASE := by
            unfold GOOD_SAMPLES_FOR_INCREASE U32_MAX at *
            omega
          have same : min (c.consecutiveGoodSamples + 1) U32_MAX = c.consecutiveGoodSamples + 1 := by
            unfold GOOD_SAMPLES_FOR_INCREASE U32_MAX at *
            omega
          rw [same]
          exact .counted _ delta due news good few
      | false =>
        rw [if_neg Bool.false_ne_true]
        split
        · exact .lowered _ STEP_DOWN_FACTOR delta due news good (by norm_num [STEP_DOWN_FACTOR]) (by norm_num [STEP_DOWN_FACTOR])
        · exact .lowered _ STEP_MILD_FACTOR delta due news good (by norm_num [STEP_MILD_FACTOR]) (by norm_num [STEP_MILD_FACTOR])
        · exact .spoilt _ delta due news good

/-- A call updates, and emits the target or nothing. -/
theorem tick_spec (t : Tick) : ∃ d, Updated t.before t.stats t.now d ∧
    ((t.after = emitting d d.currentTargetBps (some t.now) ∧ t.emitted = some d.currentTargetBps) ∨
      (t.after = d ∧ t.emitted = none ∧ d.lastEmittedBps ≠ 0 ∧
        (d.currentTargetBps - d.lastEmittedBps + (d.lastEmittedBps - d.currentTargetBps)) * 100 < d.lastEmittedBps * 5 ∧
        ∃ last, d.lastRembEmitAt = some last ∧ t.now - last < REMB_HEARTBEAT_INTERVAL)) := by
  obtain ⟨d, force, updated, called⟩ := tick_cases t.before t.stats t.now
  refine ⟨d, updated, ?_⟩
  unfold Tick.after Tick.emitted
  rw [called]
  rcases emitIfNeeded_cases d t.now force with emits | ⟨rests, known, small, recent⟩
  · rw [emits]
    exact .inl ⟨rfl, rfl⟩
  · rw [rests]
    exact .inr ⟨rfl, rfl, known, small, recent⟩

/-- The target after a call is the updated one, whether it is emitted or not. -/
theorem exists_emitting (t : Tick) : ∃ d bps at_, Updated t.before t.stats t.now d ∧ t.after = emitting d bps at_ := by
  obtain ⟨d, updated, ⟨after, -⟩ | ⟨after, -⟩⟩ := tick_spec t
  · exact ⟨d, _, _, updated, after⟩
  · exact ⟨d, d.lastEmittedBps, d.lastRembEmitAt, updated, after⟩

/-! ## The bounds -/

/-- The target is between the smaller of floor and ceiling, and the ceiling. -/
structure Bounded (c : ViewerCongestionController) : Prop where
  low : min c.floorBps c.ceilingBps ≤ c.currentTargetBps
  high : c.currentTargetBps ≤ c.ceilingBps
  fits : c.ceilingBps ≤ U32_MAX

theorem clampBps_bounds (c : ViewerCongestionController) (bps : ℕ) :
    min c.floorBps c.ceilingBps ≤ c.clampBps bps ∧ c.clampBps bps ≤ c.ceilingBps := by
  unfold clampBps
  omega

theorem Bounded.clamped (bounded : Bounded c) (bps : ℕ) {d : ViewerCongestionController} (floor : d.floorBps = c.floorBps)
    (ceiling : d.ceilingBps = c.ceilingBps) (target : d.currentTargetBps = c.clampBps bps) : Bounded d where
  low := by
    rw [floor, ceiling, target]
    exact (clampBps_bounds c bps).1
  high := by
    rw [ceiling, target]
    exact (clampBps_bounds c bps).2
  fits := ceiling ▸ bounded.fits

theorem Bounded.updated (bounded : Bounded c) (updated : Updated c stats now d) : Bounded d := by
  cases updated with
  | idle early => exact bounded
  | first due fresh => exact bounded.clamped _ rfl rfl rfl
  | lowered high factor delta due news bad nonneg less => exact bounded.clamped _ rfl rfl rfl
  | raised high delta due news good earned => exact bounded.clamped _ rfl rfl rfl
  | counted high delta due news good few => exact ⟨bounded.low, bounded.high, bounded.fits⟩
  | spoilt high delta due news bad => exact ⟨bounded.low, bounded.high, bounded.fits⟩

theorem Bounded.emitting (bounded : Bounded d) (bps : ℕ) (at_ : Option ℕ) : Bounded (emitting d bps at_) :=
  ⟨bounded.low, bounded.high, bounded.fits⟩

theorem Bounded.step (bounded : Bounded c) (event : Event) : Bounded (c.step event) := by
  cases event with
  | setCeilingKbps ceilingKbps =>
    obtain ⟨low, high⟩ := clampBps_bounds { c with ceilingBps := min (ceilingKbps * 1000) U32_MAX } c.currentTargetBps
    exact ⟨low, high, min_le_right _ _⟩
  | tick stats now =>
    obtain ⟨d, bps, at_, updated, after⟩ := exists_emitting ⟨c, stats, now⟩
    change Bounded (Tick.mk c stats now).after
    rw [after]
    exact (bounded.updated updated).emitting bps at_

theorem bounded_new (ceilingKbps : ℕ) : Bounded (new ceilingKbps) where
  low := by
    unfold new
    dsimp only
    omega
  high := min_le_right _ _
  fits := min_le_right _ _

theorem Bounded.run (bounded : Bounded c) (events : List Event) : Bounded (c.run events) := by
  induction events generalizing c with
  | nil => exact bounded
  | cons event rest ih => exact ih (bounded.step event)

/-! ## Down and up -/

/-- A step down does not go up. -/
theorem stepDown_le (bounded : Bounded c) {factor : ℚ} (less : factor ≤ 1) : (c.stepDown factor).currentTargetBps ≤ c.currentTargetBps := by
  have share : ⌊(c.currentTargetBps : ℚ) * factor⌋₊ ≤ c.currentTargetBps := by
    rw [← Nat.floor_natCast (R := ℚ) c.currentTargetBps]
    refine Nat.floor_mono ?_
    rw [Nat.floor_natCast]
    exact mul_le_of_le_one_right (Nat.cast_nonneg _) less
  obtain ⟨low, high, -⟩ := bounded
  change min (max ⌊(c.currentTargetBps : ℚ) * factor⌋₊ c.floorBps) c.ceilingBps ≤ c.currentTargetBps
  omega

/-- An increase is by at least its least step, up to the ceiling. -/
theorem le_applyIncrease (bounded : Bounded c) :
    min c.ceilingBps (c.currentTargetBps + MIN_INCREASE_BPS) ≤ c.applyIncrease.currentTargetBps := by
  have fits := bounded.fits
  unfold applyIncrease clampBps
  dsimp only
  omega

/-! ## The log of the calls -/

theorem run_append (c : ViewerCongestionController) (events rest : List Event) : c.run (events ++ rest) = (c.run events).run rest :=
  List.foldl_append

theorem ticks_append (c : ViewerCongestionController) (events rest : List Event) :
    ticks c (events ++ rest) = ticks c events ++ ticks (c.run events) rest := by
  induction events generalizing c with
  | nil => rfl
  | cons event others ih =>
    cases event with
    | setCeilingKbps ceilingKbps => exact ih _
    | tick stats now => exact congrArg (Tick.mk c stats now :: ·) (ih _)

/-- Each call of the log is at the time of an event. -/
theorem time_of_mem_ticks {t : Tick} {events : List Event} (member : t ∈ ticks c events) : t.now ∈ events.filterMap Event.time := by
  induction events generalizing c with
  | nil => cases member
  | cons event rest ih =>
    cases event with
    | setCeilingKbps ceilingKbps =>
      rw [List.filterMap_cons_none (by rfl)]
      exact ih member
    | tick stats now =>
      rw [List.filterMap_cons_some (by rfl)]
      rcases List.mem_cons.mp member with rfl | later
      · exact List.mem_cons_self
      · exact List.mem_cons_of_mem _ (ih later)

/-- The call judges a sample. -/
def Judges (t : Tick) : Prop := t.judged.isSome = true

instance (t : Tick) : Decidable (Judges t) := inferInstanceAs (Decidable (_ = _))

/-- The last ten samples of the calls are good. -/
def EndsGood (calls : List Tick) : Prop :=
  ∃ front goods, (calls.filter fun t => Judges t) = front ++ goods ∧ goods.length = GOOD_SAMPLES_FOR_INCREASE ∧ ∀ t ∈ goods, t.Good

/-- Before an increase come ten good samples in a row after every change by a call. -/
def Earned (before : List Tick) (t : Tick) : Prop :=
  t.Raises → ∀ early last late, before = early ++ last :: late → last.Changes → EndsGood (late ++ [t])

/-- The target after the call is less than 5 percent from the last emission, or it is that; and the emission is
less than 2 s old. -/
def Fresh (before : List Tick) (t : Tick) : Prop :=
  ∃ early last late bps, before ++ [t] = early ++ last :: late ∧ last.emitted = some bps ∧ (∀ u ∈ late, u.emitted = none) ∧
    t.now < last.now + REMB_HEARTBEAT_INTERVAL ∧
    (t.after.currentTargetBps = bps ∨ (t.after.currentTargetBps - bps + (bps - t.after.currentTargetBps)) * 100 < bps * 5)

/-- The samples since the last change by a call, or the last bad one, are good and are counted. -/
structure Counted (c : ViewerCongestionController) (log : List Tick) : Prop where
  few : c.consecutiveGoodSamples < GOOD_SAMPLES_FOR_INCREASE
  counts : ∃ early late, log = early ++ late ∧ (∀ t ∈ late, ¬ t.Changes ∧ (Judges t → t.Good)) ∧
    (late.filter fun t => Judges t).length = c.consecutiveGoodSamples

/-- The last emission is in the log. -/
def Emitted (c : ViewerCongestionController) (log : List Tick) : Prop :=
  c.lastRembEmitAt = none ∨ ∃ early last late, log = early ++ last :: late ∧ last.emitted = some c.lastEmittedBps ∧
    c.lastRembEmitAt = some last.now ∧ ∀ t ∈ late, t.emitted = none

/-- What the log of a run tells. -/
structure Disciplined (c : ViewerCongestionController) (log : List Tick) : Prop where
  bounded : Bounded c
  unsampled : c.lastStats = none → log = [] ∧ c.lastSampleAt = none ∧ c.consecutiveGoodSamples = 0
  mark : LastMark Tick.Changes Tick.now log c.lastSampleAt
  apart : Apart Tick.Changes Tick.Changes Tick.now SAMPLE_INTERVAL log
  counted : Counted c log
  earned : Each Earned log
  emitted : Emitted c log
  fresh : Each Fresh log

section Step

variable {t : Tick} {log : List Tick}

/-- A call without a sample changes nothing. -/
theorem Updated.target_of_early (updated : Updated c stats now d) (early : ¬ (Tick.mk c stats now).Due) : d = c := by
  cases updated with
  | idle _ => rfl
  | first due _ => exact absurd due early
  | lowered high factor delta due _ _ _ _ => exact absurd due early
  | raised high delta due _ _ _ => exact absurd due early
  | counted high delta due _ _ _ => exact absurd due early
  | spoilt high delta due _ _ => exact absurd due early

theorem due_of_changes (changes : t.Changes) : t.Due := by
  by_contra early
  obtain ⟨d, bps, at_, updated, after⟩ := exists_emitting t
  refine changes ?_
  rw [after, updated.target_of_early early]
  rfl

theorem Updated.lastSampleAt (updated : Updated c stats now d) (due : (Tick.mk c stats now).Due) : d.lastSampleAt = some now := by
  cases updated with
  | idle early => exact absurd due early
  | _ => rfl

/-- A due call is an interval after the sample before. -/
theorem le_of_due (due : t.Due) {mark : ℕ} (last : t.before.lastSampleAt = some mark) : mark + SAMPLE_INTERVAL ≤ t.now := by
  unfold Tick.Due at due
  rw [last, Option.any_some, decide_eq_false_iff_not] at due
  unfold SAMPLE_INTERVAL at *
  omega

theorem LastMark.tick (mark : LastMark Tick.Changes Tick.now log t.before.lastSampleAt) (sooner : ∀ u ∈ log, u.now ≤ t.now) :
    LastMark Tick.Changes Tick.now (log ++ [t]) t.after.lastSampleAt := by
  obtain ⟨d, bps, at_, updated, after⟩ := exists_emitting t
  rw [after]
  change LastMark _ _ _ d.lastSampleAt
  by_cases due : t.Due
  · rw [updated.lastSampleAt due]
    exact lastMark_concat sooner
  · rw [updated.target_of_early due]
    exact mark.concat_of_not fun changes => due (due_of_changes changes)

theorem Updated.emission (updated : Updated c stats now d) :
    d.lastEmittedBps = c.lastEmittedBps ∧ d.lastRembEmitAt = c.lastRembEmitAt := by
  cases updated with
  | _ => exact ⟨rfl, rfl⟩

theorem Emitted.tick (emitted : Emitted t.before log) : Emitted t.after (log ++ [t]) ∧ Fresh log t := by
  obtain ⟨d, updated, ⟨after, emits⟩ | ⟨after, rests, known, small, last, recent, near⟩⟩ := tick_spec t
  · refine ⟨.inr ⟨log, t, [], rfl, ?_, ?_, nofun⟩, log, t, [], d.currentTargetBps, rfl, emits, nofun, ?_, .inl ?_⟩
    · rw [after]
      exact emits
    · rw [after]
      rfl
    · exact Nat.lt_add_of_pos_right (by decide)
    · rw [after]
      rfl
  · obtain ⟨bps, at_⟩ := updated.emission
    unfold Emitted at emitted
    rw [← bps, ← at_] at emitted
    rcases emitted with none' | ⟨early, mark, late, rfl, told, marked, quiet⟩
    · exact absurd (none'.symm.trans recent) nofun
    · have still : ∀ u ∈ late ++ [t], u.emitted = none := by
        intro u member
        rcases List.mem_append.mp member with old | new
        · exact quiet u old
        · rw [List.mem_singleton.mp new]
          exact rests
      have split : (early ++ mark :: late) ++ [t] = early ++ mark :: (late ++ [t]) := by
        rw [List.append_assoc, List.cons_append]
      obtain rfl : mark.now = last := Option.some.inj (marked.symm.trans recent)
      rw [after, Fresh, after]
      refine ⟨.inr ⟨early, mark, late ++ [t], split, told, marked, still⟩, early, mark, late ++ [t], d.lastEmittedBps, split, told, still,
        ?_, .inr small⟩
      unfold REMB_HEARTBEAT_INTERVAL at *
      omega

theorem judges_of_judged {delta : CongestionSample} (news : t.judged = some delta) : Judges t := by
  unfold Judges
  rw [news]
  rfl

theorem Counted.reset (zero : c.consecutiveGoodSamples = 0) (log : List Tick) : Counted c log where
  few := zero ▸ by decide
  counts := ⟨log, [], (List.append_nil log).symm, nofun, zero.symm⟩

theorem Counted.tick (counted : Counted t.before log) (unsampled : t.before.lastStats = none → t.before.consecutiveGoodSamples = 0) :
    Counted t.after (log ++ [t]) := by
  obtain ⟨few, early, late, rfl, all, count⟩ := counted
  obtain ⟨d, bps, at_, updated, after⟩ := exists_emitting t
  have target : t.after.currentTargetBps = d.currentTargetBps := by
    rw [after]
    rfl
  rw [after]
  have joins (unchanged : d.currentTargetBps = t.before.currentTargetBps) (good : Judges t → t.Good) :
      ∀ u ∈ late ++ [t], ¬ u.Changes ∧ (Judges u → u.Good) := by
    intro u member
    rcases List.mem_append.mp member with old | new
    · exact all u old
    · rw [List.mem_singleton.mp new]
      exact ⟨fun changes => changes (target.trans unchanged), good⟩
  cases updated with
  | idle not_due =>
    have idle : ¬ Judges t := by
      unfold Judges Tick.judged
      rw [if_neg not_due]
      exact nofun
    refine ⟨few, early, late ++ [t], (List.append_assoc _ _ _).symm ▸ rfl, joins rfl fun judges => absurd judges idle, ?_⟩
    rw [List.filter_append, List.filter_cons_of_neg (by simpa using idle), List.filter_nil, List.append_nil]
    exact count
  | first due fresh =>
    refine .reset ?_ _
    exact unsampled fresh
  | lowered high factor delta due news bad nonneg less => exact .reset rfl _
  | raised high delta due news good earned => exact .reset rfl _
  | counted high delta due news good fewer =>
    refine ⟨fewer, early, late ++ [t], (List.append_assoc _ _ _).symm ▸ rfl, joins rfl fun _ => ⟨delta, news, good⟩, ?_⟩
    rw [List.filter_append, List.filter_cons_of_pos (by simpa using judges_of_judged news), List.filter_nil, List.length_append, count]
    rfl
  | spoilt high delta due news bad => exact .reset rfl _

/-- An increase has nine good samples counted, and its own. -/
theorem Counted.earned (counted : Counted t.before log) (bounded : Bounded t.before)
    (unsampled : t.before.lastStats = none → log = []) : Earned log t := by
  intro raises early last late split changes
  obtain ⟨d, bps, at_, updated, after⟩ := exists_emitting t
  have up : t.before.currentTargetBps < d.currentTargetBps := by
    unfold Tick.Raises at raises
    rw [after] at raises
    exact raises
  cases updated with
  | idle not_due => exact absurd up (lt_irrefl _)
  | first due fresh =>
    rw [unsampled fresh] at split
    exact absurd split.symm (List.append_ne_nil_of_right_ne_nil _ (List.cons_ne_nil _ _))
  | lowered high factor delta due news bad nonneg less =>
    have bounded : Bounded (sampled t.before t.stats t.now high) := ⟨bounded.low, bounded.high, bounded.fits⟩
    exact absurd up (not_lt.mpr (stepDown_le bounded less))
  | counted high delta due news good few => exact absurd up (lt_irrefl _)
  | spoilt high delta due news bad => exact absurd up (lt_irrefl _)
  | raised high delta due news good enough =>
    obtain ⟨few, front, goods, shape, all, count⟩ := counted
    -- the change is before the samples that are counted
    obtain ⟨rest, rfl⟩ : ∃ rest, late = rest ++ goods := by
      rw [split] at shape
      rcases List.append_eq_append_iff.mp shape with ⟨more, -, tail⟩ | ⟨more, -, tail⟩
      · cases more with
        | nil =>
          obtain rfl : last :: late = goods := tail
          exact absurd changes (all last List.mem_cons_self).1
        | cons first others =>
          obtain ⟨-, rfl⟩ := List.cons.inj tail
          exact ⟨others, rfl⟩
      · exact absurd changes (all last (tail ▸ List.mem_append_right more List.mem_cons_self)).1
    refine ⟨rest.filter fun t => Judges t, (goods.filter fun t => Judges t) ++ [t], ?_, ?_, ?_⟩
    · rw [List.append_assoc, List.filter_append, List.filter_append,
        List.filter_cons_of_pos (by simpa using judges_of_judged news), List.filter_nil]
    · rw [List.length_append, count, List.length_singleton]
      omega
    · intro u member
      rcases List.mem_append.mp member with old | new
      · obtain ⟨inside, judges⟩ := List.mem_filter.mp old
        exact (all u inside).2 (of_decide_eq_true judges)
      · rw [List.mem_singleton.mp new]
        exact ⟨delta, news, good⟩

/-- After a call there was a sample. -/
theorem lastStats_after (never : t.before.lastStats = none → t.before.lastSampleAt = none) : t.after.lastStats ≠ none := by
  obtain ⟨d, bps, at_, updated, after⟩ := exists_emitting t
  rw [after]
  cases updated with
  | idle early =>
    intro fresh
    refine early ?_
    unfold Tick.Due
    rw [never fresh]
    rfl
  | _ => exact Option.some_ne_none _

theorem Disciplined.tick (kept : Disciplined t.before log) (sooner : ∀ u ∈ log, u.now ≤ t.now) : Disciplined t.after (log ++ [t]) := by
  obtain ⟨d, bps, at_, updated, after⟩ := exists_emitting t
  obtain ⟨emitted, fresh⟩ := kept.emitted.tick
  exact {
    bounded := after ▸ (kept.bounded.updated updated).emitting bps at_
    unsampled := fun none' => absurd none' (lastStats_after fun none' => (kept.unsampled none').2.1)
    mark := LastMark.tick kept.mark sooner
    apart := kept.apart.concat kept.mark fun changes _ last => le_of_due (due_of_changes changes) last
    counted := kept.counted.tick fun none' => (kept.unsampled none').2.2
    earned := kept.earned.concat (kept.counted.earned kept.bounded fun none' => (kept.unsampled none').1)
    emitted := emitted
    fresh := kept.fresh.concat fresh }

theorem Disciplined.setCeilingKbps (kept : Disciplined c log) (ceilingKbps : ℕ) : Disciplined (c.setCeilingKbps ceilingKbps) log where
  bounded := kept.bounded.step (.setCeilingKbps ceilingKbps)
  unsampled := kept.unsampled
  mark := kept.mark
  apart := kept.apart
  counted := ⟨kept.counted.few, kept.counted.counts⟩
  earned := kept.earned
  emitted := kept.emitted
  fresh := kept.fresh

end Step

theorem disciplined_new (ceilingKbps : ℕ) : Disciplined (new ceilingKbps) [] where
  bounded := bounded_new ceilingKbps
  unsampled := fun _ => ⟨rfl, rfl, rfl⟩
  mark := lastMark_nil _ _ _
  apart := apart_nil _ _ _ _
  counted := .reset rfl []
  earned := each_nil _
  emitted := .inl rfl
  fresh := each_nil _

theorem disciplined_run (ceilingKbps : ℕ) {events : List Event} (ordered : Ordered Event.time events) :
    Disciplined ((new ceilingKbps).run events) (ticks (new ceilingKbps) events) := by
  induction events using List.reverseRecOn with
  | nil => exact disciplined_new ceilingKbps
  | append_singleton events event ih =>
    obtain ⟨before, sooner⟩ := ordered.of_concat
    have kept := ih before
    rw [run_append, ticks_append]
    cases event with
    | setCeilingKbps kbps =>
      rw [ticks, ticks, List.append_nil]
      exact kept.setCeilingKbps kbps
    | tick stats now =>
      rw [ticks, ticks]
      refine Disciplined.tick (t := ⟨(new ceilingKbps).run events, stats, now⟩) kept ?_
      intro u member
      obtain ⟨earlier, inside, at_⟩ := List.mem_filterMap.mp (time_of_mem_ticks member)
      exact sooner earlier inside u.now now at_ rfl

end Mello.Stream.CongestionDiscipline
