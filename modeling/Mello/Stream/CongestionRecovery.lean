import Mello.Stream.CongestionDiscipline

/-!
The way back to the ceiling: good samples raise the viewer's receive target to the ceiling, and the ceiling is
emitted at most 2 s later.
-/

namespace Mello.Stream.CongestionRecovery
open Mello.Library Journal Congestion ViewerCongestionController CongestionDiscipline

variable {c d : ViewerCongestionController} {stats : CongestionSample} {now : ℕ}

/-- Calls of `tick` alone. -/
def calls (samples : List (CongestionSample × ℕ)) : List Event := samples.map fun sample => .tick sample.1 sample.2

/-- All samples that the calls judge are good. -/
def AllGood (c : ViewerCongestionController) (samples : List (CongestionSample × ℕ)) : Prop :=
  ∀ t ∈ ticks c (calls samples), Judges t → t.Good

/-- How many samples the calls judge. -/
def judged (c : ViewerCongestionController) (samples : List (CongestionSample × ℕ)) : ℕ :=
  (ticks c (calls samples)).countP fun t => Judges t

/-- The good samples that bring any target to the ceiling. -/
def samplesToCeiling (c : ViewerCongestionController) : ℕ := GOOD_SAMPLES_FOR_INCREASE * (c.ceilingBps / MIN_INCREASE_BPS + 1)

/-- What a call needs of the controller to count its sample. -/
structure Ready (c : ViewerCongestionController) : Prop where
  bounded : Bounded c
  few : c.consecutiveGoodSamples < GOOD_SAMPLES_FOR_INCREASE
  unsampled : c.lastStats = none → c.lastSampleAt = none ∧ c.consecutiveGoodSamples = 0

theorem Ready.of_disciplined {log : List Tick} (kept : Disciplined c log) : Ready c :=
  ⟨kept.bounded, kept.counted.few, fun none' => (kept.unsampled none').2⟩

/-! ## One good call -/

/-- What a call does that judges no bad sample, before it emits. -/
inductive Gained (c : ViewerCongestionController) (judges : Bool) (d : ViewerCongestionController) : Prop where
  | idle (same : judges = false) (target : d.currentTargetBps = c.currentTargetBps)
      (count : d.consecutiveGoodSamples = c.consecutiveGoodSamples)
  | first (same : judges = false) (target : d.currentTargetBps = c.ceilingBps) (count : d.consecutiveGoodSamples = c.consecutiveGoodSamples)
  | counted (same : judges = true) (target : d.currentTargetBps = c.currentTargetBps)
      (count : d.consecutiveGoodSamples = c.consecutiveGoodSamples + 1)
  | raised (same : judges = true) (target : min c.ceilingBps (c.currentTargetBps + MIN_INCREASE_BPS) ≤ d.currentTargetBps)
      (count : d.consecutiveGoodSamples = 0) (enough : GOOD_SAMPLES_FOR_INCREASE ≤ c.consecutiveGoodSamples + 1)

theorem Updated.ceiling (updated : Updated c stats now d) : d.ceilingBps = c.ceilingBps := by
  cases updated <;> rfl

theorem judges_iff (t : Tick) : Judges t ↔ t.Due ∧ t.before.lastStats ≠ none := by
  unfold Judges Tick.judged
  split_ifs with due
  · rw [Option.isSome_map, Option.isSome_iff_ne_none]
    exact (and_iff_right due).symm
  · exact iff_of_false nofun fun both => due both.1

theorem ready_tick {t : Tick} (ready : Ready t.before) (good : Judges t → t.Good) :
    Ready t.after ∧ t.after.ceilingBps = t.before.ceilingBps ∧ Gained t.before (Judges t) t.after := by
  obtain ⟨d, bps, at_, updated, after⟩ := exists_emitting t
  have bounded := (ready.bounded.updated updated).emitting bps at_
  have sampled := lastStats_after fun none' => (ready.unsampled none').1
  have ceiling := Updated.ceiling updated
  rw [after] at sampled ⊢
  have notBad {delta : CongestionSample} (news : t.judged = some delta) (bad : isGoodSample delta = false) : False := by
    obtain ⟨other, known, fine⟩ := good (judges_of_judged news)
    cases news.symm.trans known
    exact Bool.false_ne_true (bad.symm.trans fine)
  have judges {delta : CongestionSample} (news : t.judged = some delta) : decide (Judges t) = true :=
    decide_eq_true (judges_of_judged news)
  refine ⟨⟨bounded, ?_, fun none' => absurd none' sampled⟩, ceiling, ?_⟩
  · cases updated with
    | idle early => exact ready.few
    | first due fresh => exact ready.few
    | lowered high factor delta due news bad nonneg less => exact (notBad news bad).elim
    | raised high delta due news fine enough => exact (by decide : 0 < GOOD_SAMPLES_FOR_INCREASE)
    | counted high delta due news fine few => exact few
    | spoilt high delta due news bad => exact (notBad news bad).elim
  · cases updated with
    | idle early => exact .idle (decide_eq_false fun judges => early ((judges_iff t).mp judges).1) rfl rfl
    | first due fresh =>
      refine .first (decide_eq_false fun judges => ((judges_iff t).mp judges).2 fresh) ?_ rfl
      exact min_eq_right (le_max_left _ _)
    | lowered high factor delta due news bad nonneg less => exact (notBad news bad).elim
    | raised high delta due news fine enough =>
      refine .raised (judges news) ?_ rfl enough
      exact @le_applyIncrease (CongestionDiscipline.sampled t.before t.stats t.now high)
        ⟨ready.bounded.low, ready.bounded.high, ready.bounded.fits⟩
    | counted high delta due news fine few => exact .counted (judges news) rfl rfl
    | spoilt high delta due news bad => exact (notBad news bad).elim

/-! ## A run of good calls -/

theorem allGood_cons {sample : CongestionSample × ℕ} {rest : List (CongestionSample × ℕ)} (good : AllGood c (sample :: rest)) :
    (Judges ⟨c, sample.1, sample.2⟩ → Tick.Good ⟨c, sample.1, sample.2⟩) ∧ AllGood (Tick.after ⟨c, sample.1, sample.2⟩) rest :=
  List.forall_mem_cons.mp good

theorem judged_cons (c : ViewerCongestionController) (sample : CongestionSample × ℕ) (rest : List (CongestionSample × ℕ)) :
    judged c (sample :: rest) =
      judged (Tick.after ⟨c, sample.1, sample.2⟩) rest + if decide (Judges ⟨c, sample.1, sample.2⟩) = true then 1 else 0 :=
  List.countP_cons

/-- The tenth good sample, with a step up, is worth ten of the samples that are to come. -/
theorem le_of_raised {target raised ceiling count more : ℕ} (few : count < GOOD_SAMPLES_FOR_INCREASE)
    (enough : GOOD_SAMPLES_FOR_INCREASE ≤ count + 1) (up : min ceiling (target + MIN_INCREASE_BPS) ≤ raised) :
    min ceiling (target + MIN_INCREASE_BPS * ((count + (more + 1)) / GOOD_SAMPLES_FOR_INCREASE)) ≤
      min ceiling (raised + MIN_INCREASE_BPS * ((0 + more) / GOOD_SAMPLES_FOR_INCREASE)) := by
  unfold MIN_INCREASE_BPS GOOD_SAMPLES_FOR_INCREASE at *
  omega

/-- Each ten good samples raise the target by the least step, up to the ceiling. -/
theorem le_run {samples : List (CongestionSample × ℕ)} (ready : Ready c) (good : AllGood c samples) :
    Ready (c.run (calls samples)) ∧ (c.run (calls samples)).ceilingBps = c.ceilingBps ∧
      min c.ceilingBps (c.currentTargetBps + MIN_INCREASE_BPS * ((c.consecutiveGoodSamples + judged c samples) / GOOD_SAMPLES_FOR_INCREASE)) ≤
        (c.run (calls samples)).currentTargetBps := by
  induction samples generalizing c with
  | nil =>
    refine ⟨ready, rfl, ?_⟩
    have few : (c.consecutiveGoodSamples + judged c []) / GOOD_SAMPLES_FOR_INCREASE = 0 := Nat.div_eq_of_lt ready.few
    rw [few]
    exact min_le_right _ _
  | cons sample rest ih =>
    obtain ⟨here, later⟩ := allGood_cons good
    obtain ⟨next, ceiling, gained⟩ := ready_tick ready here
    obtain ⟨last, same, reaches⟩ := ih next later
    refine ⟨last, same.trans ceiling, ?_⟩
    change _ ≤ ((Tick.after ⟨c, sample.1, sample.2⟩).run (calls rest)).currentTargetBps
    refine le_trans ?_ reaches
    rw [judged_cons, ceiling]
    have few : c.consecutiveGoodSamples < GOOD_SAMPLES_FOR_INCREASE := ready.few
    generalize Tick.after ⟨c, sample.1, sample.2⟩ = d at *
    cases gained with
    | idle judges target count =>
      rw [judges, if_neg Bool.false_ne_true, target, count, Nat.add_zero]
    | first judges target count =>
      rw [target]
      exact le_min (min_le_left _ _) ((min_le_left _ _).trans (Nat.le_add_right _ _))
    | counted judges target count =>
      rw [judges, if_pos rfl, target, count, Nat.add_right_comm, Nat.add_assoc]
    | raised judges target count enough =>
      rw [judges, if_pos rfl, count]
      exact le_of_raised few enough target

/-- Enough good samples reach the ceiling. -/
theorem run_eq_ceiling {samples : List (CongestionSample × ℕ)} (ready : Ready c) (good : AllGood c samples)
    (enough : samplesToCeiling c ≤ judged c samples) : (c.run (calls samples)).currentTargetBps = c.ceilingBps := by
  obtain ⟨last, ceiling, reaches⟩ := le_run ready good
  have high := last.bounded.high
  rw [ceiling] at high
  refine le_antisymm high (le_trans (le_min le_rfl ?_) reaches)
  unfold samplesToCeiling MIN_INCREASE_BPS GOOD_SAMPLES_FOR_INCREASE at *
  omega

/-! ## The emission of the ceiling -/

/-- From the time `reached` on the target is the ceiling; what was emitted later is the ceiling. -/
structure AtCeiling (reached : ℕ) (c : ViewerCongestionController) : Prop where
  ready : Ready c
  target : c.currentTargetBps = c.ceilingBps
  told : (∀ last, c.lastRembEmitAt = some last → last ≤ reached) ∨ c.lastEmittedBps = c.ceilingBps

theorem AtCeiling.tick {reached : ℕ} {t : Tick} (there : AtCeiling reached t.before) (good : Judges t → t.Good) :
    AtCeiling reached t.after ∧ (reached + REMB_HEARTBEAT_INTERVAL ≤ t.now → t.after.lastEmittedBps = t.after.ceilingBps) := by
  obtain ⟨next, ceiling, gained⟩ := ready_tick there.ready good
  have target : t.after.currentTargetBps = t.after.ceilingBps := by
    have high := next.bounded.high
    have at_ := there.target
    cases gained with
    | idle _ target _ => rw [target, ceiling, at_]
    | first _ target _ => rw [target, ceiling]
    | counted _ target _ => rw [target, ceiling, at_]
    | raised _ target _ _ => omega
  obtain ⟨d, updated, ⟨after, emits⟩ | ⟨after, rests, known, small, last, recent, near⟩⟩ := tick_spec t
  · have told : t.after.lastEmittedBps = t.after.ceilingBps := by
      rw [← target, after]
      rfl
    exact ⟨⟨next, target, .inr told⟩, fun _ => told⟩
  · obtain ⟨bps, emitted⟩ := updated.emission
    have sameBps : t.after.lastEmittedBps = t.before.lastEmittedBps := by rw [after, bps]
    have sameAt : t.after.lastRembEmitAt = t.before.lastRembEmitAt := by rw [after, emitted]
    refine ⟨⟨next, target, ?_⟩, fun late => ?_⟩
    · rw [sameBps, sameAt, ceiling]
      exact there.told
    · rw [sameBps, ceiling]
      refine there.told.resolve_left fun old => ?_
      have before := old last (emitted ▸ recent)
      unfold REMB_HEARTBEAT_INTERVAL at *
      omega

theorem AtCeiling.run {reached : ℕ} {samples : List (CongestionSample × ℕ)} (there : AtCeiling reached c) (good : AllGood c samples) :
    ∀ t ∈ ticks c (calls samples), t.after.currentTargetBps = c.ceilingBps ∧
      (reached + REMB_HEARTBEAT_INTERVAL ≤ t.now → t.after.lastEmittedBps = c.ceilingBps) := by
  induction samples generalizing c with
  | nil => exact fun t member => absurd member List.not_mem_nil
  | cons sample rest ih =>
    obtain ⟨here, later⟩ := allGood_cons good
    obtain ⟨next, told⟩ := AtCeiling.tick (t := ⟨c, sample.1, sample.2⟩) there here
    have ceiling := (ready_tick (t := ⟨c, sample.1, sample.2⟩) there.ready here).2.1
    refine List.forall_mem_cons.mpr ⟨⟨next.target.trans ceiling, fun late => (told late).trans ceiling⟩, ?_⟩
    rw [← ceiling]
    exact ih next later

/-! ## Any run -/

/-- Whatever was emitted was emitted at the time of an event. -/
theorem le_of_emitted {events : List Event} {reached : ℕ} (kept : Disciplined d (ticks c events))
    (passed : ∀ time ∈ events.filterMap Event.time, time ≤ reached) {last : ℕ} (told : d.lastRembEmitAt = some last) :
    last ≤ reached := by
  rcases kept.emitted with none' | ⟨early, mark, late, split, -, marked, -⟩
  · exact absurd (none'.symm.trans told) nofun
  · obtain rfl : mark.now = last := Option.some.inj (marked.symm.trans told)
    refine passed mark.now (time_of_mem_ticks (c := c) ?_)
    rw [split]
    exact List.mem_append_right early List.mem_cons_self

theorem calls_append (samples later : List (CongestionSample × ℕ)) : calls (samples ++ later) = calls samples ++ calls later :=
  List.map_append

/-- The target keeps within its bounds and changes with a call at most once a sample interval, an increase follows ten
good samples after the last change by a call, what was emitted is near the target and less than 2 s old, and good
samples bring the target to the ceiling for as long as they last, with the ceiling emitted 2 s later. -/
theorem receive_target_discipline (ceilingKbps : ℕ) {events : List Event} (ordered : Ordered Event.time events) :
    let c := (new ceilingKbps).run events
    let log := ticks (new ceilingKbps) events
    (min c.floorBps c.ceilingBps ≤ c.currentTargetBps ∧ c.currentTargetBps ≤ c.ceilingBps) ∧
      Apart Tick.Changes Tick.Changes Tick.now SAMPLE_INTERVAL log ∧ Each Earned log ∧ Each Fresh log ∧
      ∀ (samples later : List (CongestionSample × ℕ)) (reached : ℕ),
        Ordered Event.time (events ++ calls samples) → (∀ time ∈ (events ++ calls samples).filterMap Event.time, time ≤ reached) →
        AllGood c (samples ++ later) → samplesToCeiling c ≤ judged c samples →
          (c.run (calls samples)).currentTargetBps = c.ceilingBps ∧
            ∀ t ∈ ticks (c.run (calls samples)) (calls later), t.after.currentTargetBps = c.ceilingBps ∧
              (reached + REMB_HEARTBEAT_INTERVAL ≤ t.now → t.after.lastEmittedBps = c.ceilingBps) := by
  intro c log
  have kept := disciplined_run ceilingKbps ordered
  refine ⟨⟨kept.bounded.low, kept.bounded.high⟩, kept.apart, kept.earned, kept.fresh, ?_⟩
  intro samples later reached order passed good enough
  have ready : Ready c := .of_disciplined kept
  unfold AllGood at good
  rw [calls_append, ticks_append] at good
  have before : AllGood c samples := fun t member => good t (List.mem_append_left _ member)
  have after : AllGood (c.run (calls samples)) later := fun t member => good t (List.mem_append_right _ member)
  obtain ⟨last, same, -⟩ := le_run ready before
  have target := run_eq_ceiling ready before enough
  have emitted := disciplined_run ceilingKbps order
  rw [run_append] at emitted
  have there : AtCeiling reached (c.run (calls samples)) :=
    { ready := last, target := target.trans same.symm, told := .inl fun _ told => le_of_emitted emitted passed told }
  refine ⟨target, ?_⟩
  rw [← same]
  exact there.run after

instance (t : Tick) : Decidable t.Good := inferInstanceAs (Decidable (∃ delta ∈ t.judged, _ = true))

instance (c : ViewerCongestionController) (samples : List (CongestionSample × ℕ)) : Decidable (AllGood c samples) :=
  inferInstanceAs (Decidable (∀ t ∈ ticks c (calls samples), Judges t → t.Good))

/-- `count` samples without news, half a second apart. -/
def quiet (stats : CongestionSample) (start count : ℕ) : List (CongestionSample × ℕ) :=
  (List.range count).map fun i => (stats, start + i * SAMPLE_INTERVAL)

/-- An incomplete access unit at 400 kbps. -/
def incomplete : CongestionSample := { acceptedPackets := 100, incompleteAccessUnits := 1 }

def afterIncomplete : List Event := [.tick {} 0, .tick incomplete SAMPLE_INTERVAL]

theorem receive_target_discipline_incomplete :
    let c := (new 400).run afterIncomplete
    c.currentTargetBps = 300000 ∧ (c.run (calls (quiet incomplete (2 * SAMPLE_INTERVAL) 50))).currentTargetBps = 400000 := by
  have ordered : Ordered Event.time afterIncomplete := by
    unfold Ordered
    decide
  have order : Ordered Event.time (afterIncomplete ++ calls (quiet incomplete (2 * SAMPLE_INTERVAL) 50)) := by
    unfold Ordered
    decide +kernel
  have target := ((receive_target_discipline 400 ordered).2.2.2.2 (quiet incomplete (2 * SAMPLE_INTERVAL) 50) []
    (51 * SAMPLE_INTERVAL) order (by decide +kernel) (by decide +kernel) (by decide +kernel)).1
  have ceiling : ((new 400).run afterIncomplete).ceilingBps = 400000 := by decide +kernel
  exact ⟨by decide +kernel, target.trans ceiling⟩

/-! ## A decrease of the ceiling -/

/-- Nine good samples at 4000 kbps. -/
def nineGood : List Event := .tick {} 0 :: calls (quiet {} SAMPLE_INTERVAL 9)

/-- The count of the good samples goes on through a decrease by `setCeilingKbps`: the sample after it, when the
ceiling is back, raises the target. -/
theorem raised_after_setCeilingKbps :
    ¬ ∀ (ceilingKbps : ℕ) (front mid : List Event) (lower : Event) (stats : CongestionSample) (now : ℕ),
      Ordered Event.time (front ++ lower :: mid ++ [.tick stats now]) →
        let c := (new ceilingKbps).run front
        let d := (c.step lower).run mid
        (c.step lower).currentTargetBps < c.currentTargetBps → Tick.Raises ⟨d, stats, now⟩ →
          EndsGood (ticks (c.step lower) (mid ++ [.tick stats now])) := by
  intro holds
  obtain ⟨front, goods, shape, ten, -⟩ := holds 4000 nineGood [.setCeilingKbps 4000] (.setCeilingKbps 2000) {} (10 * SAMPLE_INTERVAL)
    (by
      unfold Ordered
      decide +kernel) (by decide +kernel) (by
      unfold Tick.Raises
      decide +kernel)
  have few := List.length_filter_le (fun t : Tick => decide (Judges t))
    (ticks (((new 4000).run nineGood).step (.setCeilingKbps 2000)) [.setCeilingKbps 4000, .tick {} (10 * SAMPLE_INTERVAL)])
  have one : (ticks (((new 4000).run nineGood).step (.setCeilingKbps 2000))
    [.setCeilingKbps 4000, .tick {} (10 * SAMPLE_INTERVAL)]).length = 1 := rfl
  have length := congrArg List.length shape
  rw [List.length_append, ten] at length
  unfold GOOD_SAMPLES_FOR_INCREASE at length
  have bound := length.symm.trans_le (few.trans_eq one)
  omega

end Mello.Stream.CongestionRecovery
