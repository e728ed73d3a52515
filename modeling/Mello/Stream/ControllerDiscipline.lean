import Mello.Stream.Controller

/-!
What holds of the quality controller over any run: the bounds of bitrate and rung,
the dwell and the cooldown of a switch, and the pace of the bitrate.
-/

namespace Mello.Stream.ControllerDiscipline
open Mello.Library Journal Rungs Controller QualityController

variable {c : QualityController} {now : ℕ}

/-! ## The ladder -/

theorem rungsFor_eq_cons (width height fps : ℕ) :
    ∃ lower, rungsFor width height fps = ⟨width, height, fps⟩ :: lower := ⟨_, rfl⟩

/-- The top rung is in every ladder. -/
theorem ladder_pos (width height fps : ℕ) (geometry : Bool) : 0 < (ladder width height fps geometry).length := by
  obtain ⟨lower, shape⟩ := rungsFor_eq_cons width height fps
  unfold ladder
  rw [shape]
  cases geometry with
  | true => exact Nat.succ_pos _
  | false =>
    rw [if_neg Bool.false_ne_true, List.filter_cons_of_pos (by simp)]
    exact Nat.succ_pos _

/-- A rung restores over its own floor. -/
theorem dropKbps_le_restoreKbps (c : QualityController) (index : ℕ) : c.dropKbps index ≤ c.restoreKbps index := by
  have gap : c.dropKbps index ≤ c.dropKbps index * 11 / 10 := by omega
  exact gap.trans (le_max_right _ _)

/-! ## What a call does -/

/-- What a tick can do. -/
inductive Ticked (c : QualityController) (now : ℕ) : QualityController → Prop
  | below (down : c.Down) :
      Ticked c now { c with aboveSince := none, belowSince := some (c.belowSince.getD now) }
  | stepDown (down : c.Down) (held : DOWN_DWELL ≤ now - c.belowSince.getD now) (cooled : c.cooledDown now = true) :
      Ticked c now
        { c with rung := c.rung + 1, lastSwitch := some now, belowSince := none, aboveSince := none }
  | above (up : c.Up) :
      Ticked c now { c with belowSince := none, aboveSince := some (c.aboveSince.getD now) }
  | stepUp (up : c.Up) (held : UP_DWELL ≤ now - c.aboveSince.getD now) (cooled : c.cooledDown now = true) :
      Ticked c now
        { c with rung := c.rung - 1, lastSwitch := some now, belowSince := none, aboveSince := none }
  | level : Ticked c now { c with belowSince := none, aboveSince := none }

theorem ticked (c : QualityController) (now : ℕ) : Ticked c now (c.tickRung now).1 := by
  unfold tickRung
  dsimp only
  by_cases down : c.Down
  · rw [if_pos down]
    split_ifs with held
    · exact .stepDown down held.1 held.2
    · exact .below down
  rw [if_neg down]
  by_cases up : c.Up
  · rw [if_pos up]
    split_ifs with held
    · exact .stepUp up held.1 held.2
    · exact .above up
  · rw [if_neg up]
    exact .level

/-- What `update_bitrate` can do. -/
inductive Updated (c : QualityController) (now : ℕ) : QualityController → Prop
  | kept : Updated c now c
  | lowered (less : c.desiredKbps < c.bitrateKbps) :
      Updated c now { c with bitrateKbps := c.desiredKbps, lastBitrateChange := some now }
  | raised (more : c.bitrateKbps < c.desiredKbps)
      (waited : ∀ last, c.lastBitrateChange = some last → BITRATE_CHANGE_MIN_INTERVAL ≤ now - last) :
      Updated c now { c with bitrateKbps := c.desiredKbps, lastBitrateChange := some now }

theorem updated (c : QualityController) (now : ℕ) : Updated c now (c.updateBitrate now).1 := by
  unfold updateBitrate
  dsimp only
  split_ifs with same less band soon small
  · exact .kept
  · exact .lowered less
  · exact .kept
  · exact .kept
  · exact .kept
  · refine .raised (by omega) ?_
    intro last changed
    rw [changed, Option.any_some, decide_eq_true_eq] at soon
    exact Nat.not_lt.mp soon

/-- A decrease that is asked for and over the dead band is applied. -/
theorem updateBitrate_lower (less : c.desiredKbps < c.bitrateKbps)
    (band : c.bitrateKbps * 5 ≤ (c.bitrateKbps - c.desiredKbps) * 100) :
    (c.updateBitrate now).1.bitrateKbps = c.desiredKbps := by
  have outside : c.OutsideDeadBand c.desiredKbps := by
    unfold OutsideDeadBand BITRATE_DEAD_BAND_PERCENT
    omega
  unfold updateBitrate
  dsimp only
  rw [if_neg less.ne, if_pos less, if_pos outside]

theorem desiredKbps_bounds (c : QualityController) (floor : FLOOR_KBPS ≤ c.presetKbps) :
    FLOOR_KBPS ≤ c.desiredKbps ∧ c.desiredKbps ≤ c.presetKbps := by
  have least : ∀ (limit : Option ℕ) (kbps : ℕ), limit.elim kbps (min kbps) ≤ kbps := by
    intro limit kbps
    cases limit with
    | none => exact le_rfl
    | some other => exact min_le_left _ _
  refine ⟨le_max_right _ _, max_le ?_ floor⟩
  exact (least _ _).trans (least _ _)

/-! ## Bounds -/

structure Bounded (c : QualityController) : Prop where
  floor : FLOOR_KBPS ≤ c.bitrateKbps
  preset : c.bitrateKbps ≤ c.presetKbps
  inRange : c.rung < c.rungs.length

theorem bounded_new (width height fps kbps : ℕ) (geometry : Bool) : Bounded (new width height fps kbps geometry) := by
  refine ⟨le_max_right _ _, max_le ?_ (le_max_right _ _), ladder_pos width height fps geometry⟩
  have wraps := Nat.mod_le (max kbps FLOOR_KBPS * START_PERCENT) (2 ^ 32)
  change _ ≤ max kbps FLOOR_KBPS
  unfold START_PERCENT at *
  omega

theorem Bounded.step (bounded : Bounded c) (event : Event) : Bounded (c.step event) := by
  obtain ⟨floor, preset, inRange⟩ := bounded
  cases event with
  | gccTarget | rembCeiling | encoderLoad => exact ⟨floor, preset, inRange⟩
  | topSize width height =>
    change Bounded (c.setTopSize width height).1
    unfold setTopSize
    dsimp only
    split_ifs
    · exact ⟨floor, preset, inRange⟩
    all_goals
      have some := ladder_pos width height (c.rungAt 0).fps c.geometry
      exact ⟨floor, preset, (min_le_right _ _).trans_lt (Nat.sub_one_lt some.ne')⟩
  | updateBitrate now =>
    change Bounded (c.updateBitrate now).1
    obtain ⟨least, most⟩ := desiredKbps_bounds c (floor.trans preset)
    generalize (c.updateBitrate now).1 = next, updated c now = done
    cases done with
    | kept => exact ⟨floor, preset, inRange⟩
    | lowered | raised => exact ⟨least, most, inRange⟩
  | tickRung now =>
    change Bounded (c.tickRung now).1
    generalize (c.tickRung now).1 = next, ticked c now = done
    cases done with
    | below | above | level => exact ⟨floor, preset, inRange⟩
    | stepDown down => exact ⟨floor, preset, down.1⟩
    | stepUp up => exact ⟨floor, preset, (Nat.sub_le _ _).trans_lt inRange⟩

theorem Bounded.run (bounded : Bounded c) (events : List Event) : Bounded (c.run events) := by
  induction events generalizing c with
  | nil => exact bounded
  | cons event rest ih => exact ih (bounded.step event)

/-! ## History -/

def Moved (m : Moment QualityController) : Prop := m.after.rung ≠ m.before.rung

def SteppedDown (m : Moment QualityController) : Prop := m.after.rung = m.before.rung + 1

def SteppedUp (m : Moment QualityController) : Prop := m.after.rung + 1 = m.before.rung

def Changed (m : Moment QualityController) : Prop := m.after.bitrateKbps ≠ m.before.bitrateKbps

def Raised (m : Moment QualityController) : Prop := m.before.bitrateKbps < m.after.bitrateKbps

/-- The condition held at this tick and at all before it over at least `dwell`. -/
def Dwelt (holds : QualityController → Prop) (dwell : ℕ) (before : List (Moment QualityController))
    (m : Moment QualityController) : Prop :=
  ∃ since, HeldSince (fun tick => holds tick.before) Moment.now (before ++ [m]) since ∧ since + dwell ≤ m.now

/-- What a tick has to have behind it to move the rung. -/
def Evidence (before : List (Moment QualityController)) (m : Moment QualityController) : Prop :=
  (m.after.rung = m.before.rung ∨ SteppedDown m ∨ SteppedUp m) ∧
    (SteppedDown m → Dwelt Down DOWN_DWELL before m) ∧ (SteppedUp m → Dwelt Up UP_DWELL before m)

/-- A history of ticks, and the marks that the controller keeps of it. -/
structure Disciplined (c : QualityController) (ticks updates : List (Moment QualityController)) : Prop where
  below : Timer (fun tick => tick.before.Down) Moment.now ticks c.belowSince
  above : Timer (fun tick => tick.before.Up) Moment.now ticks c.aboveSince
  evidence : Each Evidence ticks
  switched : LastMark Moved Moment.now ticks c.lastSwitch
  cooled : Apart Moved Moved Moment.now SWITCH_COOLDOWN ticks
  changed : LastMark Changed Moment.now updates c.lastBitrateChange
  paced : Apart Changed Raised Moment.now BITRATE_CHANGE_MIN_INTERVAL updates

theorem cooled_of_cooledDown (cooled : c.cooledDown now = true) (mark : ℕ) (last : c.lastSwitch = some mark) :
    mark + SWITCH_COOLDOWN ≤ now := by
  rw [cooledDown, last, Option.all_some, decide_eq_true_eq] at cooled
  unfold SWITCH_COOLDOWN at *
  omega

section
variable {ticks updates : List (Moment QualityController)}

/-- A tick that leaves the rung: only the timers change. -/
theorem Disciplined.stay {next : QualityController} (kept : Disciplined c ticks updates)
    (rung : next.rung = c.rung) (lastSwitch : next.lastSwitch = c.lastSwitch)
    (lastBitrateChange : next.lastBitrateChange = c.lastBitrateChange)
    (below : Timer (fun tick => tick.before.Down) Moment.now (ticks ++ [⟨now, c, next⟩]) next.belowSince)
    (above : Timer (fun tick => tick.before.Up) Moment.now (ticks ++ [⟨now, c, next⟩]) next.aboveSince) :
    Disciplined next (ticks ++ [⟨now, c, next⟩]) updates where
  below := below
  above := above
  evidence := by
    apply kept.evidence.concat
    refine ⟨.inl rung, ?_, ?_⟩
    · intro down
      exact absurd (rung.symm.trans down) (Nat.succ_ne_self _).symm
    · intro up
      change next.rung + 1 = c.rung at up
      omega
  switched := by
    rw [lastSwitch]
    exact kept.switched.concat_of_not (not_not_intro rung)
  cooled := kept.cooled.concat kept.switched fun moved => absurd rung moved
  changed := by
    rw [lastBitrateChange]
    exact kept.changed
  paced := kept.paced

/-- A tick that moves the rung: the timers stop, and the cooldown starts. -/
theorem Disciplined.move {next : QualityController} (kept : Disciplined c ticks updates)
    (later : ∀ m ∈ ticks, m.now ≤ now) (evidence : Evidence ticks ⟨now, c, next⟩)
    (cooled : c.cooledDown now = true) (lastSwitch : next.lastSwitch = some now)
    (lastBitrateChange : next.lastBitrateChange = c.lastBitrateChange)
    (below : next.belowSince = none) (above : next.aboveSince = none) :
    Disciplined next (ticks ++ [⟨now, c, next⟩]) updates where
  below := by
    rw [below]
    exact timer_none _ _ _
  above := by
    rw [above]
    exact timer_none _ _ _
  evidence := kept.evidence.concat evidence
  switched := by
    rw [lastSwitch]
    exact lastMark_concat later
  cooled := kept.cooled.concat kept.switched fun _ => cooled_of_cooledDown cooled
  changed := by
    rw [lastBitrateChange]
    exact kept.changed
  paced := kept.paced

/-- A timer that ran for the dwell up to this tick. -/
theorem dwelt_of_timer {holds : QualityController → Prop} {timer : Option ℕ} {dwell : ℕ} {next : QualityController}
    (timed : Timer (fun tick => holds tick.before) Moment.now ticks timer) (good : holds c) (pos : 0 < dwell)
    (held : dwell ≤ now - timer.getD now) : Dwelt holds dwell ticks ⟨now, c, next⟩ := by
  have running : Timer (fun tick => holds tick.before) Moment.now (ticks ++ [⟨now, c, next⟩])
      (some (timer.getD now)) := timed.concat good
  refine ⟨timer.getD now, running _ rfl, ?_⟩
  change timer.getD now + dwell ≤ now
  omega

theorem Disciplined.tick (kept : Disciplined c ticks updates) (later : ∀ m ∈ ticks, m.now ≤ now) :
    Disciplined (c.tickRung now).1 (ticks ++ [⟨now, c, (c.tickRung now).1⟩]) updates := by
  generalize (c.tickRung now).1 = next, ticked c now = done
  cases done with
  | below down => exact kept.stay rfl rfl rfl (kept.below.concat down) (timer_none _ _ _)
  | above up => exact kept.stay rfl rfl rfl (timer_none _ _ _) (kept.above.concat up)
  | level => exact kept.stay rfl rfl rfl (timer_none _ _ _) (timer_none _ _ _)
  | stepDown down held cooled =>
    refine kept.move later ⟨.inr (.inl rfl), fun _ => dwelt_of_timer kept.below down (by decide) held, ?_⟩
      cooled rfl rfl rfl rfl
    intro up
    change c.rung + 1 + 1 = c.rung at up
    omega
  | stepUp up held cooled =>
    have above := up.1
    have back : c.rung - 1 + 1 = c.rung := Nat.sub_add_cancel above
    refine kept.move later ⟨.inr (.inr back), ?_, fun _ => dwelt_of_timer kept.above up (by decide) held⟩
      cooled rfl rfl rfl rfl
    intro down
    change c.rung - 1 = c.rung + 1 at down
    omega

theorem Disciplined.update (kept : Disciplined c ticks updates) (later : ∀ m ∈ updates, m.now ≤ now) :
    Disciplined (c.updateBitrate now).1 ticks (updates ++ [⟨now, c, (c.updateBitrate now).1⟩]) := by
  generalize (c.updateBitrate now).1 = next, updated c now = done
  cases done with
  | kept =>
    exact {
      kept with
      changed := kept.changed.concat_of_not (not_not_intro rfl)
      paced := kept.paced.concat kept.changed fun raised => absurd raised (lt_irrefl _) }
  | lowered less =>
    exact {
      below := kept.below
      above := kept.above
      evidence := kept.evidence
      switched := kept.switched
      cooled := kept.cooled
      changed := lastMark_concat later
      paced := kept.paced.concat kept.changed fun raised => absurd raised (Nat.not_lt.mpr less.le) }
  | raised more waited =>
    refine {
      below := kept.below
      above := kept.above
      evidence := kept.evidence
      switched := kept.switched
      cooled := kept.cooled
      changed := lastMark_concat later
      paced := kept.paced.concat kept.changed ?_ }
    intro _ mark last
    have enough := waited mark last
    change mark + BITRATE_CHANGE_MIN_INTERVAL ≤ now
    unfold BITRATE_CHANGE_MIN_INTERVAL at *
    omega

/-- An input changes neither the timers nor the marks. -/
theorem Disciplined.input {next : QualityController} (kept : Disciplined c ticks updates)
    (below : next.belowSince = c.belowSince) (above : next.aboveSince = c.aboveSince)
    (lastSwitch : next.lastSwitch = c.lastSwitch)
    (lastBitrateChange : next.lastBitrateChange = c.lastBitrateChange) : Disciplined next ticks updates where
  below := by
    rw [below]
    exact kept.below
  above := by
    rw [above]
    exact kept.above
  evidence := kept.evidence
  switched := by
    rw [lastSwitch]
    exact kept.switched
  cooled := kept.cooled
  changed := by
    rw [lastBitrateChange]
    exact kept.changed
  paced := kept.paced

theorem setTopSize_marks (c : QualityController) (width height : ℕ) :
    (c.setTopSize width height).1.belowSince = c.belowSince ∧
      (c.setTopSize width height).1.aboveSince = c.aboveSince ∧
      (c.setTopSize width height).1.lastSwitch = c.lastSwitch ∧
      (c.setTopSize width height).1.lastBitrateChange = c.lastBitrateChange ∧
      (c.setTopSize width height).1.presetKbps = c.presetKbps := by
  unfold setTopSize
  dsimp only
  split_ifs <;> exact ⟨rfl, rfl, rfl, rfl, rfl⟩

end

/-! ## Runs -/

theorem presetKbps_step (c : QualityController) (event : Event) : (c.step event).presetKbps = c.presetKbps := by
  cases event with
  | gccTarget | rembCeiling | encoderLoad => rfl
  | topSize width height => exact (setTopSize_marks c width height).2.2.2.2
  | updateBitrate now =>
    change (c.updateBitrate now).1.presetKbps = _
    generalize (c.updateBitrate now).1 = next, updated c now = done
    cases done <;> rfl
  | tickRung now =>
    change (c.tickRung now).1.presetKbps = _
    generalize (c.tickRung now).1 = next, ticked c now = done
    cases done <;> rfl

theorem presetKbps_run (c : QualityController) (events : List Event) : (c.run events).presetKbps = c.presetKbps := by
  induction events generalizing c with
  | nil => rfl
  | cons event rest ih => exact (ih (c.step event)).trans (presetKbps_step c event)

theorem time_of_tick {event : Event} (timed : event.tick = some now) : event = .tickRung now := by
  cases event <;> cases timed
  rfl

theorem time_of_update {event : Event} (timed : event.update = some now) : event = .updateBitrate now := by
  cases event <;> cases timed
  rfl

theorem disciplined_new (width height fps kbps : ℕ) (geometry : Bool) :
    Disciplined (new width height fps kbps geometry) [] [] where
  below := timer_none _ _ _
  above := timer_none _ _ _
  evidence := each_nil _
  switched := lastMark_nil _ _ _
  cooled := apart_nil _ _ _ _
  changed := lastMark_nil _ _ _
  paced := apart_nil _ _ _ _

/-- The discipline along a run whose times do not decrease, one call at a time. -/
theorem disciplined_run (width height fps kbps : ℕ) (geometry : Bool) {events : List Event}
    (ordered : Ordered Event.time events) :
    Disciplined ((new width height fps kbps geometry).run events)
      ((new width height fps kbps geometry).ticks events)
      ((new width height fps kbps geometry).updates events) := by
  generalize new width height fps kbps geometry = start, disciplined_new width height fps kbps geometry = fresh
  induction events using List.reverseRecOn with
  | nil => exact fresh
  | append_singleton events event ih =>
    obtain ⟨before, later⟩ := ordered.of_concat
    have kept := ih before
    have ran : start.run (events ++ [event]) = (start.run events).step event := List.foldl_concat ..
    have ticks := moments_concat step Event.tick start events event
    have updates := moments_concat step Event.update start events event
    rw [ran, QualityController.ticks, QualityController.updates, ticks, updates]
    cases event with
    | gccTarget | rembCeiling | encoderLoad =>
      rw [momentOf_none step Event.tick _ rfl, momentOf_none step Event.update _ rfl, List.append_nil, List.append_nil]
      exact kept.input rfl rfl rfl rfl
    | topSize width height =>
      rw [momentOf_none step Event.tick _ rfl, momentOf_none step Event.update _ rfl, List.append_nil, List.append_nil]
      obtain ⟨below, above, lastSwitch, lastChange, -⟩ := setTopSize_marks (start.run events) width height
      exact kept.input below above lastSwitch lastChange
    | updateBitrate now =>
      rw [momentOf_none step Event.tick _ rfl, momentOf_some step Event.update _ rfl, List.append_nil]
      refine kept.update ?_
      intro m member
      obtain ⟨front, other, back, rfl, timed, -⟩ := exists_split_of_mem step Event.update member
      obtain rfl := time_of_update timed
      exact later _ (List.mem_append_right _ List.mem_cons_self) m.now now rfl rfl
    | tickRung now =>
      rw [momentOf_some step Event.tick _ rfl, momentOf_none step Event.update _ rfl, List.append_nil]
      refine kept.tick ?_
      intro m member
      obtain ⟨front, other, back, rfl, timed, -⟩ := exists_split_of_mem step Event.tick member
      obtain rfl := time_of_tick timed
      exact later _ (List.mem_append_right _ List.mem_cons_self) m.now now rfl rfl

/-! ## Thresholds at a switch -/

/-- The bitrate that allowed a step up is over the floor of the rung entered. -/
theorem floor_of_steppedUp (up : (c.tickRung now).1.rung + 1 = c.rung) :
    (c.tickRung now).1.dropKbps (c.tickRung now).1.rung ≤ (c.tickRung now).1.bitrateKbps := by
  generalize (c.tickRung now).1 = next, ticked c now = done at *
  cases done with
  | stepUp above held cooled => exact (dropKbps_le_restoreKbps c _).trans above.2.2
  | stepDown down held cooled =>
    change c.rung + 1 + 1 = c.rung at up
    omega
  | below | above | level => exact absurd up (Nat.succ_ne_self _)

/-- The bitrate that caused a step down does not let the rung restore. -/
theorem not_up_of_steppedDown (down : (c.tickRung now).1.rung = c.rung + 1)
    (low : c.bitrateKbps < c.dropKbps c.rung) : ¬(c.tickRung now).1.Up := by
  generalize (c.tickRung now).1 = next, ticked c now = done at *
  rintro ⟨-, -, restores⟩
  cases done with
  | stepDown down held cooled =>
    change c.restoreKbps (c.rung + 1 - 1) ≤ c.bitrateKbps at restores
    rw [Nat.add_sub_cancel] at restores
    exact absurd ((dropKbps_le_restoreKbps c c.rung).trans restores) (Nat.not_le.mpr low)
  | stepUp up held cooled =>
    change c.rung - 1 = c.rung + 1 at down
    omega
  | below | above | level => exact absurd down (Nat.succ_ne_self _).symm

/-- The discipline of the controller, over every run. -/
theorem controller_discipline (width height fps kbps : ℕ) (geometry : Bool) (events : List Event)
    (ordered : Ordered Event.time events) :
    let start := new width height fps kbps geometry
    (FLOOR_KBPS ≤ (start.run events).bitrateKbps ∧ (start.run events).bitrateKbps ≤ max kbps FLOOR_KBPS ∧
        (start.run events).rung < (start.run events).rungs.length) ∧
      (Each Evidence (start.ticks events) ∧ Apart Moved Moved Moment.now SWITCH_COOLDOWN (start.ticks events)) ∧
      (∀ m ∈ start.ticks events,
        (SteppedUp m → m.after.dropKbps m.after.rung ≤ m.after.bitrateKbps) ∧
          (SteppedDown m → m.before.bitrateKbps < m.before.dropKbps m.before.rung → ¬m.after.Up)) ∧
      Apart Changed Raised Moment.now BITRATE_CHANGE_MIN_INTERVAL (start.updates events) ∧
      ∀ m ∈ start.updates events, m.before.desiredKbps * 100 ≤ m.before.bitrateKbps * 95 →
        m.after.bitrateKbps = m.before.desiredKbps := by
  intro start
  have bounded : Bounded (start.run events) := (bounded_new width height fps kbps geometry).run events
  have kept : Disciplined (start.run events) (start.ticks events) (start.updates events) :=
    disciplined_run width height fps kbps geometry ordered
  refine ⟨⟨bounded.floor, ?_, bounded.inRange⟩, ⟨kept.evidence, kept.cooled⟩, ?_, kept.paced, ?_⟩
  · exact bounded.preset.trans_eq (presetKbps_run start events)
  · intro m member
    obtain ⟨front, event, back, -, timed, -, after⟩ := exists_split_of_mem step Event.tick member
    obtain rfl := time_of_tick timed
    change m.after = (m.before.tickRung m.now).1 at after
    unfold SteppedUp SteppedDown
    rw [after]
    exact ⟨floor_of_steppedUp, not_up_of_steppedDown⟩
  · intro m member band
    obtain ⟨front, event, back, -, timed, -, after⟩ := exists_split_of_mem step Event.update member
    obtain rfl := time_of_update timed
    rw [after]
    have floor : 300 ≤ m.before.desiredKbps := le_max_right _ _
    exact updateBitrate_lower (by omega) (by omega)

/-- Two seconds of overload at 720p60, then a target under the preset. -/
def overload : List Event :=
  [.encoderLoad { framesOffered := 60, queueDrops := 6, fps := 60 }, .tickRung 0, .updateBitrate 0,
    .tickRung (2 * 10 ^ 9), .gccTarget 1000000, .updateBitrate (3 * 10 ^ 9)]

theorem controller_discipline_overload :
    let start := new 1280 720 60 2500 true
    (FLOOR_KBPS ≤ (start.run overload).bitrateKbps ∧ (start.run overload).bitrateKbps ≤ max 2500 FLOOR_KBPS ∧
        (start.run overload).rung < (start.run overload).rungs.length) ∧
      (Each Evidence (start.ticks overload) ∧ Apart Moved Moved Moment.now SWITCH_COOLDOWN (start.ticks overload)) ∧
      (∀ m ∈ start.ticks overload,
        (SteppedUp m → m.after.dropKbps m.after.rung ≤ m.after.bitrateKbps) ∧
          (SteppedDown m → m.before.bitrateKbps < m.before.dropKbps m.before.rung → ¬m.after.Up)) ∧
      Apart Changed Raised Moment.now BITRATE_CHANGE_MIN_INTERVAL (start.updates overload) ∧
      ∀ m ∈ start.updates overload, m.before.desiredKbps * 100 ≤ m.before.bitrateKbps * 95 →
        m.after.bitrateKbps = m.before.desiredKbps :=
  controller_discipline 1280 720 60 2500 true overload (by
    unfold Ordered
    decide)

example : ((new 1280 720 60 2500 true).run overload).rung = 1 := by decide +kernel

end Mello.Stream.ControllerDiscipline
