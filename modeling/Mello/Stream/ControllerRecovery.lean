import Mello.Stream.ControllerDiscipline

/-!
How the quality controller comes back up once the load is gone. The share of a target
is rounded down twice, and the dead band holds what is near it; what the bitrate
settles at decides whether a rung is ever left.
-/

namespace Mello.Stream.ControllerRecovery
open Mello.Library Nearest Journal Rungs Controller QualityController ControllerDiscipline

/-! ## The rungs go down -/

def pixelRate (rung : Rung) : ℕ := rung.width * rung.height * rung.fps

/-- No rung has more pixels a second than one above it. -/
def Descending (rungs : List Rung) : Prop := rungs.Pairwise fun upper lower => pixelRate lower ≤ pixelRate upper

theorem widthFor_mono_low {width height low target : ℕ} (wide : width < 2 ^ 32) (le : low ≤ target)
    (small : target ≤ 540) (less : target < height) : widthFor width height low ≤ widthFor width height target := by
  have within : (width : ℚ) * target / height ≤ (2 ^ 32 - 16 : ℕ) := by
    have pos : (0 : ℚ) < height := by exact_mod_cast (Nat.zero_le target).trans_lt less
    rw [div_le_iff₀ pos]
    have product : width * target ≤ (2 ^ 32 - 16) * height := by
      calc width * target ≤ (2 ^ 32 - 1) * target := Nat.mul_le_mul_right _ (by omega)
        _ ≤ (2 ^ 32 - 16) * (target + 1) := by omega
        _ ≤ (2 ^ 32 - 16) * height := Nat.mul_le_mul_left _ less
    exact_mod_cast product
  rw [widthFor_eq_clamp_of_exact less within,
    widthFor_eq_clamp_of_exact (le.trans_lt less) ((exact_mono width height le).trans within)]
  exact clamp_mono width (dvd_nearest 16 _) (nearest_mono 16 (exact_mono width height le))

theorem pixelRate_mono {a b : Rung} (width : a.width ≤ b.width) (height : a.height ≤ b.height) (fps : a.fps ≤ b.fps) :
    pixelRate a ≤ pixelRate b := Nat.mul_le_mul (Nat.mul_le_mul width height) fps

theorem descending_rungsFor {width : ℕ} (height fps : ℕ) (wide : width < 2 ^ 32) :
    Descending (rungsFor width height fps) := by
  have heights : ∀ target ∈ GEOMETRY_HEIGHTS, target ≤ 540 := by decide
  have lower : ∀ upper : Rung, upper.width = width → upper.height = height → min LOW_FPS fps ≤ upper.fps →
      ∀ rung ∈ (GEOMETRY_HEIGHTS.filter (· < height)).map
        (fun target => (⟨widthFor width height target, target, min LOW_FPS fps⟩ : Rung)),
        pixelRate rung ≤ pixelRate upper := by
    rintro upper rfl rfl faster rung member
    obtain ⟨target, listed, rfl⟩ := List.mem_map.mp member
    have less := of_decide_eq_true (List.mem_filter.mp listed).2
    exact pixelRate_mono (widthFor_le _ _ _) less.le faster
  have geometry : Descending ((GEOMETRY_HEIGHTS.filter (· < height)).map
      fun target => ⟨widthFor width height target, target, min LOW_FPS fps⟩) := by
    rw [Descending, List.pairwise_map]
    have falling : GEOMETRY_HEIGHTS.Pairwise (· ≥ ·) := by decide
    apply (falling.filter (· < height)).imp_of_mem
    intro target low member _ le
    obtain ⟨listed, less⟩ := List.mem_filter.mp member
    exact pixelRate_mono (widthFor_mono_low wide le (heights target listed) (of_decide_eq_true less)) le le_rfl
  unfold rungsFor
  rw [List.cons_append]
  apply List.pairwise_cons.mpr
  split_ifs with faster
  · refine ⟨?_, List.pairwise_cons.mpr ⟨lower ⟨width, height, LOW_FPS⟩ rfl rfl (min_le_left _ _), geometry⟩⟩
    intro rung member
    rcases List.mem_cons.mp member with rfl | inside
    · exact pixelRate_mono le_rfl le_rfl faster.le
    · exact lower _ rfl rfl (min_le_right _ _) rung inside
  · exact ⟨lower _ rfl rfl (min_le_right _ _), geometry⟩

theorem descending_ladder {width : ℕ} (height fps : ℕ) (geometry : Bool) (wide : width < 2 ^ 32) :
    Descending (ladder width height fps geometry) := by
  have all := descending_rungsFor height fps wide
  unfold ladder
  split_ifs
  · exact all
  · exact List.Pairwise.filter _ all

theorem kbpsAtBpp_mono {a b : Rung} {bpp : ℚ} (nonneg : 0 ≤ bpp) (le : pixelRate a ≤ pixelRate b) :
    kbpsAtBpp a bpp ≤ kbpsAtBpp b bpp := by
  have rates : (a.width * a.height * a.fps : ℚ) ≤ b.width * b.height * b.fps := by
    unfold pixelRate at le
    exact_mod_cast le
  apply nearest_mono
  gcongr

section
variable {c : QualityController} {upper lower : ℕ}

theorem pixelRate_rungAt_le (descending : Descending c.rungs) (le : upper ≤ lower) (inside : lower < c.rungs.length) :
    pixelRate (c.rungAt lower) ≤ pixelRate (c.rungAt upper) := by
  rcases le.eq_or_lt with rfl | less
  · exact le_rfl
  · rw [rungAt, rungAt, List.getD_eq_getElem _ _ inside, List.getD_eq_getElem _ _ (less.trans inside)]
    exact List.pairwise_iff_getElem.mp descending upper lower _ inside less

theorem dropKbps_le (descending : Descending c.rungs) (le : upper ≤ lower) (inside : lower < c.rungs.length) :
    c.dropKbps lower ≤ c.dropKbps upper :=
  kbpsAtBpp_mono (by unfold DROP_BPP; norm_num) (pixelRate_rungAt_le descending le inside)

theorem restoreKbps_le (descending : Descending c.rungs) (le : upper ≤ lower) (inside : lower < c.rungs.length) :
    c.restoreKbps lower ≤ c.restoreKbps upper := by
  have floors := dropKbps_le descending le inside
  have bits : kbpsAtBpp (c.rungAt lower) RESTORE_BPP ≤ kbpsAtBpp (c.rungAt upper) RESTORE_BPP :=
    kbpsAtBpp_mono (by unfold RESTORE_BPP; norm_num) (pixelRate_rungAt_le descending le inside)
  exact max_le_max (min_le_min_right _ bits) (Nat.div_le_div_right (Nat.mul_le_mul_right _ floors))

end

/-! ## What a reachable state keeps -/

/-- The width of a new source size. -/
def topWidth : Event → Option ℕ
  | .topSize width _ => some width
  | _ => none

/-- A width that fits its `u32`. -/
def Sized (event : Event) : Prop := ∀ width ∈ topWidth event, width < 2 ^ 32

/-- The marks are of times up to `now`. -/
structure MarkedBy (c : QualityController) (now : ℕ) : Prop where
  switched : ∀ mark, c.lastSwitch = some mark → mark ≤ now
  changed : ∀ mark, c.lastBitrateChange = some mark → mark ≤ now
  above : ∀ mark, c.aboveSince = some mark → mark ≤ now

theorem rungs_of_ticked {c next : QualityController} {now : ℕ} (done : Ticked c now next) : next.rungs = c.rungs := by
  cases done <;> rfl

theorem rungs_of_updated {c next : QualityController} {now : ℕ} (done : Updated c now next) : next.rungs = c.rungs := by
  cases done <;> rfl

theorem descending_step {c : QualityController} {event : Event} (descending : Descending c.rungs) (sized : Sized event) :
    Descending (c.step event).rungs := by
  cases event with
  | gccTarget | rembCeiling | encoderLoad => exact descending
  | topSize width height =>
    change Descending (c.setTopSize width height).1.rungs
    unfold setTopSize
    dsimp only
    split_ifs
    · exact descending
    all_goals exact descending_ladder height _ _ (sized width rfl)
  | updateBitrate now =>
    change Descending (c.updateBitrate now).1.rungs
    rw [rungs_of_updated (updated c now)]
    exact descending
  | tickRung now =>
    change Descending (c.tickRung now).1.rungs
    rw [rungs_of_ticked (ticked c now)]
    exact descending

theorem descending_run {c : QualityController} {events : List Event} (descending : Descending c.rungs)
    (sized : ∀ event ∈ events, Sized event) : Descending (c.run events).rungs := by
  induction events generalizing c with
  | nil => exact descending
  | cons event rest ih =>
    exact ih (descending_step descending (sized event List.mem_cons_self)) fun other member =>
      sized other (List.mem_cons_of_mem _ member)

/-- A mark that was set now, or before. -/
theorem le_of_getD {timer : Option ℕ} {now later : ℕ} (kept : ∀ mark, timer = some mark → mark ≤ later)
    (before : now ≤ later) : timer.getD now ≤ later := by
  cases timer with
  | none => exact before
  | some mark => exact kept mark rfl

theorem markedBy_step {c : QualityController} {event : Event} {now : ℕ} (marked : MarkedBy c now)
    (timely : ∀ time, event.time = some time → time ≤ now) : MarkedBy (c.step event) now := by
  obtain ⟨switched, changed, above⟩ := marked
  cases event with
  | gccTarget | rembCeiling | encoderLoad => exact ⟨switched, changed, above⟩
  | topSize width height =>
    obtain ⟨-, aboveSince, lastSwitch, lastChange, -⟩ := setTopSize_marks c width height
    refine ⟨?_, ?_, ?_⟩
    · rwa [← lastSwitch] at switched
    · rwa [← lastChange] at changed
    · rwa [← aboveSince] at above
  | updateBitrate time =>
    change MarkedBy (c.updateBitrate time).1 now
    have before := timely time rfl
    generalize (c.updateBitrate time).1 = next, updated c time = done
    cases done with
    | kept => exact ⟨switched, changed, above⟩
    | lowered | raised =>
      refine ⟨switched, ?_, above⟩
      intro mark same
      cases same
      exact before
  | tickRung time =>
    change MarkedBy (c.tickRung time).1 now
    have before := timely time rfl
    generalize (c.tickRung time).1 = next, ticked c time = done
    cases done with
    | below | level => exact ⟨switched, changed, nofun⟩
    | above =>
      refine ⟨switched, changed, ?_⟩
      intro mark same
      cases same
      exact le_of_getD above before
    | stepDown | stepUp =>
      refine ⟨?_, changed, nofun⟩
      intro mark same
      cases same
      exact before

theorem markedBy_run {c : QualityController} {events : List Event} {now : ℕ} (marked : MarkedBy c now)
    (timely : ∀ event ∈ events, ∀ time, event.time = some time → time ≤ now) : MarkedBy (c.run events) now := by
  induction events generalizing c with
  | nil => exact marked
  | cons event rest ih =>
    exact ih (markedBy_step marked (timely event List.mem_cons_self)) fun other member =>
      timely other (List.mem_cons_of_mem _ member)

/-! ## Where the bitrate settles -/

/-- Where the coalescing rule leaves the bitrate while `desired` is asked for. -/
def settledKbps (c : QualityController) (desired : ℕ) : ℕ :=
  if c.OutsideDeadBand desired ∨ (c.bitrateKbps < desired ∧ desired = c.presetKbps) then desired else c.bitrateKbps

/-- The bitrate that a share of the target asks for, with no other ceiling. -/
def desiredOf (c : QualityController) (share : ℕ) : ℕ := max (min c.presetKbps share) FLOOR_KBPS

/-- No load, no ceiling, and this share of the target. -/
structure Calm (c : QualityController) (share : ℕ) : Prop where
  load : c.overloaded = false
  remb : c.rembKbps = none
  gcc : c.gccKbps = some share

theorem Calm.desiredKbps {c : QualityController} {share : ℕ} (calm : Calm c share) :
    c.desiredKbps = desiredOf c share := by
  unfold QualityController.desiredKbps
  rw [calm.gcc, calm.remb]
  rfl

/-- A call sets what the bitrate settles at, or has to wait for the end of an interval. -/
theorem updateBitrate_settles (c : QualityController) (now : ℕ) :
    (c.updateBitrate now).1.bitrateKbps = settledKbps c c.desiredKbps ∨
      ((c.updateBitrate now).1 = c ∧
        ∃ last, c.lastBitrateChange = some last ∧ now < last + BITRATE_CHANGE_MIN_INTERVAL) := by
  unfold updateBitrate settledKbps
  dsimp only
  by_cases same : c.desiredKbps = c.bitrateKbps
  · left
    rw [if_pos same, same, ite_self]
  rw [if_neg same]
  by_cases less : c.desiredKbps < c.bitrateKbps
  · left
    rw [if_pos less]
    by_cases outside : c.OutsideDeadBand c.desiredKbps
    · rw [if_pos outside, if_pos (Or.inl outside)]
    · have stays : ¬(c.OutsideDeadBand c.desiredKbps ∨
          (c.bitrateKbps < c.desiredKbps ∧ c.desiredKbps = c.presetKbps)) := by
        rintro (band | ⟨more, -⟩)
        · exact outside band
        · omega
      rw [if_neg outside, if_neg stays]
  rw [if_neg less]
  by_cases soon : (c.lastBitrateChange.any fun last => decide (now - last < BITRATE_CHANGE_MIN_INTERVAL)) = true
  · right
    rw [if_pos soon]
    refine ⟨rfl, ?_⟩
    cases changed : c.lastBitrateChange with
    | none =>
      rw [changed] at soon
      cases soon
    | some last =>
      rw [changed, Option.any_some, decide_eq_true_eq] at soon
      exact ⟨last, rfl, by omega⟩
  left
  rw [if_neg soon]
  by_cases near : ¬c.OutsideDeadBand c.desiredKbps ∧ c.desiredKbps ≠ c.presetKbps
  · have stays : ¬(c.OutsideDeadBand c.desiredKbps ∨
        (c.bitrateKbps < c.desiredKbps ∧ c.desiredKbps = c.presetKbps)) := by
      rintro (band | ⟨-, whole⟩)
      · exact near.1 band
      · exact near.2 whole
    rw [if_pos near, if_neg stays]
  · have moves : c.OutsideDeadBand c.desiredKbps ∨
        (c.bitrateKbps < c.desiredKbps ∧ c.desiredKbps = c.presetKbps) := by
      by_contra stays
      rw [not_or, not_and] at stays
      exact near ⟨stays.1, stays.2 (by omega)⟩
    rw [if_neg near, if_pos moves]

def Settled (c : QualityController) (desired : ℕ) : Prop := settledKbps c desired = c.bitrateKbps

/-- What the bitrate settles at, it stays at. -/
theorem settled_of_eq {c next : QualityController} {desired : ℕ} (rate : next.bitrateKbps = settledKbps c desired)
    (preset : next.presetKbps = c.presetKbps) : Settled next desired := by
  unfold Settled
  by_cases moves : c.OutsideDeadBand desired ∨ (c.bitrateKbps < desired ∧ desired = c.presetKbps)
  · rw [settledKbps, if_pos moves] at rate
    rw [settledKbps, rate, ite_self]
  · have stays := moves
    rw [settledKbps, if_neg moves] at rate
    unfold OutsideDeadBand at stays
    rw [← rate, ← preset] at stays
    unfold settledKbps OutsideDeadBand
    rw [if_neg stays]

/-- Since `start` no call came late enough to end the interval of a change before it. -/
structure Waiting (c : QualityController) (start : ℕ) (times : List ℕ) : Prop where
  changed : ∀ mark, c.lastBitrateChange = some mark → mark ≤ start
  early : ∀ x ∈ times, x < start + BITRATE_CHANGE_MIN_INTERVAL

theorem settles_updateBitrate {c : QualityController} {start now : ℕ} {times : List ℕ}
    (settles : Settled c c.desiredKbps ∨ Waiting c start times) :
    Settled (c.updateBitrate now).1 c.desiredKbps ∨ Waiting (c.updateBitrate now).1 start (times ++ [now]) := by
  rcases updateBitrate_settles c now with rate | ⟨same, last, changed, soon⟩
  · exact .inl (settled_of_eq rate (presetKbps_step c (.updateBitrate now)))
  rw [same]
  refine settles.imp_right fun waiting => ⟨waiting.changed, ?_⟩
  intro x member
  rcases List.mem_append.mp member with earlier | this
  · exact waiting.early x earlier
  · have before := waiting.changed last changed
    rw [List.mem_singleton.mp this]
    omega

/-! ## A stretch of calls -/

def SECOND : ℕ := 10 ^ 9

/-- What follows from a time on: no new size, `update_bitrate` at least every 250 ms
and `tick_rung` every second, until `stop`. -/
structure Stretch (start stop : ℕ) (future : List Event) : Prop where
  ordered : Ordered Event.time future
  from_start : ∀ now ∈ future.filterMap Event.time, start ≤ now
  same_size : ∀ event ∈ future, topWidth event = none
  updates : Paced BITRATE_CHANGE_MIN_INTERVAL stop start (future.filterMap Event.update)
  ticks : Paced SECOND stop start (future.filterMap Event.tick)

theorem time_of_pick {event : Event} {now : ℕ} :
    (event.tick = some now → event.time = some now) ∧ (event.update = some now → event.time = some now) := by
  constructor
  · intro timed
    rw [time_of_tick timed]
    rfl
  · intro timed
    rw [time_of_update timed]
    rfl

section
variable {start stop now : ℕ} {before after : List Event} {event : Event}

theorem Stretch.later {future : List Event} (stretch : Stretch start stop future) (event : Event) (member : event ∈ future)
    (now : ℕ) (timed : event.time = some now) : start ≤ now :=
  stretch.from_start now (List.mem_filterMap.mpr ⟨event, member, timed⟩)

theorem Stretch.sizes {future : List Event} (stretch : Stretch start stop future) (width height : ℕ) :
    Event.topSize width height ∉ future := by
  intro member
  cases stretch.same_size _ member

theorem Stretch.rest (stretch : Stretch start stop (before ++ event :: after)) (timed : event.time = some now) :
    Stretch now stop after := by
  have ordered := stretch.ordered
  rw [Ordered, List.filterMap_append, List.filterMap_cons_some timed, List.pairwise_append,
    List.pairwise_cons] at ordered
  obtain ⟨-, ⟨later, rest⟩, sooner⟩ := ordered
  have passed : ∀ pick : Event → Option ℕ, (∀ other x, pick other = some x → other.time = some x) →
      ∀ x ∈ (before ++ [event]).filterMap pick, x ≤ now := by
    intro pick picked x member
    obtain ⟨other, inside, at_⟩ := List.mem_filterMap.mp member
    have same := picked other x at_
    rcases List.mem_append.mp inside with earlier | this
    · exact sooner x (List.mem_filterMap.mpr ⟨other, earlier, same⟩) now List.mem_cons_self
    · rw [List.mem_singleton.mp this, timed] at same
      exact (Option.some.inj same).ge
  have from_ : start ≤ now := stretch.later event (List.mem_append_right _ List.mem_cons_self) now timed
  have shape : before ++ event :: after = (before ++ [event]) ++ after := (List.append_cons before event after)
  have updates := stretch.updates
  have ticks := stretch.ticks
  rw [shape, List.filterMap_append] at updates ticks
  refine ⟨rest, ?_, ?_, updates.rest from_ (passed _ fun _ _ => time_of_pick.2),
    ticks.rest from_ (passed _ fun _ _ => time_of_pick.1)⟩
  · exact later
  · intro other member
    exact stretch.same_size other (List.mem_append_right _ (List.mem_cons_of_mem _ member))

/-- A call of one kind in every window, and before any call that is later still. -/
theorem Stretch.update_before (stretch : Stretch start stop (before ++ event :: after)) (timed : event.time = some now)
    {t : ℕ} (from_ : start ≤ t) (until_ : t < stop) (late : t + BITRATE_CHANGE_MIN_INTERVAL < now) :
    ∃ x ∈ before.filterMap Event.update, t < x ∧ x ≤ t + BITRATE_CHANGE_MIN_INTERVAL := by
  obtain ⟨x, member, inside⟩ := stretch.updates.exists_mem from_ until_
  exact ⟨x, stretch.ordered.mem_before timed (fun _ _ => time_of_pick.2) member (by omega), inside⟩

theorem Stretch.tick_before (stretch : Stretch start stop (before ++ event :: after)) (timed : event.time = some now)
    {t : ℕ} (from_ : start ≤ t) (until_ : t < stop) (late : t + SECOND < now) :
    ∃ x ∈ before.filterMap Event.tick, t < x ∧ x ≤ t + SECOND := by
  obtain ⟨x, member, inside⟩ := stretch.ticks.exists_mem from_ until_
  exact ⟨x, stretch.ordered.mem_before timed (fun _ _ => time_of_pick.1) member (by omega), inside⟩

/-- The wait is over half a second after it started. -/
theorem Waiting.not_late {c : QualityController} {q : ℕ} (waiting : Waiting c q (before.filterMap Event.update))
    (stretch : Stretch start stop (before ++ event :: after)) (timed : event.time = some now) (from_ : start ≤ q)
    (until_ : q + BITRATE_CHANGE_MIN_INTERVAL < stop) : now ≤ q + 2 * BITRATE_CHANGE_MIN_INTERVAL := by
  by_contra late
  obtain ⟨x, member, after_, -⟩ :=
    stretch.update_before timed (show start ≤ q + BITRATE_CHANGE_MIN_INTERVAL by omega) until_ (by omega)
  have early := waiting.early x member
  omega

end

/-! ## Climbing -/

theorem tickRung_of_up {c : QualityController} (now : ℕ) (level : ¬c.Down) (up : c.Up) :
    (c.tickRung now).1 =
      if UP_DWELL ≤ now - c.aboveSince.getD now ∧ c.cooledDown now = true then
        { c with rung := c.rung - 1, lastSwitch := some now, belowSince := none, aboveSince := none }
      else { c with belowSince := none, aboveSince := some (c.aboveSince.getD now) } := by
  unfold tickRung
  rw [if_neg level, if_pos up]
  dsimp only
  exact apply_ite Prod.fst _ _ _

/-- Since `start` the rung has not changed, and the timer of a step up runs from the first tick on. -/
structure Climbing (c : QualityController) (start : ℕ) (times : List ℕ) : Prop where
  switched : ∀ mark, c.lastSwitch = some mark → mark ≤ start
  above : ∀ since, c.aboveSince = some since → since ≤ start ∨ since ∈ times
  running : ∀ x ∈ times, start < x → ∃ since, c.aboveSince = some since ∧ since ≤ x

/-- A call that is no tick, of the same ladder. -/
theorem step_of_not_tick {c : QualityController} {event : Event} (none : event.tick = none) :
    (c.step event).lastSwitch = c.lastSwitch ∧ (c.step event).aboveSince = c.aboveSince := by
  cases event with
  | gccTarget | rembCeiling | encoderLoad => exact ⟨rfl, rfl⟩
  | topSize width height =>
    obtain ⟨-, above, lastSwitch, -, -⟩ := setTopSize_marks c width height
    exact ⟨lastSwitch, above⟩
  | updateBitrate now =>
    change (c.updateBitrate now).1.lastSwitch = _ ∧ (c.updateBitrate now).1.aboveSince = _
    generalize (c.updateBitrate now).1 = next, updated c now = done
    cases done <;> exact ⟨rfl, rfl⟩
  | tickRung now => cases none

section
variable {c : QualityController} {start now : ℕ} {times : List ℕ}

theorem mem_of_getD {timer : Option ℕ} (kept : ∀ since, timer = some since → since ≤ start ∨ since ∈ times) :
    timer.getD now ≤ start ∨ timer.getD now ∈ times ++ [now] := by
  cases timer with
  | none => exact .inr (List.mem_append_right _ (List.mem_singleton_self now))
  | some since => exact (kept since rfl).imp_right (List.mem_append_left _)

/-- A tick up to `start` may do anything. -/
theorem Climbing.tick_of_le (climbing : Climbing c start times) (earlier : ∀ x ∈ times, x ≤ now) (soon : now ≤ start) :
    Climbing (c.tickRung now).1 start (times ++ [now]) := by
  have running : ∀ (next : QualityController), ∀ x ∈ times ++ [now], start < x →
      ∃ since, next.aboveSince = some since ∧ since ≤ x := by
    intro next x member late
    rcases List.mem_append.mp member with before | this
    · exact absurd ((earlier x before).trans soon) (Nat.not_le.mpr late)
    · rw [List.mem_singleton.mp this] at late
      exact absurd soon (Nat.not_le.mpr late)
  generalize (c.tickRung now).1 = next, ticked c now = done
  cases done with
  | below | level => exact ⟨climbing.switched, nofun, running _⟩
  | above =>
    refine ⟨climbing.switched, ?_, running _⟩
    intro since same
    cases same
    exact mem_of_getD climbing.above
  | stepDown | stepUp =>
    refine ⟨?_, nofun, running _⟩
    intro mark same
    cases same
    exact soon

/-- A tick after it either steps up or leaves the timer running. -/
theorem Climbing.tick (climbing : Climbing c start times) (level : ¬c.Down) (up : c.Up)
    (held : (c.tickRung now).1.rung + 1 ≠ c.rung) (earlier : ∀ x ∈ times, x ≤ now) (late : start < now) :
    Climbing (c.tickRung now).1 start (times ++ [now]) := by
  have done := tickRung_of_up now level up
  by_cases moves : UP_DWELL ≤ now - c.aboveSince.getD now ∧ c.cooledDown now = true
  · rw [if_pos moves] at done
    rw [done] at held
    exact absurd (Nat.sub_add_cancel up.1) held
  rw [if_neg moves] at done
  rw [done]
  refine ⟨climbing.switched, ?_, ?_⟩
  · intro since same
    cases same
    exact mem_of_getD climbing.above
  · intro x member after
    refine ⟨_, rfl, ?_⟩
    rcases List.mem_append.mp member with before | this
    · obtain ⟨since, same, sooner⟩ := climbing.running x before after
      rw [same]
      exact sooner
    · rw [List.mem_singleton.mp this]
      refine le_of_getD ?_ le_rfl
      intro since same
      rcases climbing.above since same with first | inside
      · exact first.trans late.le
      · exact earlier since inside

/-- With the timer long enough behind it, a tick steps up. -/
theorem Climbing.steps (climbing : Climbing c start times) (level : ¬c.Down) (up : c.Up) {x : ℕ} (member : x ∈ times)
    (after : start < x) (dwelt : x + UP_DWELL ≤ now) (cooled : start + SWITCH_COOLDOWN ≤ now) :
    (c.tickRung now).1.rung + 1 = c.rung := by
  obtain ⟨since, same, sooner⟩ := climbing.running x member after
  have cool : c.cooledDown now = true := by
    unfold cooledDown
    cases last : c.lastSwitch with
    | none => rfl
    | some mark =>
      have before := climbing.switched mark last
      rw [Option.all_some, decide_eq_true_eq]
      omega
  rw [tickRung_of_up now level up, same, Option.getD_some, if_pos ⟨by omega, cool⟩]
  exact Nat.sub_add_cancel up.1

end

section
variable {c : QualityController} {origin start stop : ℕ} {future : List Event}

theorem time_le {before after : List Event} {event : Event} {now : ℕ} (ordered : Ordered Event.time (before ++ event :: after))
    (timed : event.time = some now) : ∀ other ∈ before, ∀ x, other.time = some x → x ≤ now := by
  intro other inside x same
  rw [Ordered, List.filterMap_append, List.filterMap_cons_some timed, List.pairwise_append] at ordered
  exact ordered.2.2 x (List.mem_filterMap.mpr ⟨other, inside, same⟩) now List.mem_cons_self

theorem times_le {before after : List Event} {event : Event} {now : ℕ} (ordered : Ordered Event.time (before ++ event :: after))
    (timed : event.time = some now) : ∀ x ∈ before.filterMap Event.tick, x ≤ now := by
  intro x member
  obtain ⟨other, inside, at_⟩ := List.mem_filterMap.mp member
  exact time_le ordered timed other inside x (time_of_pick.1 at_)

theorem MarkedBy.mono (marked : MarkedBy c origin) (le : origin ≤ stop) : MarkedBy c stop :=
  ⟨fun mark same => (marked.switched mark same).trans le, fun mark same => (marked.changed mark same).trans le,
    fun mark same => (marked.above mark same).trans le⟩

/-- While every tick after `start` is fit to step up and none is to step down, the rung
steps up within the dwell and two ticks, or is the top one. -/
theorem climbs (stretch : Stretch origin stop future) (marked : MarkedBy c origin) (later : origin ≤ start)
    (enough : start + UP_DWELL + SECOND < stop)
    (fit : ∀ m ∈ c.ticks future, start < m.now → m.now ≤ start + UP_DWELL + 2 * SECOND →
      ¬m.before.Down ∧ (0 < m.before.rung → m.before.Up)) :
    ∃ m ∈ c.ticks future, (start < m.now ∧ m.now ≤ start + UP_DWELL + 2 * SECOND) ∧
      (m.before.rung = 0 ∨ SteppedUp m) := by
  by_contra never
  have along : ∀ before after, future = before ++ after →
      (∀ x ∈ before.filterMap Event.tick, x ≤ start + UP_DWELL + 2 * SECOND) →
      Climbing (c.run before) start (before.filterMap Event.tick) := by
    intro before
    induction before using List.reverseRecOn with
    | nil =>
      intro _ _ _
      have started := marked.mono later
      refine ⟨started.switched, fun since same => .inl (started.above since same), ?_⟩
      intro x member
      cases member
    | append_singleton before event ih =>
      intro after split within
      rw [List.append_assoc, List.singleton_append] at split
      have climbing := ih (event :: after) split fun x member =>
        within x (by
          rw [List.filterMap_append]
          exact List.mem_append_left _ member)
      have ran : c.run (before ++ [event]) = (c.run before).step event := List.foldl_concat ..
      rw [ran, List.filterMap_append]
      cases picked : event.tick with
      | none =>
        obtain ⟨lastSwitch, aboveSince⟩ := step_of_not_tick (c := c.run before) picked
        rw [List.filterMap_cons_none picked, List.filterMap_nil, List.append_nil]
        exact ⟨lastSwitch ▸ climbing.switched, aboveSince ▸ climbing.above, aboveSince ▸ climbing.running⟩
      | some now =>
        have inside : now ≤ start + UP_DWELL + 2 * SECOND := within now (by
          rw [List.filterMap_append, List.filterMap_cons_some picked]
          exact List.mem_append_right _ List.mem_cons_self)
        rw [List.filterMap_cons_some picked, List.filterMap_nil]
        obtain rfl := time_of_tick picked
        have earlier := times_le (split ▸ stretch.ordered) rfl
        by_cases late : start < now
        · have member : ⟨now, c.run before, ((c.run before).tickRung now).1⟩ ∈ c.ticks future :=
            split ▸ mem_moments_split step Event.tick rfl
          obtain ⟨level, up⟩ := fit _ member late inside
          have steady := not_or.mp fun either => never ⟨_, member, ⟨late, inside⟩, either⟩
          exact climbing.tick level (up (Nat.pos_of_ne_zero steady.1)) steady.2 earlier late
        · exact climbing.tick_of_le earlier (Nat.not_lt.mp late)
  obtain ⟨last, member, after_, within⟩ :=
    stretch.ticks.exists_mem (show origin ≤ start + UP_DWELL + SECOND by omega) enough
  obtain ⟨event, inside, picked⟩ := List.mem_filterMap.mp member
  obtain rfl := time_of_tick picked
  obtain ⟨before, after, split⟩ := List.append_of_mem inside
  have earlier := times_le (split ▸ stretch.ordered) rfl
  have climbing := along before _ split fun x found => (earlier x found).trans (by omega)
  obtain ⟨first, found, above, near⟩ :=
    (split ▸ stretch : Stretch origin stop (before ++ .tickRung last :: after)).tick_before rfl later
      (by omega) (show start + SECOND < last by omega)
  have moment : ⟨last, c.run before, ((c.run before).tickRung last).1⟩ ∈ c.ticks future :=
    split ▸ mem_moments_split step Event.tick rfl
  obtain ⟨level, up⟩ := fit _ moment (show start < last by omega) (show last ≤ _ by omega)
  apply never
  refine ⟨_, moment, ⟨show start < last by omega, show last ≤ _ by omega⟩, ?_⟩
  by_cases top : (c.run before).rung = 0
  · exact .inl top
  · right
    refine climbing.steps level (up (Nat.pos_of_ne_zero top)) found above (by omega) ?_
    unfold SWITCH_COOLDOWN UP_DWELL at *
    omega

/-- Without a step down the rung only goes up, call by call. -/
theorem rung_step_le {event : Event} (size : ∀ width height, event ≠ .topSize width height)
    (level : event.tick ≠ none → ¬c.Down) : (c.step event).rung ≤ c.rung := by
  cases event with
  | gccTarget | rembCeiling | encoderLoad => exact le_rfl
  | topSize width height => exact absurd rfl (size width height)
  | updateBitrate now =>
    change (c.updateBitrate now).1.rung ≤ _
    generalize (c.updateBitrate now).1 = next, updated c now = done
    cases done <;> exact le_rfl
  | tickRung now =>
    change (c.tickRung now).1.rung ≤ _
    have flat := level nofun
    generalize (c.tickRung now).1 = next, ticked c now = done
    cases done with
    | below | above | level => exact le_rfl
    | stepDown down => exact absurd down flat
    | stepUp => exact Nat.sub_le _ _

theorem rung_run_le {before after : List Event} (stretch : Stretch origin stop (before ++ after))
    (level : ∀ m ∈ c.ticks (before ++ after), ¬m.before.Down) : (c.run before).rung ≤ c.rung := by
  induction before using List.reverseRecOn generalizing after with
  | nil => exact le_rfl
  | append_singleton before event ih =>
    rw [List.append_assoc, List.singleton_append] at stretch level
    have ran : c.run (before ++ [event]) = (c.run before).step event := List.foldl_concat ..
    rw [ran]
    refine (rung_step_le ?_ ?_).trans (ih stretch level)
    · rintro width height rfl
      exact stretch.sizes width height (List.mem_append_right _ List.mem_cons_self)
    · intro picked
      obtain ⟨now, picked⟩ := Option.ne_none_iff_exists'.mp picked
      exact level _ (mem_moments_split step Event.tick picked)

theorem stays_top {m : Moment QualityController} (top : m.before.rung ≤ 0) (member : m ∈ c.ticks future)
    (level : ¬m.before.Down) : m.after.rung = 0 := by
  obtain ⟨before, event, after, -, picked, -, to_⟩ := exists_split_of_mem step Event.tick member
  obtain rfl := time_of_tick picked
  have down : (m.before.step (.tickRung m.now)).rung ≤ m.before.rung :=
    rung_step_le (fun _ _ => nofun) fun _ => level
  rw [to_]
  exact Nat.eq_zero_of_le_zero (down.trans top)

/-- Rung by rung to the top. -/
theorem reaches_top (n : ℕ) (stretch : Stretch origin stop future) (marked : MarkedBy c origin) (later : origin ≤ start)
    (fit : ∀ m ∈ c.ticks future, start < m.now → ¬m.before.Down ∧ (0 < m.before.rung → m.before.Up))
    (few : ∀ before after, future = before ++ after → (c.run before).rung ≤ n)
    (enough : start + (n + 1) * (UP_DWELL + 2 * SECOND) ≤ stop) : ∃ m ∈ c.ticks future, m.after.rung = 0 := by
  induction n generalizing c origin start future with
  | zero =>
    have short : start + UP_DWELL + SECOND < stop := by
      unfold UP_DWELL SECOND at *
      omega
    obtain ⟨m, member, ⟨late, -⟩, -⟩ := climbs stretch marked later short fun m inside late _ => fit m inside late
    obtain ⟨before, event, after, split, -, from_, -⟩ := exists_split_of_mem step Event.tick member
    exact ⟨m, member, stays_top (from_ ▸ few before _ split) member (fit m member late).1⟩
  | succ n ih =>
    have short : start + UP_DWELL + SECOND < stop := by
      unfold UP_DWELL SECOND at *
      omega
    obtain ⟨m, member, ⟨late, soon⟩, ended⟩ := climbs stretch marked later short fun m inside late _ => fit m inside late
    obtain ⟨before, event, after, rfl, picked, from_, to_⟩ := exists_split_of_mem step Event.tick member
    obtain rfl := time_of_tick picked
    rcases ended with top | stepped
    · exact ⟨m, member, stays_top top.le member (fit m member late).1⟩
    -- What is left of the run begins at the tick that stepped up.
    have from_now := stretch.later _ (List.mem_append_right _ List.mem_cons_self) m.now rfl
    have rest := stretch.rest rfl
    have reached : m.after = c.run (before ++ [.tickRung m.now]) := by
      rw [to_, from_]
      exact (List.foldl_concat ..).symm
    have inside : ∀ other ∈ m.after.ticks after, other ∈ c.ticks (before ++ .tickRung m.now :: after) := by
      intro other found
      rw [QualityController.ticks, List.append_cons, moments_append]
      rw [reached] at found
      exact List.mem_append_right _ found
    have fit_rest : ∀ other ∈ m.after.ticks after, ¬other.before.Down ∧ (0 < other.before.rung → other.before.Up) := by
      intro other found
      obtain ⟨front, event, back, split, picked, -, -⟩ := exists_split_of_mem step Event.tick found
      have after_ := rest.later event (split ▸ List.mem_append_right _ List.mem_cons_self) other.now (time_of_pick.1 picked)
      exact fit other (inside other found) (late.trans_le after_)
    have next : MarkedBy m.after m.now := by
      have before_ := markedBy_run (marked.mono from_now) (time_le stretch.ordered rfl)
      rw [to_, from_]
      exact markedBy_step before_ fun _ same => (Option.some.inj same).ge
    have few_rest : ∀ front back, after = front ++ back → (m.after.run front).rung ≤ n := by
      intro front back split
      have fewer : m.before.rung ≤ n + 1 := from_ ▸ few before _ rfl
      have down := rung_run_le (split ▸ rest) fun other found => (fit_rest other (split ▸ found)).1
      unfold SteppedUp at stepped
      omega
    have unroll : (n + 1 + 1) * (UP_DWELL + 2 * SECOND) = (n + 1) * (UP_DWELL + 2 * SECOND) + (UP_DWELL + 2 * SECOND) :=
      Nat.succ_mul _ _
    obtain ⟨other, found, top⟩ := ih rest next le_rfl (fun other found _ => fit_rest other found) few_rest (by omega)
    exact ⟨other, inside other found, top⟩

end

end Mello.Stream.ControllerRecovery
