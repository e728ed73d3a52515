import Mello.Stream.ControllerRecovery

/-!
The way back to the preset. With the target at what the rung above needs, a rung is left
when the bitrate settles at no less than that; with the target at the preset, the
bitrate gets there when the two roundings of its share cancel.
-/

namespace Mello.Stream.ControllerReturn
open Mello.Library Journal Rungs Controller QualityController ControllerDiscipline ControllerRecovery

/-- The calls of `update_bitrate` and `tick_rung` of a run. -/
def calls (c : QualityController) (events : List Event) : List (Moment QualityController) :=
  moments step Event.time c events

variable {c next : QualityController} {desired : ℕ}

theorem settledKbps_congr (rate : next.bitrateKbps = c.bitrateKbps) (preset : next.presetKbps = c.presetKbps) :
    settledKbps next desired = settledKbps c desired := by
  have band : next.OutsideDeadBand desired ↔ c.OutsideDeadBand desired := by
    unfold OutsideDeadBand
    rw [rate]
  unfold settledKbps
  simp only [band, rate, preset]

theorem settled_congr (rate : next.bitrateKbps = c.bitrateKbps) (preset : next.presetKbps = c.presetKbps)
    (settled : Settled c desired) : Settled next desired := by
  rw [Settled, settledKbps_congr rate preset, rate]
  exact settled

/-- What a call other than `update_bitrate` leaves. -/
theorem step_of_not_update {event : Event} (none : event.update = none) :
    (c.step event).bitrateKbps = c.bitrateKbps ∧ (c.step event).lastBitrateChange = c.lastBitrateChange := by
  cases event with
  | gccTarget | rembCeiling | encoderLoad => exact ⟨rfl, rfl⟩
  | topSize width height =>
    change (c.setTopSize width height).1.bitrateKbps = _ ∧ (c.setTopSize width height).1.lastBitrateChange = _
    unfold setTopSize
    dsimp only
    split_ifs <;> exact ⟨rfl, rfl⟩
  | tickRung now =>
    change (c.tickRung now).1.bitrateKbps = _ ∧ (c.tickRung now).1.lastBitrateChange = _
    generalize (c.tickRung now).1 = next, ticked c now = done
    cases done <;> exact ⟨rfl, rfl⟩
  | updateBitrate now => cases none

/-- Without a new size the ladder stays. -/
theorem rungs_run {events : List Event} (sizes : ∀ width height, Event.topSize width height ∉ events) :
    (c.run events).rungs = c.rungs := by
  induction events generalizing c with
  | nil => rfl
  | cons event rest ih =>
    have kept : (c.step event).rungs = c.rungs := by
      cases event with
      | gccTarget | rembCeiling | encoderLoad => rfl
      | topSize width height => exact absurd List.mem_cons_self (sizes width height)
      | updateBitrate now => exact rungs_of_updated (updated c now)
      | tickRung now => exact rungs_of_ticked (ticked c now)
    exact (ih fun width height member => sizes width height (List.mem_cons_of_mem _ member)).trans kept

/-! ## The target at the preset -/

/-- The share of a target at the preset. -/
def presetShare (c : QualityController) : ℕ := withoutOverhead c.senderLimitsKbps.2.2

section
variable {origin stop : ℕ} {future : List Event}

/-- With one bitrate asked for all along, it settles where the rule leaves the first
state, after at most one interval of waiting. -/
theorem settles_along (marked : MarkedBy c origin)
    (asked : ∀ m ∈ calls c future, m.before.desiredKbps = desired) (before after : List Event)
    (split : future = before ++ after) :
    ((c.run before).bitrateKbps = settledKbps c desired ∧ Settled (c.run before) desired) ∨
      ((c.run before).bitrateKbps = c.bitrateKbps ∧
        Waiting (c.run before) origin (before.filterMap Event.update)) := by
  induction before using List.reverseRecOn generalizing after with
  | nil => exact .inr ⟨rfl, marked.changed, nofun⟩
  | append_singleton before event ih =>
    rw [List.append_assoc, List.singleton_append] at split
    have so := ih (event :: after) split
    have ran : c.run (before ++ [event]) = (c.run before).step event := List.foldl_concat ..
    have preset : ((c.run before).step event).presetKbps = (c.run before).presetKbps := presetKbps_step _ event
    rw [ran, List.filterMap_append]
    cases picked : event.update with
    | none =>
      obtain ⟨rate, change⟩ := @step_of_not_update (c.run before) event picked
      rw [List.filterMap_cons_none picked, List.filterMap_nil, List.append_nil, rate]
      refine so.imp (fun settled => ⟨settled.1, settled_congr rate preset settled.2⟩) ?_
      rintro ⟨same, waiting⟩
      exact ⟨same, change ▸ waiting.changed, waiting.early⟩
    | some now =>
      obtain rfl := time_of_update picked
      have want : (c.run before).desiredKbps = desired :=
        asked _ (split ▸ mem_moments_split step Event.time rfl)
      rw [List.filterMap_cons_some picked, List.filterMap_nil]
      have done := updateBitrate_settles (c.run before) now
      rw [want] at done
      rcases done with rate | ⟨same, last, changed, soon⟩
      · left
        refine ⟨?_, settled_of_eq rate preset⟩
        refine rate.trans ?_
        rcases so with ⟨reached, settled⟩ | ⟨same, -⟩
        · exact settled.trans reached
        · exact settledKbps_congr same (presetKbps_run c before)
      · have kept : (c.run before).step (.updateBitrate now) = c.run before := same
        rw [kept]
        refine so.imp_right fun waits => ⟨waits.1, waits.2.changed, ?_⟩
        intro x member
        rcases List.mem_append.mp member with earlier | this
        · exact waits.2.early x earlier
        · have before_ := waits.2.changed last changed
          rw [List.mem_singleton.mp this]
          omega

/-- By the end of a stretch of half a second it has settled. -/
theorem settles_at_end (stretch : Stretch origin stop future) (marked : MarkedBy c origin)
    (asked : ∀ m ∈ calls c future, m.before.desiredKbps = desired)
    (enough : origin + 2 * BITRATE_CHANGE_MIN_INTERVAL ≤ stop) :
    (c.run future).bitrateKbps = settledKbps c desired := by
  rcases settles_along marked asked future [] (List.append_nil future).symm with settled | ⟨-, waiting⟩
  · exact settled.1
  · obtain ⟨x, member, late, -⟩ := stretch.updates.exists_mem
      (show origin ≤ origin + BITRATE_CHANGE_MIN_INTERVAL by omega) (by
        unfold BITRATE_CHANGE_MIN_INTERVAL at *
        omega)
    exact absurd (waiting.early x member) (by omega)

end

/-- Down by the remainder on the way there, and on the way back. -/
theorem round_trip (count remainder : ℕ) (proper : remainder < 25) :
    (25 * count + remainder) * 108 / 100 * 100 / 108 = 25 * count + (remainder - 1) := by
  interval_cases remainder <;> omega

/-- The two roundings of the share cancel on multiples of 25, and lose one elsewhere. -/
theorem presetShare_eq (fits : c.presetKbps * RTP_OVERHEAD_PERCENT / 100 < 2 ^ 32) :
    presetShare c = if 25 ∣ c.presetKbps then c.presetKbps else c.presetKbps - 1 := by
  have parts : 25 * (c.presetKbps / 25) + c.presetKbps % 25 = c.presetKbps := Nat.div_add_mod _ _
  have trip := round_trip (c.presetKbps / 25) (c.presetKbps % 25) (Nat.mod_lt _ (by decide))
  rw [parts] at trip
  unfold presetShare senderLimitsKbps withoutOverhead withOverhead
  dsimp only
  rw [Nat.mod_eq_of_lt fits]
  unfold RTP_OVERHEAD_PERCENT at *
  rw [trip]
  split_ifs with whole <;> omega

/-- The bitrate settles at the preset exactly when its share does, or it is there. -/
theorem settledKbps_preset (bounded : Bounded c)
    (fits : c.presetKbps * RTP_OVERHEAD_PERCENT / 100 < 2 ^ 32) :
    settledKbps c (desiredOf c (presetShare c)) = c.presetKbps ↔
      25 ∣ c.presetKbps ∨ c.bitrateKbps = c.presetKbps := by
  obtain ⟨floor, most, -⟩ := bounded
  unfold FLOOR_KBPS at floor
  have share := presetShare_eq fits
  unfold settledKbps desiredOf OutsideDeadBand BITRATE_DEAD_BAND_PERCENT FLOOR_KBPS
  rw [share]
  by_cases whole : 25 ∣ c.presetKbps
  · rw [if_pos whole, min_self, max_eq_left (by omega)]
    refine iff_of_true ?_ (.inl whole)
    split_ifs <;> omega
  · rw [if_neg whole, min_eq_right (Nat.sub_le _ _), max_eq_left (by omega)]
    constructor
    · intro settled
      right
      split_ifs at settled <;> omega
    · rintro (divides | same)
      · exact absurd divides whole
      · rw [if_neg (by omega)]
        exact same

theorem restoreKbps_congr (rungs : next.rungs = c.rungs) (preset : next.presetKbps = c.presetKbps) (index : ℕ) :
    next.restoreKbps index = c.restoreKbps index := by
  unfold restoreKbps dropKbps rungAt
  rw [rungs, preset]

/-- Over what the rung above needs, and over the floor of this one. -/
theorem fit_of_restore (descending : Descending c.rungs) (inRange : c.rung < c.rungs.length)
    (load : c.overloaded = false) (enough : c.restoreKbps (c.rung - 1) ≤ c.bitrateKbps) :
    ¬c.Down ∧ (0 < c.rung → c.Up) := by
  refine ⟨?_, fun above => ⟨above, load, enough⟩⟩
  rintro ⟨-, low | busy⟩
  · have floor := (dropKbps_le descending (Nat.sub_le c.rung 1) inRange).trans (dropKbps_le_restoreKbps c _)
    omega
  · rw [load] at busy
    cases busy

section
variable {origin stop : ℕ} {future : List Event}

/-- What holds of the start of a stretch, reached by some run. -/
structure Reached (c : QualityController) (now : ℕ) : Prop where
  bounded : Bounded c
  descending : Descending c.rungs
  marked : MarkedBy c now

theorem reached_run {width height fps kbps : ℕ} {geometry : Bool} {past : List Event} (wide : width < 2 ^ 32)
    (sized : ∀ event ∈ past, Sized event) (timely : ∀ time ∈ past.filterMap Event.time, time ≤ origin) :
    Reached ((new width height fps kbps geometry).run past) origin where
  bounded := (bounded_new width height fps kbps geometry).run past
  descending := descending_run (descending_ladder height fps geometry wide) sized
  marked := markedBy_run ⟨nofun, nofun, nofun⟩ fun event member time timed =>
    timely time (List.mem_filterMap.mpr ⟨event, member, timed⟩)

/-- The state before an event of the stretch. -/
theorem Reached.before {before after : List Event} (reached : Reached c origin)
    (stretch : Stretch origin stop (before ++ after)) :
    Bounded (c.run before) ∧ (c.run before).rungs = c.rungs ∧ (c.run before).presetKbps = c.presetKbps :=
  ⟨reached.bounded.run before,
    rungs_run fun width height member => stretch.sizes width height (List.mem_append_left _ member),
    presetKbps_run c before⟩

theorem asked_of_calm {share : ℕ} (calm : ∀ m ∈ calls c future, Calm m.before share) :
    ∀ m ∈ calls c future, m.before.desiredKbps = desiredOf c share := by
  intro m member
  obtain ⟨before, event, after, split, -, from_, -⟩ := exists_split_of_mem step Event.time member
  rw [(calm m member).desiredKbps, from_]
  unfold desiredOf
  rw [show (before.foldl step c).presetKbps = c.presetKbps from presetKbps_run c before]

/-- At the preset bitrate the rung goes to the top, where the preset is enough for it. -/
theorem preset_reaches_top (reached : Reached c origin) (stretch : Stretch origin stop future)
    (calm : ∀ m ∈ calls c future, Calm m.before (presetShare c))
    (settles : settledKbps c (desiredOf c (presetShare c)) = c.presetKbps)
    (enough : c.restoreKbps 0 ≤ c.presetKbps) (long : origin + c.rungs.length * (18 * SECOND) ≤ stop) :
    ∃ m ∈ c.ticks future, m.after.rung = 0 := by
  have some := reached.bounded.inRange
  have asked := asked_of_calm calm
  have fit : ∀ m ∈ c.ticks future, origin + 2 * BITRATE_CHANGE_MIN_INTERVAL < m.now →
      ¬m.before.Down ∧ (0 < m.before.rung → m.before.Up) := by
    intro m member late
    obtain ⟨before, event, after, split, picked, from_, -⟩ := exists_split_of_mem step Event.tick member
    have timed := time_of_pick.1 picked
    obtain ⟨bounded, rungs, preset⟩ := reached.before (split ▸ stretch : Stretch origin stop (before ++ event :: after))
    have quiet : Calm (c.run before) (presetShare c) :=
      calm _ (split ▸ mem_moments_split step Event.time timed)
    have rate : (c.run before).bitrateKbps = c.presetKbps := by
      rcases settles_along reached.marked asked before _ split with settled | ⟨-, waiting⟩
      · exact settled.1.trans settles
      · have soon := waiting.not_late (split ▸ stretch) timed le_rfl (by
          unfold BITRATE_CHANGE_MIN_INTERVAL SECOND at *
          omega)
        exact absurd soon (Nat.not_le.mpr late)
    have last : m.before = c.run before := from_
    rw [last]
    have descending : Descending (c.run before).rungs := rungs ▸ reached.descending
    refine fit_of_restore descending bounded.inRange quiet.load ?_
    rw [rate]
    refine (restoreKbps_le descending (Nat.zero_le _) ((Nat.sub_le _ 1).trans_lt bounded.inRange)).trans ?_
    exact (restoreKbps_congr rungs preset 0).trans_le enough
  have long_ : origin + 2 * BITRATE_CHANGE_MIN_INTERVAL + (c.rungs.length - 1 + 1) * (UP_DWELL + 2 * SECOND) ≤ stop := by
    rw [Nat.sub_add_cancel (Nat.one_le_of_lt some)]
    unfold BITRATE_CHANGE_MIN_INTERVAL UP_DWELL SECOND at *
    omega
  refine reaches_top (c.rungs.length - 1) stretch reached.marked (Nat.le_add_right _ _) fit ?_ long_
  intro before after split
  obtain ⟨bounded, rungs, -⟩ := reached.before (split ▸ stretch)
  exact Nat.le_sub_one_of_lt (rungs ▸ bounded.inRange)

end

/-! ## The target at the allocation of the rung -/

/-- The bitrate that a target at the allocation of the current rung asks for. -/
def ownShare (c : QualityController) : ℕ := withoutOverhead c.allocationKbps

/-- With such a target the bitrate settles at what the rung above restores at, or over it. -/
def Ready (c : QualityController) : Prop :=
  c.restoreKbps (c.rung - 1) ≤ settledKbps c (desiredOf c (ownShare c))

theorem ownDesired_congr (rung : next.rung = c.rung) (rungs : next.rungs = c.rungs)
    (preset : next.presetKbps = c.presetKbps) : desiredOf next (ownShare next) = desiredOf c (ownShare c) := by
  unfold desiredOf ownShare allocationKbps
  rw [rung, preset, restoreKbps_congr rungs preset]

/-- A state of a stretch in which no tick stepped up: since `q`, the start or a step down
soon after it, the bitrate settles at what the rung asks for. -/
structure Recovering (c : QualityController) (origin q : ℕ) (times : List ℕ) : Prop where
  base : origin ≤ q ∧ q ≤ origin + 2 * BITRATE_CHANGE_MIN_INTERVAL
  source : q = origin ∨ c.lastSwitch = some q
  marks : ∀ mark, c.lastSwitch = some mark → mark ≤ q
  above : 0 < c.rung
  bitrate : Settled c (desiredOf c (ownShare c)) ∨ Waiting c q times

section
variable {origin stop q now : ℕ} {times : List ℕ} {future : List Event}

theorem Recovering.updateBitrate (recovering : Recovering c origin q times) (calm : Calm c (ownShare c)) :
    Recovering (c.updateBitrate now).1 origin q (times ++ [now]) := by
  have same : c.desiredKbps = desiredOf c (ownShare c) := calm.desiredKbps
  have settles := @settles_updateBitrate _ _ now _ (same ▸ recovering.bitrate)
  have kept : (c.updateBitrate now).1.rung = c.rung ∧ (c.updateBitrate now).1.rungs = c.rungs ∧
      (c.updateBitrate now).1.presetKbps = c.presetKbps ∧ (c.updateBitrate now).1.lastSwitch = c.lastSwitch := by
    generalize (c.updateBitrate now).1 = next, updated c now = done
    cases done <;> exact ⟨rfl, rfl, rfl, rfl⟩
  obtain ⟨rung, rungs, preset, lastSwitch⟩ := kept
  rw [same, ← ownDesired_congr rung rungs preset] at settles
  refine ⟨recovering.base, ?_, ?_, ?_, settles⟩
  · rw [lastSwitch]
    exact recovering.source
  · rw [lastSwitch]
    exact recovering.marks
  · rw [rung]
    exact recovering.above

/-- A settled bitrate is fit to step up. -/
theorem fit_of_settled (descending : Descending c.rungs) (inRange : c.rung < c.rungs.length)
    (load : c.overloaded = false) (ready : Ready c) (settled : Settled c (desiredOf c (ownShare c))) :
    ¬c.Down ∧ (0 < c.rung → c.Up) := fit_of_restore descending inRange load (ready.trans_eq settled)

/-- A tick that does not step up: it may step down once, before the bitrate has settled. -/
theorem Recovering.tick (recovering : Recovering c origin q times) (descending : Descending c.rungs)
    (inRange : c.rung < c.rungs.length) (load : c.overloaded = false) (ready : Ready c)
    (held : (c.tickRung now).1.rung + 1 ≠ c.rung) (later : origin ≤ now)
    (soon : Waiting c q times → now ≤ q + 2 * BITRATE_CHANGE_MIN_INTERVAL) :
    ∃ q, Recovering (c.tickRung now).1 origin q times := by
  generalize (c.tickRung now).1 = next, ticked c now = done at *
  obtain ⟨base, source, marks, above, bitrate⟩ := recovering
  cases done with
  | below | above | level => exact ⟨q, base, source, marks, above, bitrate.imp_right fun w => ⟨w.changed, w.early⟩⟩
  | stepUp up => exact absurd (Nat.sub_add_cancel up.1) held
  | stepDown down dwelt cooled =>
    have waiting : Waiting c q times :=
      bitrate.resolve_left fun settled => (fit_of_settled descending inRange load ready settled).1 down
    have early := soon waiting
    have first : q = origin := by
      refine source.resolve_right fun last => ?_
      have apart := cooled_of_cooledDown cooled q last
      unfold SWITCH_COOLDOWN BITRATE_CHANGE_MIN_INTERVAL at *
      omega
    refine ⟨now, ⟨later, by omega⟩, .inr rfl, ?_, Nat.succ_pos _, .inr ⟨?_, ?_⟩⟩
    · intro mark same
      cases same
      exact le_rfl
    · intro mark same
      exact (waiting.changed mark same).trans (by omega)
    · intro x member
      have before := waiting.early x member
      omega

/-- What holds before every call of the stretch, at one of them. -/
theorem at_call {P : QualityController → Prop} {before after : List Event} {event : Event}
    (all : ∀ m ∈ calls c (before ++ event :: after), P m.before) (timed : event.time = some now) : P (c.run before) :=
  all _ (mem_moments_split step Event.time timed)

theorem recovering_along {limit : ℕ} (reached : Reached c origin) (stretch : Stretch origin stop future)
    (calm : ∀ m ∈ calls c future, 0 < m.before.rung → Calm m.before (ownShare m.before))
    (ready : ∀ m ∈ calls c future, 0 < m.before.rung → Ready m.before) (above : 0 < c.rung)
    (never : ∀ m ∈ c.ticks future, m.now ≤ limit → ¬SteppedUp m)
    (enough : origin + 3 * BITRATE_CHANGE_MIN_INTERVAL < stop) (before after : List Event)
    (split : future = before ++ after) (within : ∀ x ∈ before.filterMap Event.tick, x ≤ limit) :
    ∃ q, Recovering (c.run before) origin q (before.filterMap Event.update) := by
  induction before using List.reverseRecOn generalizing after with
  | nil =>
    exact ⟨origin, ⟨le_rfl, Nat.le_add_right _ _⟩, .inl rfl, reached.marked.switched, above,
      .inr ⟨reached.marked.changed, nofun⟩⟩
  | append_singleton before event ih =>
    rw [List.append_assoc, List.singleton_append] at split
    subst split
    rw [List.filterMap_append] at within
    obtain ⟨q, recovering⟩ := ih (event :: after) rfl fun x member => within x (List.mem_append_left _ member)
    have ran : c.run (before ++ [event]) = (c.run before).step event := List.foldl_concat ..
    obtain ⟨bounded, rungs, -⟩ := reached.before stretch
    rw [ran, List.filterMap_append]
    obtain ⟨base, source, marks, above, bitrate⟩ := recovering
    cases event with
    | gccTarget | rembCeiling | encoderLoad =>
      refine ⟨q, base, source, marks, above, bitrate.imp_right fun waiting => ⟨waiting.changed, ?_⟩⟩
      rw [List.filterMap_cons_none rfl, List.filterMap_nil, List.append_nil]
      exact waiting.early
    | topSize width height =>
      exact absurd (List.mem_append_right _ List.mem_cons_self) (stretch.sizes width height)
    | updateBitrate now =>
      have quiet := at_call (P := fun s => 0 < s.rung → Calm s (ownShare s)) calm rfl
      exact ⟨q, Recovering.updateBitrate ⟨base, source, marks, above, bitrate⟩ (quiet above)⟩
    | tickRung now =>
      have quiet := at_call (P := fun s => 0 < s.rung → Calm s (ownShare s)) calm rfl
      have fit := at_call (P := fun s => 0 < s.rung → Ready s) ready rfl
      have member : ⟨now, c.run before, ((c.run before).tickRung now).1⟩ ∈ c.ticks (before ++ .tickRung now :: after) :=
        mem_moments_split step Event.tick rfl
      have held := never _ member (within now (List.mem_append_right _ List.mem_cons_self))
      rw [List.filterMap_cons_none rfl, List.filterMap_nil, List.append_nil]
      refine Recovering.tick ⟨base, source, marks, above, bitrate⟩ (rungs ▸ reached.descending) bounded.inRange
        (quiet above).load (fit above) held ?_ ?_
      · exact stretch.later _ (List.mem_append_right _ List.mem_cons_self) now rfl
      · exact fun waiting => waiting.not_late stretch rfl base.1 (by omega)

/-- A rung that is ready is left within the dwell and three ticks. -/
theorem own_steps_up (reached : Reached c origin) (stretch : Stretch origin stop future)
    (calm : ∀ m ∈ calls c future, 0 < m.before.rung → Calm m.before (ownShare m.before))
    (ready : ∀ m ∈ calls c future, 0 < m.before.rung → Ready m.before) (above : 0 < c.rung)
    (enough : origin + UP_DWELL + SWITCH_COOLDOWN + 2 * SECOND ≤ stop) :
    ∃ m ∈ c.ticks future, m.now ≤ origin + UP_DWELL + SWITCH_COOLDOWN + 2 * SECOND ∧ SteppedUp m := by
  by_contra none
  have never : ∀ m ∈ c.ticks future, m.now ≤ origin + UP_DWELL + SWITCH_COOLDOWN + 2 * SECOND → ¬SteppedUp m :=
    fun m member soon stepped => none ⟨m, member, soon, stepped⟩
  have state : ∀ m ∈ c.ticks future, m.now ≤ origin + UP_DWELL + SWITCH_COOLDOWN + 2 * SECOND →
      0 < m.before.rung ∧ (origin + 4 * BITRATE_CHANGE_MIN_INTERVAL < m.now →
        ¬m.before.Down ∧ (0 < m.before.rung → m.before.Up)) := by
    intro m member soon
    obtain ⟨before, event, after, rfl, picked, from_, -⟩ := exists_split_of_mem step Event.tick member
    have timed := time_of_pick.1 picked
    obtain ⟨q, recovering⟩ := recovering_along reached stretch calm ready above never (by
      unfold BITRATE_CHANGE_MIN_INTERVAL UP_DWELL at *
      omega) before _ rfl fun x found => (times_le stretch.ordered timed x found).trans soon
    have quiet := at_call (P := fun s => 0 < s.rung → Calm s (ownShare s)) calm timed
    have fit := at_call (P := fun s => 0 < s.rung → Ready s) ready timed
    obtain ⟨bounded, rungs, -⟩ := reached.before stretch
    have last : m.before = c.run before := from_
    rw [last]
    refine ⟨recovering.above, fun late => ?_⟩
    have settled := recovering.bitrate.resolve_right fun waiting => by
      have early := waiting.not_late stretch timed recovering.base.1 (by
        have base := recovering.base.2
        unfold BITRATE_CHANGE_MIN_INTERVAL UP_DWELL at *
        omega)
      have base := recovering.base.2
      omega
    exact fit_of_settled (rungs ▸ reached.descending) bounded.inRange (quiet recovering.above).load
      (fit recovering.above) settled
  have limit : origin + 4 * BITRATE_CHANGE_MIN_INTERVAL + UP_DWELL + 2 * SECOND ≤
      origin + UP_DWELL + SWITCH_COOLDOWN + 2 * SECOND := by
    unfold BITRATE_CHANGE_MIN_INTERVAL SWITCH_COOLDOWN
    omega
  obtain ⟨m, member, ⟨-, soon⟩, ended⟩ := climbs stretch reached.marked
    (show origin ≤ origin + 4 * BITRATE_CHANGE_MIN_INTERVAL by omega) (by
      unfold SECOND at *
      omega) fun m member late soon => (state m member (soon.trans limit)).2 late
  have above_ := (state m member (soon.trans limit)).1
  exact never m member (soon.trans limit) (ended.resolve_left above_.ne')

end

/-! ## Every reachable state -/

/-- From any state, with no load and no ceiling: the target at the allocation of the
rung takes a rung that is ready up in time, and the target at the preset takes the
bitrate there exactly from a multiple of 25 or from the preset itself, and the rung to
the top behind it. -/
theorem recovers {width height fps kbps origin stop : ℕ} {geometry : Bool} {past future : List Event}
    (wide : width < 2 ^ 32) (sized : ∀ event ∈ past, Sized event)
    (timely : ∀ time ∈ past.filterMap Event.time, time ≤ origin) (stretch : Stretch origin stop future) :
    let c := (new width height fps kbps geometry).run past
    ((∀ m ∈ calls c future, 0 < m.before.rung → Calm m.before (ownShare m.before)) →
      (∀ m ∈ calls c future, 0 < m.before.rung → Ready m.before) → 0 < c.rung →
      origin + UP_DWELL + SWITCH_COOLDOWN + 2 * SECOND ≤ stop →
        ∃ m ∈ c.ticks future, m.now ≤ origin + UP_DWELL + SWITCH_COOLDOWN + 2 * SECOND ∧ SteppedUp m) ∧
    ((∀ m ∈ calls c future, Calm m.before (presetShare c)) →
      c.presetKbps * RTP_OVERHEAD_PERCENT / 100 * 1000 < 2 ^ 32 → origin + 2 * BITRATE_CHANGE_MIN_INTERVAL ≤ stop →
        ((c.run future).bitrateKbps = c.presetKbps ↔ 25 ∣ c.presetKbps ∨ c.bitrateKbps = c.presetKbps) ∧
          (25 ∣ c.presetKbps ∨ c.bitrateKbps = c.presetKbps → c.restoreKbps 0 ≤ c.presetKbps →
            origin + c.rungs.length * (18 * SECOND) ≤ stop → ∃ m ∈ c.ticks future, m.after.rung = 0)) := by
  intro c
  have reached : Reached c origin := reached_run wide sized timely
  refine ⟨fun calm ready above enough => own_steps_up reached stretch calm ready above enough, ?_⟩
  intro calm fits enough
  have exact_ := settledKbps_preset reached.bounded (by omega)
  refine ⟨?_, fun holds restores long => preset_reaches_top reached stretch calm (exact_.mpr holds) restores long⟩
  rw [← exact_, settles_at_end stretch reached.marked (asked_of_calm calm) enough]

/-- Overload until the rung steps down, and no more. -/
def afterOverload : List Event :=
  [.encoderLoad { framesOffered := 60, queueDrops := 6, fps := 60 }, .tickRung 0, .tickRung (2 * SECOND), .encoderLoad {}]

/-- The calls of 27 seconds, from two seconds on. -/
def calls27 : List Event :=
  (List.range 27).flatMap fun i =>
    ((List.range 4).map fun j => .updateBitrate (2 * SECOND + i * SECOND + (j + 1) * BITRATE_CHANGE_MIN_INTERVAL)) ++
      [.tickRung (2 * SECOND + (i + 1) * SECOND)]

def steady (bps : ℕ) : List Event := .gccTarget bps :: calls27

theorem stretch_calls27 : Stretch (2 * SECOND) (29 * SECOND) calls27 where
  ordered := by
    unfold Ordered
    decide +kernel
  from_start := by decide +kernel
  same_size := by decide +kernel
  updates := by decide +kernel
  ticks := by decide +kernel

theorem stretch_steady (bps : ℕ) : Stretch (2 * SECOND) (29 * SECOND) (steady bps) := by
  obtain ⟨ordered, from_start, same_size, updates, ticks⟩ := stretch_calls27
  refine ⟨ordered, from_start, ?_, updates, ticks⟩
  intro event member
  rcases List.mem_cons.mp member with rfl | inside
  · rfl
  · exact same_size event inside

instance (c : QualityController) (share : ℕ) : Decidable (Calm c share) :=
  decidable_of_iff (c.overloaded = false ∧ c.rembKbps = none ∧ c.gccKbps = some share)
    ⟨fun ⟨load, remb, gcc⟩ => ⟨load, remb, gcc⟩, fun calm => ⟨calm.load, calm.remb, calm.gcc⟩⟩

instance (c : QualityController) : Decidable (Ready c) := inferInstanceAs (Decidable (_ ≤ _))

/-- At 1080p60 and 8000 kbps the allocation of the second rung is 8208 kbps. -/
theorem recovers_1080p60 :
    ∃ m ∈ ((new 1920 1080 60 8000 true).run afterOverload).ticks (steady 8208000),
      m.now ≤ 2 * SECOND + UP_DWELL + SWITCH_COOLDOWN + 2 * SECOND ∧ SteppedUp m := by
  have sized : ∀ event ∈ afterOverload, Sized event := by
    intro event member width same
    have none : ∀ event ∈ afterOverload, topWidth event = none := by decide +kernel
    rw [none event member] at same
    cases same
  exact (@recovers 1920 1080 60 8000 _ _ true afterOverload _ (by decide) sized (by decide +kernel)
    (stretch_steady 8208000)).1 (by decide +kernel) (by decide +kernel) (by decide +kernel) (by decide)

/-- At 720p30 and 3000 kbps the allocation of the second rung is 2239 kbps, whose share
is one under the 2074 kbps that the top rung needs. -/
theorem below_restore_forever :
    let c := (new 1280 720 30 3000 true).run afterOverload
    let future := steady (c.allocationKbps * 1000)
    0 < c.rung ∧ Stretch (2 * SECOND) (29 * SECOND) future ∧
      (∀ m ∈ calls c future, Calm m.before (ownShare m.before)) ∧
      2 * SECOND + UP_DWELL + SWITCH_COOLDOWN + 2 * SECOND ≤ 29 * SECOND ∧
      ∀ m ∈ c.ticks future, ¬SteppedUp m := by
  intro c future
  refine ⟨?_, stretch_steady _, ?_, ?_, ?_⟩
  · decide +kernel
  · decide +kernel
  · decide
  · unfold SteppedUp
    decide +kernel

end Mello.Stream.ControllerReturn
