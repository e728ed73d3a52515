import Mello.Replay.VideoRingIndex

/-!
What a window pins stays as it was pushed. A slot counts its pins, the writer
takes only slots without one, and a segment leaves the index only with its
slot; so the index holds every unit that a live window lists.
-/

namespace Mello.Replay.VideoRingPins
open Mello.Library Extents VideoRing State VideoRingIndex

variable {config : Config} {s t : State}

/-! ## Pins as counts -/

theorem getElem?_foldl_modify {α : Type*} (f : α → α) (keys : List Nat) (items : List α) (k : Nat) :
    (keys.foldl (fun items key => items.modify key f) items)[k]? = items[k]?.map f^[keys.count k] := by
  induction keys generalizing items with
  | nil => simp
  | cons key rest ih =>
    rw [List.foldl_cons, ih, List.getElem?_modify, Option.map_eq_map, Option.map_map, List.count_cons]
    by_cases same : key = k
    · simp only [if_pos same, beq_iff_eq, Function.iterate_succ]
    · simp only [if_neg same, beq_iff_eq, Nat.add_zero]
      rfl

def pin (slots : List Slot) (slot : Nat) : List Slot :=
  slots.modify slot fun slot => { slot with pins := slot.pins + 1 }

theorem length_foldl_modify {α : Type*} (f : α → α) (keys : List Nat) (items : List α) :
    (keys.foldl (fun items key => items.modify key f) items).length = items.length := by
  induction keys generalizing items with
  | nil => rfl
  | cons key rest ih => rw [List.foldl_cons, ih, List.length_modify]

theorem iterate_pin (count : Nat) (slot : Slot) :
    (fun slot : Slot => { slot with pins := slot.pins + 1 })^[count] slot =
      { slot with pins := slot.pins + count } := by
  induction count with
  | zero => rfl
  | succ count ih =>
    rw [Function.iterate_succ_apply', ih]
    rfl

theorem iterate_unpin (count : Nat) (slot : Slot) :
    (fun slot : Slot => { slot with pins := slot.pins - 1 })^[count] slot =
      { slot with pins := slot.pins - count } := by
  induction count with
  | zero => rfl
  | succ count ih =>
    rw [Function.iterate_succ_apply', ih]
    rfl

theorem getElem?_pins (taken : List Nat) (slots : List Slot) (k : Nat) :
    (taken.foldl pin slots)[k]? =
      slots[k]?.map fun slot => { slot with pins := slot.pins + taken.count k } := by
  have pinned := getElem?_foldl_modify (fun slot : Slot => { slot with pins := slot.pins + 1 }) taken slots k
  rw [funext (iterate_pin (taken.count k))] at pinned
  exact pinned

theorem getElem?_unpins (taken : List Nat) (slots : List Slot) (k : Nat) :
    (taken.foldl unpin slots)[k]? =
      slots[k]?.map fun slot => { slot with pins := slot.pins - taken.count k } := by
  have unpinned := getElem?_foldl_modify (fun slot : Slot => { slot with pins := slot.pins - 1 }) taken slots k
  rw [funext (iterate_unpin (taken.count k))] at unpinned
  exact unpinned

theorem owner_pins (taken : List Nat) (slots : List Slot) (k : Nat) :
    owner (taken.foldl pin slots) k = owner slots k := by
  unfold owner
  rw [getElem?_pins, Option.bind_map]
  rfl

theorem owner_unpins (taken : List Nat) (slots : List Slot) (k : Nat) :
    owner (taken.foldl unpin slots) k = owner slots k := by
  unfold owner
  rw [getElem?_unpins, Option.bind_map]
  rfl

/-! ## One window -/

/-- The slots that a window over the segments pins. -/
def slotsUpTo (endUs : Nat) (segments : List Segment) : List Nat :=
  (segments.filter fun segment => unitsUpTo endUs segment ≠ []).map Segment.slot

theorem foldl_pinSegment (endUs : Nat) (segments : List Segment) (slots : List Slot) (window : Window) :
    segments.foldl (pinSegment endUs) (slots, window) =
      ((slotsUpTo endUs segments).foldl pin slots,
        { slots := window.slots ++ slotsUpTo endUs segments
          units := window.units ++ segments.flatMap (unitsUpTo endUs) }) := by
  induction segments generalizing slots window with
  | nil => simp [slotsUpTo]
  | cons segment rest ih =>
    have step : pinSegment endUs (slots, window) segment =
        if unitsUpTo endUs segment = [] then (slots, window)
        else (pin slots segment.slot,
          { slots := window.slots ++ [segment.slot], units := window.units ++ unitsUpTo endUs segment }) := rfl
    rw [List.foldl_cons, step]
    split_ifs with none
    · rw [ih]
      simp [slotsUpTo, none]
    · rw [ih]
      simp [slotsUpTo, none]

/-- The segments that a window of the ring starts from. -/
def windowSegments (s : State) (startUs : Nat) : List Segment :=
  s.segments.drop (firstSegment startUs s.segments 0 0)

theorem pinWindow_eq (s : State) (startUs endUs : Nat) :
    let taken := slotsUpTo endUs (windowSegments s startUs)
    let window : Window :=
      { slots := taken, units := (windowSegments s startUs).flatMap (unitsUpTo endUs) }
    s.pinWindow startUs endUs =
      ({ s with slots := taken.foldl pin s.slots, windows := s.windows ++ [window] }, window) := by
  unfold pinWindow
  dsimp only
  rw [foldl_pinSegment]
  rfl

/-! ## The invariant -/

/-- Each slot counts its pins, and the index holds what the live windows list. -/
structure Pinned (slots : List Slot) (segments : List Segment) (windows : List Window) : Prop where
  counts : ∀ k held, slots[k]? = some held →
    held.pins = (windows.map fun window => window.slots.count k).sum
  listed : ∀ window ∈ windows, ∀ unit ∈ window.units,
    ∃ segment ∈ segments, unit ∈ segment.units ∧ segment.slot ∈ window.slots

section Pinned

variable {slots : List Slot} {segments later : List Segment} {windows : List Window}

/-- No window lists a unit of an unpinned slot. -/
theorem Pinned.unpinned (pinned : Pinned slots segments windows) {k : Nat} {held : Slot}
    (here : slots[k]? = some held) (free : held.pins = 0) {window : Window} (live : window ∈ windows) :
    k ∉ window.slots := by
  have zero := pinned.counts k held here
  rw [free] at zero
  have none := List.sum_eq_zero_iff.mp zero.symm _ (List.mem_map_of_mem live)
  exact List.count_eq_zero.mp none

/-- The segments of pinned slots stay in the index, with their units. -/
theorem Pinned.keep (pinned : Pinned slots segments windows)
    (kept : ∀ window ∈ windows, ∀ segment ∈ segments, segment.slot ∈ window.slots →
      ∃ after ∈ later, segment.units ⊆ after.units ∧ after.slot = segment.slot) :
    Pinned slots later windows where
  counts := pinned.counts
  listed := by
    intro window live unit member
    obtain ⟨segment, inside, listed, taken⟩ := pinned.listed window live unit member
    obtain ⟨after, still, more, same⟩ := kept window live segment inside taken
    exact ⟨after, still, more listed, same ▸ taken⟩

theorem Pinned.open {file : List Byte} {pushed : List QueuedUnit}
    (pinned : Pinned s.slots s.segments s.windows)
    (index : Index config s.slots s.segments s.nextSeq file pushed) {slot : Nat}
    (free : s.freeSlot = some slot) :
    Pinned (s.openSegment slot).slots (s.openSegment slot).segments s.windows := by
  obtain ⟨held, here, zero⟩ := freeSlot_spec free
  have kept : Pinned s.slots (s.openSegment slot).segments s.windows := by
    apply pinned.keep
    intro window live segment member taken
    refine ⟨segment, List.mem_append_left _ ((index.mem_dropHeld slot segment).mpr ⟨member, ?_⟩),
      fun unit listed => listed, rfl⟩
    rintro rfl
    exact pinned.unpinned here zero live taken
  refine { kept with counts := ?_ }
  intro k other found
  unfold State.openSegment at found
  rw [List.getElem?_modify] at found
  obtain ⟨before, there, rfl⟩ := Option.map_eq_some_iff.mp found
  rw [← pinned.counts k before there]
  split_ifs <;> rfl

theorem Pinned.pin (pinned : Pinned s.slots s.segments s.windows) (startUs endUs : Nat) :
    Pinned (s.pinWindow startUs endUs).1.slots s.segments (s.pinWindow startUs endUs).1.windows := by
  rw [pinWindow_eq]
  constructor
  · intro k held found
    rw [getElem?_pins] at found
    obtain ⟨before, here, rfl⟩ := Option.map_eq_some_iff.mp found
    rw [List.map_append, List.sum_append, ← pinned.counts k before here]
    simp
  · intro window live unit member
    rcases List.mem_append.mp live with older | new
    · exact pinned.listed window older unit member
    · obtain rfl := List.mem_singleton.mp new
      obtain ⟨segment, inside, listed⟩ := List.mem_flatMap.mp member
      refine ⟨segment, List.mem_of_mem_drop inside, (List.takeWhile_subset _) listed, ?_⟩
      refine List.mem_map_of_mem (List.mem_filter.mpr ⟨inside, ?_⟩)
      simpa using List.ne_nil_of_mem listed

theorem Pinned.release {index : Nat} (pinned : Pinned s.slots s.segments s.windows)
    (released : s.release index = some t) : Pinned t.slots s.segments t.windows := by
  unfold State.release at released
  split at released
  next window found =>
    obtain rfl := Option.some.inj released
    constructor
    · intro k held here
      rw [getElem?_unpins] at here
      obtain ⟨before, there, rfl⟩ := Option.map_eq_some_iff.mp here
      have inside := (List.getElem?_eq_some_iff.mp found).1
      have total : window.slots.count k +
          ((s.windows.eraseIdx index).map fun window => window.slots.count k).sum = before.pins := by
        have perm := (List.getElem_cons_eraseIdx_perm inside).map fun window => window.slots.count k
        rw [pinned.counts k before there, ← perm.sum_eq, List.map_cons, List.sum_cons,
          (List.getElem?_eq_some_iff.mp found).2]
      change before.pins - window.slots.count k =
        ((s.windows.eraseIdx index).map fun window => window.slots.count k).sum
      omega
    · exact fun other live => pinned.listed other (List.mem_of_mem_eraseIdx live)
  next => cases released

end Pinned

/-- The unit between the two critical sections lies behind the newest segment. -/
structure Placing (config : Config) (segments : List Segment) (file : List Byte) (pushed : List QueuedUnit)
    (placed : Placed) : Prop where
  known : Known config pushed placed.unit
  last : ∃ front segment, segments = front ++ [segment] ∧ placed.segmentSeq = segment.seq ∧
    placed.offset = segment.slot * config.segmentBytes + segment.used ∧
    segment.used + placed.unit.data.length ≤ config.segmentBytes
  bytes : placed.written = true → readAt file placed.offset placed.unit.data.length = some placed.unit.data

structure Sound (config : Config) (s : State) : Prop where
  index : Index config s.slots s.segments s.nextSeq s.file s.pushed
  waiting : ∀ unit ∈ s.draining ++ s.queue, Known config s.pushed unit
  placed : ∀ placed, s.placed = some placed → Placing config s.segments s.file s.pushed placed
  pinned : Pinned s.slots s.segments s.windows

/-! ## One step -/

theorem sound_push (sound : Sound config s) (data : List Byte) (captureUs : Nat) (keyframe : Bool) :
    Sound config (s.push config data captureUs keyframe) := by
  have older : ∀ new : QueuedUnit, ∀ unit ∈ s.draining ++ s.queue, Known config (s.pushed ++ [new]) unit :=
    fun new unit member => (sound.waiting unit member).log new
  have still : ∀ new : QueuedUnit, ∀ placed, s.placed = some placed →
      Placing config s.segments s.file (s.pushed ++ [new]) placed := fun new placed here =>
    { sound.placed placed here with known := (sound.placed placed here).known.log new }
  rcases push_cases config s data captureUs keyframe with same | ⟨-, -, request, dropped⟩ |
    ⟨-, some, -, fits, queued⟩
  · rw [same]
    exact sound
  · rw [dropped]
    exact ⟨sound.index.log _, older _, still _, sound.pinned⟩
  · rw [queued]
    refine ⟨sound.index.log _, ?_, still _, sound.pinned⟩
    intro unit member
    rw [← List.append_assoc] at member
    rcases List.mem_append.mp member with before | new
    · exact older _ unit before
    · obtain rfl := List.mem_singleton.mp new
      refine ⟨List.getElem?_concat_length, some, ?_⟩
      have narrow := config.narrow
      change data.length < 2 ^ 32
      omega

theorem sound_writeNext (sound : Sound config s) (wrote : s.writeNext config = some t) :
    Sound config t := by
  obtain ⟨idle, unit, rest, units, cases⟩ := writeNext_cases wrote
  have waiting : ∀ other ∈ rest ++ s.queue, Known config s.pushed other := by
    intro other member
    apply sound.waiting
    rw [units]
    exact List.mem_cons_of_mem _ member
  have known : Known config s.pushed unit := by
    apply sound.waiting
    rw [units]
    exact List.mem_cons_self
  rcases cases with ⟨-, rfl⟩ | ⟨-, outcome⟩
  · exact ⟨sound.index, fun other member => sound.waiting other (List.mem_append_right _ member),
      sound.placed, sound.pinned⟩
  · cases outcome with
    | dropped writing skipping request stops after =>
      rw [after]
      exact ⟨sound.index, waiting, sound.placed, sound.pinned⟩
    | overflowed slot free keyframe after =>
      obtain ⟨held, here, -⟩ := freeSlot_spec free
      rw [after]
      refine ⟨sound.index.open (List.getElem?_eq_some_iff.mp here).1, waiting, ?_,
        sound.pinned.open sound.index free⟩
      intro placed none
      rw [show s.placed = some placed from none] at idle
      cases idle
    | opened slot free keyframe fits after =>
      obtain ⟨held, here, -⟩ := freeSlot_spec free
      rw [after]
      refine ⟨sound.index.open (List.getElem?_eq_some_iff.mp here).1, waiting, ?_,
        sound.pinned.open sound.index free⟩
      intro placed new
      obtain rfl := Option.some.inj new
      refine ⟨known, ⟨s.dropHeld slot, { seq := s.nextSeq, slot }, rfl, rfl, rfl, ?_⟩, fun written => by cases written⟩
      rw [Nat.zero_add]
      exact fits
    | appended segment last delta writing fits after =>
      rw [after]
      refine ⟨sound.index, waiting, ?_, sound.pinned⟩
      intro placed new
      obtain rfl := Option.some.inj new
      obtain ⟨front, split⟩ := List.getLast?_eq_some_iff.mp last
      exact ⟨known, ⟨front, segment, split, rfl, rfl, fits⟩, fun written => by cases written⟩

theorem sound_writeFile (sound : Sound config s) {count : Nat} (wrote : s.writeFile count = some t) :
    Sound config t := by
  unfold State.writeFile at wrote
  split at wrote
  next placed here =>
    obtain ⟨known, ⟨front, segment, split, same, offset, fits⟩, -⟩ := sound.placed placed here
    have member : segment ∈ s.segments := by
      rw [split]
      exact List.mem_append_right _ (List.mem_singleton_self _)
    have part : segment.used + (placed.unit.data.take count).length ≤ config.segmentBytes := by
      rw [List.length_take]
      omega
    have index := sound.index.write member part
    rw [← offset] at index
    split_ifs at wrote with again whole
    · obtain rfl := Option.some.inj wrote
      refine ⟨index, sound.waiting, ?_, sound.pinned⟩
      intro other new
      obtain rfl := Option.some.inj new
      refine ⟨known, ⟨front, segment, split, same, offset, fits⟩, fun _ => ?_⟩
      dsimp only
      rw [List.take_of_length_le whole]
      apply readAt_writeAt
      rw [offset, sound.index.fileLength]
      exact extent_le (sound.index.slot_lt member) fits
    · obtain rfl := Option.some.inj wrote
      refine ⟨index, fun unit inside => sound.waiting unit (List.mem_append_right _ inside), ?_, sound.pinned⟩
      intro other new
      cases new
  next => cases wrote

theorem sound_listUnit (sound : Sound config s) (listed : s.listUnit = some t) : Sound config t := by
  unfold State.listUnit at listed
  split at listed
  next placed here =>
    obtain ⟨known, ⟨front, segment, split, same, offset, fits⟩, bytes⟩ := sound.placed placed here
    split_ifs at listed with written
    dsimp only at listed
    rw [split, List.getLast?_concat] at listed
    dsimp only at listed
    rw [if_neg (by simp [same]), List.dropLast_concat] at listed
    obtain rfl := Option.some.inj listed
    have size : (refOf placed).size = placed.unit.data.length := Nat.mod_eq_of_lt known.narrow
    refine ⟨?_, sound.waiting, (fun other new => nomatch new), ?_⟩
    · have index := sound.index
      rw [split] at index
      rw [← size] at fits ⊢
      refine index.list offset ?_ fits (⟨known.logged, ?_, rfl, rfl⟩ : Holds _ _ (refOf placed) placed.unit)
      · rw [size]
        exact List.length_pos_iff.mpr known.some
      · rw [size]
        exact bytes written
    · have pinned := sound.pinned
      rw [split] at pinned
      apply pinned.keep
      intro window live other member taken
      rcases List.mem_append.mp member with before | last
      · exact ⟨other, List.mem_append_left _ before, fun unit inside => inside, rfl⟩
      · obtain rfl := List.mem_singleton.mp last
        exact ⟨_, List.mem_append_right _ (List.mem_singleton_self _), List.subset_append_left _ _, rfl⟩
  next => cases listed

theorem sound_step (sound : Sound config s) {move : Step} (stepped : step config s move = some t) :
    Sound config t := by
  cases move with
  | push data captureUs keyframe =>
    obtain rfl := Option.some.inj stepped
    exact sound_push sound data captureUs keyframe
  | takeKeyframeRequest =>
    obtain rfl := Option.some.inj stepped
    exact ⟨sound.index, sound.waiting, sound.placed, sound.pinned⟩
  | drain =>
    rw [step] at stepped
    split_ifs at stepped
    obtain rfl := Option.some.inj stepped
    refine ⟨sound.index, fun unit member => sound.waiting unit ?_, sound.placed, sound.pinned⟩
    rcases List.mem_append.mp member with taken | none
    · exact List.mem_append_right _ taken
    · cases none
  | writeNext => exact sound_writeNext sound stepped
  | writeFile count => exact sound_writeFile sound stepped
  | listUnit => exact sound_listUnit sound stepped
  | pinWindow startUs endUs =>
    obtain rfl := Option.some.inj stepped
    have pinned := sound.pinned.pin startUs endUs
    rw [pinWindow_eq] at pinned ⊢
    refine ⟨sound.index.repin ?_ (owner_pins _ _), sound.waiting, sound.placed, pinned⟩
    exact length_foldl_modify _ _ _
  | release index =>
    have pinned := sound.pinned.release stepped
    rw [step, State.release] at stepped
    split at stepped
    next window found =>
      obtain rfl := Option.some.inj stepped
      refine ⟨sound.index.repin ?_ (owner_unpins _ _), sound.waiting, sound.placed, pinned⟩
      exact length_foldl_modify _ _ _
    next => cases stepped

theorem sound_start (config : Config) : Sound config (start config) := by
  have unowned : ∀ k, owner (start config).slots k = none := by
    intro k
    unfold owner start
    rw [List.getElem?_replicate]
    split_ifs <;> rfl
  refine ⟨⟨?_, ?_, ?_, ?_, List.Pairwise.nil, ?_, ?_, ?_, ?_⟩, ?_, ?_, ?_, ?_⟩
  · exact List.length_replicate
  · exact List.length_replicate
  · intro k k' seq held
    rw [unowned] at held
    cases held
  · intro k seq held
    rw [unowned] at held
    cases held
  · exact fun segment member => by cases member
  · exact fun segment member => by cases member
  · exact fun segment member => by cases member
  · exact fun segment member => by cases member
  · exact fun unit member => by cases member
  · exact fun placed none => by cases none
  · intro k held found
    unfold start at found
    rw [List.getElem?_replicate] at found
    split_ifs at found
    obtain rfl := Option.some.inj found
    rfl
  · exact fun window live => by cases live

theorem sound_run {steps : List Step} (ran : Runs.run (step config) (start config) steps = some s) :
    Sound config s :=
  Runs.run_invariant (Sound config) (fun _ _ _ _ sound stepped => sound_step sound stepped)
    (sound_start config) ran

/-- While a window lives, each unit that it lists reads as the bytes that were
pushed for the unit, lies in one of the window's slots, and overlaps no other
unit that a live window lists. -/
theorem pinned_window_exact {steps : List Step}
    (ran : Runs.run (step config) (start config) steps = some s) {window : Window}
    (live : window ∈ s.windows) {unit : AccessUnitRef} (listed : unit ∈ window.units) :
    (∃ source, s.pushed[unit.number]? = some source ∧ s.read unit = some source.data ∧
      unit.captureUs = source.captureUs ∧ unit.keyframe = source.keyframe) ∧
    (∃ slot ∈ window.slots, slot < config.segments ∧ slot * config.segmentBytes ≤ unit.offset ∧
      unit.offset + unit.size ≤ (slot + 1) * config.segmentBytes) ∧
    ∀ other ∈ s.windows, ∀ also ∈ other.units, unit = also ∨
      unit.offset + unit.size ≤ also.offset ∨ also.offset + also.size ≤ unit.offset := by
  have sound := sound_run ran
  obtain ⟨segment, member, inside, taken⟩ := sound.pinned.listed window live unit listed
  refine ⟨?_, ?_, ?_⟩
  · obtain ⟨source, holds⟩ := sound.index.holds segment member unit inside
    exact ⟨source, holds.logged, holds.bytes, holds.captureUs, holds.keyframe⟩
  · obtain ⟨low, high⟩ := sound.index.inside member inside
    have room := sound.index.room segment member
    refine ⟨segment.slot, taken, sound.index.slot_lt member, low, ?_⟩
    rw [Nat.succ_mul]
    omega
  · intro other liveToo also listedToo
    obtain ⟨second, memberToo, insideToo, -⟩ := sound.pinned.listed other liveToo also listedToo
    exact sound.index.apart member memberToo inside insideToo

/-- Two slots of four bytes, two GOPs, and a window on each kind of slot. -/
def smallRing : Config where
  segments := 2
  segmentBytes := 4
  enough := by decide
  room := by decide
  narrow := by decide

def twoWindows : List Step :=
  [.push [1, 2] 10 true, .push [3] 20 false, .drain, .writeNext, .writeFile 2, .listUnit,
    .pinWindow 10 10, .writeNext, .writeFile 1, .listUnit, .push [4, 5, 6] 30 true, .pinWindow 10 20, .drain,
    .writeNext, .writeFile 3, .listUnit]

theorem pinned_window_exact_twoWindows :
    ∃ s, Runs.run (step smallRing) (start smallRing) twoWindows = some s ∧
      ∃ window ∈ s.windows, ∃ unit ∈ window.units, unit.number = 1 ∧
        ∃ source, s.pushed[unit.number]? = some source ∧ s.read unit = some source.data := by
  have facts : (Runs.run (step smallRing) (start smallRing) twoWindows).map (fun s => s.windows) =
      some [⟨[0], [⟨0, 0, 2, 10, true, 0⟩]⟩, ⟨[0], [⟨0, 0, 2, 10, true, 0⟩, ⟨0, 2, 1, 20, false, 1⟩]⟩] := by
    decide +kernel
  obtain ⟨s, ran, windows⟩ := Option.map_eq_some_iff.mp facts
  have live : (⟨[0], [⟨0, 0, 2, 10, true, 0⟩, ⟨0, 2, 1, 20, false, 1⟩]⟩ : Window) ∈ s.windows := by
    rw [windows]
    decide
  have listed : (⟨0, 2, 1, 20, false, 1⟩ : AccessUnitRef) ∈
      [(⟨0, 0, 2, 10, true, 0⟩ : AccessUnitRef), ⟨0, 2, 1, 20, false, 1⟩] := by decide
  obtain ⟨⟨source, logged, bytes, -⟩, -⟩ := pinned_window_exact ran live listed
  exact ⟨s, ran, _, live, _, listed, rfl, source, logged, bytes⟩

end Mello.Replay.VideoRingPins
