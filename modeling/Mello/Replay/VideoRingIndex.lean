import Mello.Replay.VideoRing

/-!
The index of the ring. Each segment fills a slot of its own from the start, a
segment leaves the index only when its slot is taken again, and the writer
writes only behind what the index lists, so the extent of each indexed unit
holds the bytes that were pushed for it.
-/

namespace Mello.Replay.VideoRingIndex
open Mello.Library Extents VideoRing State

variable {config : Config} {s t : State}

/-! ## One call -/

/-- All that a push can do. -/
theorem push_cases (config : Config) (s : State) (data : List Byte) (captureUs : Nat) (keyframe : Bool) :
    let unit : QueuedUnit := ⟨data, captureUs, keyframe, s.pushed.length⟩
    s.push config data captureUs keyframe = s ∨
      (s.active = true ∧ data ≠ [] ∧ ∃ request, s.push config data captureUs keyframe =
        { s with pushed := s.pushed ++ [unit], pushDropping := true, keyframeRequest := request }) ∨
      (s.active = true ∧ data ≠ [] ∧ (keyframe = false → s.pushDropping = false) ∧
        s.queuedBytes + data.length ≤ config.queueBytes ∧
        s.push config data captureUs keyframe =
          { s with
            pushed := s.pushed ++ [unit], pushDropping := false
            queuedBytes := s.queuedBytes + data.length, queue := s.queue ++ [unit] }) := by
  intro unit
  unfold State.push
  by_cases off : s.active = false ∨ data = []
  · rw [if_pos off]
    exact .inl rfl
  · rw [if_neg off]
    rw [not_or, Bool.not_eq_false] at off
    refine .inr ?_
    by_cases full : config.queueBytes < s.queuedBytes + data.length
    · refine .inl ⟨off.1, off.2, ?_⟩
      cases keyframe <;> cases s.pushDropping <;> simp [full, unit]
    · by_cases dropping : s.pushDropping = true ∧ keyframe = false
      · refine .inl ⟨off.1, off.2, s.keyframeRequest, ?_⟩
        simp [dropping.1, dropping.2, unit]
      · refine .inr ⟨off.1, off.2, ?_, not_lt.mp full, ?_⟩
        · intro delta
          exact Bool.eq_false_of_not_eq_true fun drops => dropping ⟨drops, delta⟩
        · cases keyframe <;> cases drops : s.pushDropping <;> simp [drops, full, unit] at dropping ⊢

theorem freeSlot_spec {slot : Nat} (free : s.freeSlot = some slot) :
    ∃ held, s.slots[slot]? = some held ∧ held.pins = 0 := by
  unfold freeSlot at free
  obtain ⟨i, -, found⟩ := List.exists_of_findSome?_eq_some free
  dsimp only at found
  split_ifs at found with unpinned
  obtain rfl := Option.some.inj found
  obtain ⟨held, here, zero⟩ := Option.map_eq_some_iff.mp unpinned
  exact ⟨held, here, zero⟩

/-- What becomes of the next unit of a drain. -/
inductive Wrote (config : Config) (s : State) (unit : QueuedUnit) (rest : List QueuedUnit) (t : State) : Prop
  /-- The unit is dropped, and the deltas behind it will be. -/
  | dropped (writing skipping request : Bool)
      (stops : writing = false ∨ (unit.keyframe = false ∧ writing = s.writing ∧ s.writeSkipping = true))
      (after : t = { s with
        draining := rest, writing := writing, writeSkipping := skipping, keyframeRequest := request })
  /-- A keyframe opens a segment that it does not fit in. -/
  | overflowed (slot : Nat) (free : s.freeSlot = some slot) (keyframe : unit.keyframe = true)
      (after : t = { ({ s with draining := rest, writing := false }.openSegment slot) with
        writing := false, writeSkipping := true, keyframeRequest := true })
  /-- A keyframe opens a segment. -/
  | opened (slot : Nat) (free : s.freeSlot = some slot) (keyframe : unit.keyframe = true)
      (fits : unit.data.length ≤ config.segmentBytes)
      (after : t = { ({ s with draining := rest, writing := false }.openSegment slot) with
        placed := some ⟨unit, slot * config.segmentBytes, s.nextSeq, false⟩ })
  /-- A delta goes behind the newest segment's units. -/
  | appended (segment : Segment) (last : s.segments.getLast? = some segment) (delta : unit.keyframe = false)
      (writing : s.writing = true) (fits : segment.used + unit.data.length ≤ config.segmentBytes)
      (after : t = { s with
        draining := rest
        placed := some ⟨unit, segment.slot * config.segmentBytes + segment.used, segment.seq, false⟩ })

theorem place_openSegment (s : State) (slot : Nat) (unit : QueuedUnit) :
    place config (s.openSegment slot) unit =
      if config.segmentBytes < unit.data.length then
        some { s.openSegment slot with writing := false, writeSkipping := true, keyframeRequest := true }
      else
        some { s.openSegment slot with
          placed := some ⟨unit, slot * config.segmentBytes, s.nextSeq, false⟩ } := by
  have last : (s.openSegment slot).segments.getLast? = some { seq := s.nextSeq, slot } := by
    unfold State.openSegment
    rw [List.getLast?_concat]
  unfold place
  rw [last]
  simp only [Nat.zero_add, Nat.add_zero]

theorem writeNext_cases (wrote : s.writeNext config = some t) :
    s.placed = none ∧ ∃ unit rest, s.draining = unit :: rest ∧
      ((s.active = false ∧ t = { s with draining := [] }) ∨
        (s.active = true ∧ Wrote config s unit rest t)) := by
  unfold writeNext at wrote
  split at wrote
  next unit rest idle units =>
    refine ⟨idle, unit, rest, units, ?_⟩
    split_ifs at wrote with active
    · refine .inr ⟨active, ?_⟩
      unfold reserve at wrote
      split_ifs at wrote with keyframe silent
      · dsimp only at wrote
        split at wrote
        next none => exact .dropped false true true (.inl rfl) (Option.some.inj wrote).symm
        next slot free =>
          rw [place_openSegment] at wrote
          split_ifs at wrote with large
          · exact .overflowed slot free keyframe (Option.some.inj wrote).symm
          · exact .opened slot free keyframe (not_lt.mp large) (Option.some.inj wrote).symm
      · have delta : unit.keyframe = false := Bool.eq_false_of_not_eq_true keyframe
        refine .dropped s.writing s.writeSkipping s.keyframeRequest ?_ (Option.some.inj wrote).symm
        exact silent.imp id fun skipping => ⟨delta, rfl, skipping⟩
      · have delta : unit.keyframe = false := Bool.eq_false_of_not_eq_true keyframe
        rw [not_or, Bool.not_eq_false] at silent
        unfold place at wrote
        split at wrote
        next => cases wrote
        next segment last =>
          split_ifs at wrote with large
          · exact .dropped false true true (.inl rfl) (Option.some.inj wrote).symm
          · exact .appended segment last delta silent.1 (not_lt.mp large) (Option.some.inj wrote).symm
    · exact .inl ⟨Bool.eq_false_of_not_eq_true active, (Option.some.inj wrote).symm⟩
  next => cases wrote

/-! ## The index -/

/-- The segment that a slot holds. -/
def owner (slots : List Slot) (k : Nat) : Option Nat :=
  slots[k]?.bind fun held => if held.holdsSegment then some held.segmentSeq else none

/-- A unit that the queue took. -/
structure Known (config : Config) (pushed : List QueuedUnit) (unit : QueuedUnit) : Prop where
  logged : pushed[unit.number]? = some unit
  some : unit.data ≠ []
  narrow : unit.data.length < 2 ^ 32

/-- The unit's extent holds the bytes pushed under its number. -/
structure Holds (pushed : List QueuedUnit) (file : List Byte) (unit : AccessUnitRef) (source : QueuedUnit) :
    Prop where
  logged : pushed[unit.number]? = some source
  bytes : readAt file unit.offset unit.size = some source.data
  captureUs : unit.captureUs = source.captureUs
  keyframe : unit.keyframe = source.keyframe

/-- The segments lie in slots of their own, each slot filled from its start. -/
structure Index (config : Config) (slots : List Slot) (segments : List Segment) (nextSeq : Nat)
    (file : List Byte) (pushed : List QueuedUnit) : Prop where
  slotCount : slots.length = config.segments
  fileLength : file.length = config.segments * config.segmentBytes
  distinct : ∀ k k' seq, owner slots k = some seq → owner slots k' = some seq → k = k'
  fresh : ∀ k seq, owner slots k = some seq → seq < nextSeq
  ordered : segments.Pairwise fun a b => a.seq < b.seq
  owned : ∀ segment ∈ segments, owner slots segment.slot = some segment.seq
  room : ∀ segment ∈ segments, segment.used ≤ config.segmentBytes
  tiled : ∀ segment ∈ segments, Tiled AccessUnitRef.offset AccessUnitRef.size
    (segment.slot * config.segmentBytes) (segment.slot * config.segmentBytes + segment.used) segment.units
  holds : ∀ segment ∈ segments, ∀ unit ∈ segment.units, ∃ source, Holds pushed file unit source

section Index

variable {slots : List Slot} {segments : List Segment} {nextSeq : Nat} {file : List Byte}
  {pushed : List QueuedUnit}

theorem owner_lt {k seq : Nat} (held : owner slots k = some seq) : k < slots.length := by
  unfold owner at held
  obtain ⟨slot, here, -⟩ := Option.bind_eq_some_iff.mp held
  exact (List.getElem?_eq_some_iff.mp here).1

theorem dropHeld_eq (s : State) (slot : Nat) :
    s.dropHeld slot = match owner s.slots slot with
      | some seq => s.segments.filter fun segment => segment.seq ≠ seq
      | none => s.segments := by
  unfold dropHeld owner
  cases s.slots[slot]? with
  | none => rfl
  | some held => cases holds : held.holdsSegment <;> simp [holds]

/-- What leaves the index with a slot is what lies in it. -/
theorem Index.mem_dropHeld {s : State} (index : Index config s.slots s.segments nextSeq file pushed)
    (slot : Nat) (segment : Segment) :
    segment ∈ s.dropHeld slot ↔ segment ∈ s.segments ∧ segment.slot ≠ slot := by
  rw [dropHeld_eq]
  constructor
  · intro member
    cases held : owner s.slots slot with
    | none =>
      rw [held] at member
      refine ⟨member, ?_⟩
      rintro rfl
      rw [index.owned segment member] at held
      cases held
    | some seq =>
      rw [held] at member
      obtain ⟨inside, other⟩ := List.mem_filter.mp member
      refine ⟨inside, ?_⟩
      rintro rfl
      rw [index.owned segment inside] at held
      simp [Option.some.inj held] at other
  · rintro ⟨member, apart⟩
    cases held : owner s.slots slot with
    | none => exact member
    | some seq =>
      refine List.mem_filter.mpr ⟨member, ?_⟩
      have other : segment.seq ≠ seq := by
        rintro rfl
        exact apart (index.distinct _ _ _ (index.owned segment member) held)
      simpa using other

theorem dropHeld_sublist (s : State) (slot : Nat) : (s.dropHeld slot).Sublist s.segments := by
  rw [dropHeld_eq]
  split
  · exact List.filter_sublist
  · exact List.Sublist.refl _

theorem Index.slot_lt (index : Index config slots segments nextSeq file pushed) {segment : Segment}
    (member : segment ∈ segments) : segment.slot < config.segments :=
  index.slotCount ▸ owner_lt (index.owned segment member)

/-- Two segments of the index lie in two slots. -/
theorem Index.eq_of_slot (index : Index config slots segments nextSeq file pushed) {a b : Segment}
    (first : a ∈ segments) (second : b ∈ segments) (same : a.slot = b.slot) : a = b := by
  have seqs : a.seq = b.seq := by
    have held := index.owned a first
    rw [same, index.owned b second] at held
    exact (Option.some.inj held).symm
  by_contra differ
  have distinct : segments.Pairwise fun a b => a.seq ≠ b.seq := index.ordered.imp fun less => ne_of_lt less
  have symmetric : Std.Symm fun a b : Segment => a.seq ≠ b.seq := ⟨fun _ _ => Ne.symm⟩
  exact distinct.forall first second differ seqs

/-- An indexed unit lies inside its slot. -/
theorem Index.inside (index : Index config slots segments nextSeq file pushed) {segment : Segment}
    (member : segment ∈ segments) {unit : AccessUnitRef} (listed : unit ∈ segment.units) :
    segment.slot * config.segmentBytes ≤ unit.offset ∧
      unit.offset + unit.size ≤ segment.slot * config.segmentBytes + segment.used := by
  obtain ⟨low, -, high⟩ := (index.tiled segment member).inside listed
  exact ⟨low, high⟩

theorem slot_extent (width : Nat) {k k' : Nat} (less : k < k') : k * width + width ≤ k' * width := by
  have bound := Nat.mul_le_mul_right width less
  rwa [Nat.succ_mul] at bound

/-- Indexed units are equal or lie apart. -/
theorem Index.apart (index : Index config slots segments nextSeq file pushed) {a b : Segment}
    (first : a ∈ segments) (second : b ∈ segments) {unit other : AccessUnitRef}
    (listed : unit ∈ a.units) (also : other ∈ b.units) :
    unit = other ∨ unit.offset + unit.size ≤ other.offset ∨ other.offset + other.size ≤ unit.offset := by
  obtain ⟨lowA, highA⟩ := index.inside first listed
  obtain ⟨lowB, highB⟩ := index.inside second also
  have roomA := index.room a first
  have roomB := index.room b second
  rcases lt_trichotomy a.slot b.slot with less | same | more
  · have bound := slot_extent config.segmentBytes less
    omega
  · obtain rfl := index.eq_of_slot first second same
    exact (index.tiled a first).apart listed also
  · have bound := slot_extent config.segmentBytes more
    omega

/-- A slot of the file holds what fits in it. -/
theorem extent_le {slot used count : Nat} (inRange : slot < config.segments)
    (fits : used + count ≤ config.segmentBytes) :
    slot * config.segmentBytes + used + count ≤ config.segments * config.segmentBytes := by
  have bound := slot_extent config.segmentBytes inRange
  omega

/-- A write behind a segment's units leaves every indexed unit. -/
theorem Index.write (index : Index config slots segments nextSeq file pushed) {segment : Segment}
    (member : segment ∈ segments) {data : List Byte} (fits : segment.used + data.length ≤ config.segmentBytes) :
    Index config slots segments nextSeq
      (writeAt file (segment.slot * config.segmentBytes + segment.used) data) pushed := by
  have within := extent_le (index.slot_lt member) fits
  rw [← index.fileLength] at within
  refine { index with fileLength := (length_writeAt within).trans index.fileLength, holds := ?_ }
  intro other known unit listed
  obtain ⟨source, holds⟩ := index.holds other known unit listed
  refine ⟨source, { holds with bytes := ?_ }⟩
  rw [readAt_writeAt_apart within ?_]
  · exact holds.bytes
  · obtain ⟨low, high⟩ := index.inside known listed
    have room := index.room other known
    rcases lt_trichotomy other.slot segment.slot with less | same | more
    · have bound := slot_extent config.segmentBytes less
      omega
    · obtain rfl := index.eq_of_slot known member same
      omega
    · have bound := slot_extent config.segmentBytes more
      omega

theorem getElem?_concat_of_some {units : List QueuedUnit} {k : Nat} {unit new : QueuedUnit}
    (found : units[k]? = some unit) : (units ++ [new])[k]? = some unit := by
  have inside := (List.getElem?_eq_some_iff.mp found).1
  rw [List.getElem?_append_left inside]
  exact found

theorem Index.log (index : Index config slots segments nextSeq file pushed) (new : QueuedUnit) :
    Index config slots segments nextSeq file (pushed ++ [new]) := by
  refine { index with holds := ?_ }
  intro segment member unit listed
  obtain ⟨source, holds⟩ := index.holds segment member unit listed
  exact ⟨source, { holds with logged := getElem?_concat_of_some holds.logged }⟩

theorem Known.log {unit : QueuedUnit} (known : Known config pushed unit) (new : QueuedUnit) :
    Known config (pushed ++ [new]) unit :=
  { known with logged := getElem?_concat_of_some known.logged }

/-- Only the slots' owners count, not their pins. -/
theorem Index.repin (index : Index config slots segments nextSeq file pushed) {others : List Slot}
    (length : others.length = slots.length) (same : ∀ k, owner others k = owner slots k) :
    Index config others segments nextSeq file pushed where
  slotCount := length.trans index.slotCount
  fileLength := index.fileLength
  distinct := fun k k' seq => by rw [same, same]; exact index.distinct k k' seq
  fresh := fun k seq => by rw [same]; exact index.fresh k seq
  ordered := index.ordered
  owned := fun segment member => (same _).trans (index.owned segment member)
  room := index.room
  tiled := index.tiled
  holds := index.holds

theorem owner_openSegment (s : State) (slot k : Nat) (inRange : slot < s.slots.length) :
    owner (s.openSegment slot).slots k = if k = slot then some s.nextSeq else owner s.slots k := by
  unfold State.openSegment owner
  rw [List.getElem?_modify]
  split_ifs with here here' here'
  · subst here'
    rw [List.getElem?_eq_getElem inRange]
    rfl
  · exact absurd here.symm here'
  · exact absurd here'.symm here
  · simp

/-- A segment in a free slot drives out what the slot held. -/
theorem Index.open {s : State} (index : Index config s.slots s.segments s.nextSeq file pushed) {slot : Nat}
    (inRange : slot < s.slots.length) :
    Index config (s.openSegment slot).slots (s.openSegment slot).segments (s.openSegment slot).nextSeq
      file pushed := by
  have old : ∀ segment ∈ s.dropHeld slot, segment ∈ s.segments ∧ segment.slot ≠ slot :=
    fun segment => (index.mem_dropHeld slot segment).mp
  have cases : ∀ segment ∈ (s.openSegment slot).segments,
      (segment ∈ s.segments ∧ segment.slot ≠ slot) ∨ segment = { seq := s.nextSeq, slot } := by
    intro segment member
    exact (List.mem_append.mp member).imp (old segment) List.mem_singleton.mp
  constructor
  · exact (List.length_modify _ _ _).trans index.slotCount
  · exact index.fileLength
  · intro k k' seq
    rw [owner_openSegment s slot k inRange, owner_openSegment s slot k' inRange]
    split_ifs with here here' here'
    · exact fun _ _ => here.trans here'.symm
    · intro new held
      obtain rfl := Option.some.inj new
      exact absurd (index.fresh k' _ held) (lt_irrefl _)
    · intro held new
      obtain rfl := Option.some.inj new
      exact absurd (index.fresh k _ held) (lt_irrefl _)
    · exact index.distinct k k' seq
  · intro k seq
    rw [owner_openSegment s slot k inRange]
    split_ifs
    · intro new
      obtain rfl := Option.some.inj new
      exact Nat.lt_succ_self _
    · exact fun held => (index.fresh k seq held).trans (Nat.lt_succ_self _)
  · refine List.pairwise_append.mpr ⟨index.ordered.sublist (dropHeld_sublist s slot), List.pairwise_singleton _ _, ?_⟩
    intro segment member new last
    obtain rfl := List.mem_singleton.mp last
    exact index.fresh _ _ (index.owned segment (old segment member).1)
  · intro segment member
    rw [owner_openSegment s slot _ inRange]
    rcases cases segment member with ⟨inside, apart⟩ | rfl
    · rw [if_neg apart]
      exact index.owned segment inside
    · rw [if_pos rfl]
  · intro segment member
    rcases cases segment member with ⟨inside, -⟩ | rfl
    · exact index.room segment inside
    · exact Nat.zero_le _
  · intro segment member
    rcases cases segment member with ⟨inside, -⟩ | rfl
    · exact index.tiled segment inside
    · exact rfl
  · intro segment member unit listed
    rcases cases segment member with ⟨inside, -⟩ | rfl
    · exact index.holds segment inside unit listed
    · cases listed

/-- A written unit goes into the index behind the newest segment's units. -/
theorem Index.list {front : List Segment} {segment : Segment}
    (index : Index config slots (front ++ [segment]) nextSeq file pushed) {unit : AccessUnitRef}
    (here : unit.offset = segment.slot * config.segmentBytes + segment.used) (some : 0 < unit.size)
    (fits : segment.used + unit.size ≤ config.segmentBytes) {source : QueuedUnit}
    (holds : Holds pushed file unit source) :
    Index config slots
      (front ++ [{ segment with units := segment.units ++ [unit], used := segment.used + unit.size }])
      nextSeq file pushed := by
  have last : segment ∈ front ++ [segment] := List.mem_append_right _ (List.mem_singleton_self _)
  have cases : ∀ other ∈ front ++ [({ segment with
        units := segment.units ++ [unit], used := segment.used + unit.size } : Segment)],
      other ∈ front ++ [segment] ∨
        other = { segment with units := segment.units ++ [unit], used := segment.used + unit.size } := by
    intro other member
    exact (List.mem_append.mp member).imp (List.mem_append_left _) List.mem_singleton.mp
  refine { index with ordered := ?_, owned := ?_, room := ?_, tiled := ?_, holds := ?_ }
  · have before := List.pairwise_append.mp index.ordered
    refine List.pairwise_append.mpr ⟨before.1, List.pairwise_singleton _ _, ?_⟩
    intro other member new known
    obtain rfl := List.mem_singleton.mp known
    exact before.2.2 other member segment (List.mem_singleton_self _)
  · intro other member
    rcases cases other member with inside | rfl
    · exact index.owned other inside
    · exact index.owned segment last
  · intro other member
    rcases cases other member with inside | rfl
    · exact index.room other inside
    · exact fits
  · intro other member
    rcases cases other member with inside | rfl
    · exact index.tiled other inside
    · have tiled := (index.tiled segment last).concat here some
      rwa [Nat.add_assoc] at tiled
  · intro other member listed known
    rcases cases other member with inside | rfl
    · exact index.holds other inside listed known
    · rcases List.mem_append.mp known with older | new
      · exact index.holds segment last listed older
      · obtain rfl := List.mem_singleton.mp new
        exact ⟨source, holds⟩

end Index

end Mello.Replay.VideoRingIndex
