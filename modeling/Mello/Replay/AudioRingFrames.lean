import Mello.Replay.AudioRing

/-!
Every frame in its place and at its time. What the writer has written, what the chunk
holds and what is queued are, one after another, the frames that the queue took, each at
the time of its packet up to the gap that a chunk spans.
-/

namespace Mello.Replay.AudioRingFrames
open Mello.Library Wheel AudioRing State

variable {config : Config} {disk : ℕ → Option Slot} {s t : State}

/-! ## Times -/

/-- A frame at the time that its packet or its chunk gives it. -/
structure Stamped where
  frame : Frame
  timeUs : BitVec 64
  deriving DecidableEq, Repr

/-- Frames from `off` frames after a time on. -/
def stampsFrom (captureUs : BitVec 64) (off : ℕ) (frames : List Frame) : List Stamped :=
  frames.mapIdx fun i frame => ⟨frame, captureUs + framesToUs (i + off)⟩

def packetStamps (packet : Packet) : List Stamped := stampsFrom packet.captureUs 0 packet.frames

def chunkStamps (chunk : Chunk) : List Stamped := stampsFrom chunk.captureUs 0 chunk.frames

/-- At most the gap and a microsecond apart, on a clock of 64 bits. -/
def Near (a b : BitVec 64) : Prop := a - b ≤ kGapUs + 1 ∨ b - a ≤ kGapUs + 1

structure Follows (kept given : Stamped) : Prop where
  frame : kept.frame = given.frame
  near : Near kept.timeUs given.timeUs

theorem stampsFrom_append (captureUs : BitVec 64) (off : ℕ) (front back : List Frame) :
    stampsFrom captureUs off (front ++ back) =
      stampsFrom captureUs off front ++ stampsFrom captureUs (off + front.length) back := by
  unfold stampsFrom
  rw [List.mapIdx_append]
  simp only [Nat.add_assoc, Nat.add_comm front.length off]

theorem follows_stampsFrom {a b : BitVec 64} {i j : ℕ} (frames : List Frame)
    (near : ∀ k < frames.length, Near (a + framesToUs (k + i)) (b + framesToUs (k + j))) :
    List.Forall₂ Follows (stampsFrom a i frames) (stampsFrom b j frames) := by
  induction frames generalizing i j with
  | nil => exact .nil
  | cons frame rest ih =>
    unfold stampsFrom at ih ⊢
    rw [List.mapIdx_cons, List.mapIdx_cons]
    refine .cons ⟨rfl, near 0 (Nat.succ_pos _)⟩ ?_
    simp only [Nat.add_assoc]
    refine ih fun k inside => ?_
    have next := near (k + 1) (Nat.succ_lt_succ inside)
    simp only [Nat.add_assoc] at next
    exact next

/-- A conversion of a sum loses a microsecond at most. -/
theorem framesToUs_add {a b : ℕ} (small : a + b ≤ 2 * kQueueFrames) :
    framesToUs (a + b) = framesToUs a + framesToUs b ∨ framesToUs (a + b) = framesToUs a + framesToUs b + 1 := by
  unfold framesToUs
  unfold kQueueFrames kRate at *
  rw [Nat.mod_eq_of_lt (by omega), Nat.mod_eq_of_lt (by omega), Nat.mod_eq_of_lt (by omega)]
  have parts : (a + b) * 1000000 / 48000 = a * 1000000 / 48000 + b * 1000000 / 48000 ∨
      (a + b) * 1000000 / 48000 = a * 1000000 / 48000 + b * 1000000 / 48000 + 1 := by omega
  refine parts.imp (fun same => ?_) fun same => ?_
  · rw [same, BitVec.ofNat_add]
  · rw [same, BitVec.ofNat_add, BitVec.ofNat_add]
    rfl

theorem near_add (a b time : BitVec 64) (near : Near a b) : Near (a + time) (b + time) := by
  unfold Near at near ⊢
  rw [add_sub_add_right_eq_sub, add_sub_add_right_eq_sub]
  exact near

theorem near_refl (a : BitVec 64) : Near a a := by
  left
  rw [sub_self]
  exact BitVec.le_def.mpr (Nat.zero_le _)

/-- The frames of a chunk that starts within a packet. -/
theorem near_of_start (captureUs : BitVec 64) {off i : ℕ} (small : off + i ≤ 2 * kQueueFrames) :
    Near (captureUs + framesToUs off + framesToUs i) (captureUs + framesToUs (i + off)) := by
  rw [Nat.add_comm i off, add_assoc]
  rcases framesToUs_add small with same | more
  · rw [same]
    exact near_refl _
  · right
    rw [more, add_sub_add_left_eq_sub, add_sub_cancel_left]
    decide

theorem within_of_not_gap {a b : BitVec 64} (early : ¬a + kGapUs < b) (late : ¬b + kGapUs < a) :
    a - b ≤ kGapUs ∨ b - a ≤ kGapUs := by
  unfold kGapUs at *
  bv_omega

/-- A microsecond more than the gap, in either direction. -/
theorem near_succ {a b : BitVec 64} (within : a - b ≤ kGapUs ∨ b - a ≤ kGapUs) : Near a b ∧ Near (a + 1) b := by
  unfold Near kGapUs at *
  constructor <;> bv_omega

/-- The frames of a packet that goes on with a chunk. -/
theorem near_of_join {start captureUs : BitVec 64} {k i : ℕ} (small : k + i ≤ 2 * kQueueFrames)
    (within : start + framesToUs k - captureUs ≤ kGapUs ∨ captureUs - (start + framesToUs k) ≤ kGapUs) :
    Near (start + framesToUs (i + k)) (captureUs + framesToUs i) := by
  rw [Nat.add_comm i k]
  obtain ⟨near, late⟩ := near_succ within
  rcases framesToUs_add small with same | more
  · rw [same, ← add_assoc]
    exact near_add _ _ _ near
  · rw [more, ← add_assoc, ← add_assoc, add_right_comm]
    exact near_add _ _ _ late

/-! ## The writer -/

/-- What the slots hold of the chunks written. -/
structure Sound (config : Config) (s : State) : Prop where
  file : Holds config.slotCount s.file (s.written.mapIdx slotOf)
  index : Holds config.slotCount s.index (s.written.mapIdx refOf)
  filled : Holds config.slotCount s.filled (List.replicate s.written.length true)
  nextSeq : s.nextSeq = s.written.length
  chunksWritten : s.chunksWritten = s.written.length
  sizes : ∀ chunk ∈ s.written, chunk.frames ≠ [] ∧ chunk.frames.length ≤ kChunkFrames
  room : s.chunk.frames.length ≤ kChunkFrames

/-- The frames that the writer has taken. -/
def stamps (s : State) : List Stamped := s.written.flatMap chunkStamps ++ chunkStamps s.chunk

/-- What the writer leaves alone while it takes packets. -/
def front (s : State) : Bool × List Packet × ℕ × ℕ × ℕ × List (Packet × Bool) :=
  (s.active, s.queue, s.queuedFrames, s.droppedFrames, s.framesDropped, s.pushed)

/-- The writer went on from one state to another with the frames of `given`. -/
structure Takes (config : Config) (s t : State) (given : List Stamped) : Prop where
  sound : Sound config t
  stamps : ∃ more, stamps t = stamps s ++ more ∧ List.Forall₂ Follows more given
  written : s.written <+: t.written
  front : front t = front s

theorem Takes.refl (sound : Sound config s) : Takes config s s [] :=
  ⟨sound, ⟨[], (List.append_nil _).symm, .nil⟩, List.prefix_refl _, rfl⟩

theorem Takes.trans {u : State} {first second : List Stamped} (one : Takes config s t first)
    (two : Takes config t u second) : Takes config s u (first ++ second) := by
  obtain ⟨-, ⟨more, split, follows⟩, written, front⟩ := one
  obtain ⟨sound, ⟨rest, split_, follows_⟩, written_, front_⟩ := two
  refine ⟨sound, ⟨more ++ rest, ?_, List.rel_append follows follows_⟩, written.trans written_, front_.trans front⟩
  rw [split_, split, List.append_assoc]

theorem writeChunk_spec (works : ∀ seq, disk seq = none) (sound : Sound config s) (some : s.chunk.frames ≠ []) :
    ∃ t, s.writeChunk config disk = .ok t ∧ Takes config s t [] ∧ t.chunk.frames = [] := by
  obtain ⟨file, index, filled, nextSeq, chunksWritten, sizes, room⟩ := sound
  unfold writeChunk
  dsimp only
  rw [works]
  refine ⟨_, rfl, ⟨⟨?_, ?_, ?_, ?_, ?_, ?_, Nat.zero_le _⟩, ⟨[], ?_, .nil⟩, List.prefix_append _ _, rfl⟩, rfl⟩
  · have next := file.push config.some (slotOf s.written.length s.chunk)
    rw [List.length_mapIdx, ← nextSeq] at next
    rw [List.mapIdx_concat, ← nextSeq]
    exact next
  · have next := index.push config.some (refOf s.written.length s.chunk)
    rw [List.length_mapIdx, ← nextSeq] at next
    rw [List.mapIdx_concat, ← nextSeq]
    exact next
  · have next := filled.push config.some true
    rw [List.length_replicate, ← nextSeq] at next
    rw [List.set_set, List.length_append, List.length_singleton, List.replicate_succ', ← nextSeq]
    exact next
  · rw [List.length_append, nextSeq]
    rfl
  · rw [List.length_append, chunksWritten]
    rfl
  · intro chunk member
    rcases List.mem_append.mp member with before | this
    · exact sizes chunk before
    · rw [List.mem_singleton.mp this]
      exact ⟨some, room⟩
  · unfold stamps
    rw [List.flatMap_append, List.flatMap_singleton, List.append_nil]
    exact List.append_nil _

theorem room_of_empty (empty : s.chunk.frames = []) : s.chunk.frames.length < kChunkFrames := by
  rw [empty]
  change 0 < kChunkFrames
  decide

/-- The chunk is empty, or `off` frames of the packet end where it does, up to the gap. -/
def Joins (s : State) (captureUs : BitVec 64) (off : ℕ) : Prop :=
  s.chunk.frames = [] ∨ off = 0 ∧
    (s.chunk.captureUs + framesToUs s.chunk.frames.length - captureUs ≤ kGapUs ∨
      captureUs - (s.chunk.captureUs + framesToUs s.chunk.frames.length) ≤ kGapUs)

theorem copy_spec {captureUs : BitVec 64} {off : ℕ} {frames : List Frame} (sound : Sound config s)
    (joins : Joins s captureUs off) (fits : s.chunk.frames.length + frames.length ≤ kChunkFrames)
    (small : off + frames.length ≤ kQueueFrames) :
    Takes config s (s.copy captureUs off frames) (stampsFrom captureUs off frames) := by
  refine ⟨⟨sound.file, sound.index, sound.filled, sound.nextSeq, sound.chunksWritten, sound.sizes, ?_⟩, ?_,
    List.prefix_refl _, rfl⟩
  · unfold State.copy
    rw [List.length_append]
    exact fits
  · unfold stamps chunkStamps State.copy
    dsimp only
    by_cases empty : s.chunk.frames = []
    · refine ⟨stampsFrom (captureUs + framesToUs off) 0 frames, ?_, ?_⟩
      · rw [if_pos empty, empty, List.nil_append, List.append_assoc]
        rfl
      · refine follows_stampsFrom frames fun i inside => ?_
        exact near_of_start captureUs (by omega)
    · obtain ⟨rfl, within⟩ := joins.resolve_left empty
      refine ⟨stampsFrom s.chunk.captureUs s.chunk.frames.length frames, ?_, ?_⟩
      · rw [if_neg empty, stampsFrom_append, Nat.zero_add, List.append_assoc]
      · refine follows_stampsFrom frames fun i inside => ?_
        have few : kChunkFrames + kChunkFrames ≤ 2 * kQueueFrames := by decide
        exact near_of_join (by omega) within

/-- A chunk with room takes one frame at least, so all of a packet goes in. -/
theorem fill_spec (works : ∀ seq, disk seq = none) {captureUs : BitVec 64} {fuel off : ℕ} {rest : List Frame}
    (sound : Sound config s) (room : s.chunk.frames.length < kChunkFrames) (joins : Joins s captureUs off)
    (enough : rest.length ≤ fuel) (small : off + rest.length ≤ kQueueFrames) :
    ∃ t, s.fill config disk captureUs fuel off rest = .ok t ∧ Takes config s t (stampsFrom captureUs off rest) ∧
      t.chunk.frames.length < kChunkFrames := by
  induction fuel generalizing off rest s with
  | zero =>
    rw [List.eq_nil_of_length_eq_zero (Nat.le_zero.mp enough)]
    exact ⟨s, rfl, .refl sound, room⟩
  | succ fuel ih =>
    unfold fill
    by_cases done : rest = []
    · rw [if_pos done, done]
      exact ⟨s, rfl, .refl sound, room⟩
    rw [if_neg done]
    dsimp only
    have some := List.length_pos_of_ne_nil done
    generalize count : min (kChunkFrames - s.chunk.frames.length) rest.length = n
    have piece : (rest.take n).length = n := List.length_take_of_le (by omega)
    have remains : (rest.drop n).length = rest.length - n := List.length_drop ..
    have cut : stampsFrom captureUs off rest =
        stampsFrom captureUs off (rest.take n) ++ stampsFrom captureUs (off + n) (rest.drop n) := by
      have halves := stampsFrom_append captureUs off (rest.take n) (rest.drop n)
      rw [List.take_append_drop, piece] at halves
      exact halves
    have takes := @copy_spec config s captureUs off (rest.take n) sound joins (by omega) (by omega)
    have length : (s.copy captureUs off (rest.take n)).chunk.frames.length = s.chunk.frames.length + n := by
      unfold State.copy
      rw [List.length_append, piece]
    generalize s.copy captureUs off (rest.take n) = u at *
    rw [cut]
    split_ifs with full
    · have some_ : u.chunk.frames ≠ [] := List.ne_nil_of_length_pos (by omega)
      obtain ⟨v, wrote, written, empty⟩ := writeChunk_spec works takes.sound some_
      obtain ⟨t, filled, rest_, room_⟩ := @ih v (off + n) (rest.drop n) written.sound (room_of_empty empty)
        (.inl empty) (by omega) (by omega)
      refine ⟨t, ?_, takes.trans (written.trans rest_), room_⟩
      rw [wrote]
      exact filled
    · have last : rest.drop n = [] := List.drop_eq_nil_of_le (by omega)
      rw [last]
      refine ⟨u, ?_, ?_, ?_⟩
      · cases fuel <;> rfl
      · rw [show stampsFrom captureUs (off + n) [] = [] from rfl, List.append_nil]
        exact takes
      · omega

theorem drainPacket_spec (works : ∀ seq, disk seq = none) {p : Packet} (sound : Sound config s)
    (room : s.chunk.frames.length < kChunkFrames) (small : p.frames.length ≤ kQueueFrames) :
    ∃ t, s.drainPacket config disk p = .ok t ∧ Takes config s t (packetStamps p) ∧
      t.chunk.frames.length < kChunkFrames := by
  unfold drainPacket
  by_cases gap : s.chunk.frames ≠ [] ∧ s.gapBefore p
  · rw [if_pos gap]
    obtain ⟨u, wrote, written, empty⟩ := writeChunk_spec works sound gap.1
    obtain ⟨t, filled, takes, room_⟩ := @fill_spec config disk u works p.captureUs p.frames.length 0 p.frames
      written.sound (room_of_empty empty) (.inl empty) le_rfl (by omega)
    refine ⟨t, ?_, written.trans takes, room_⟩
    rw [wrote]
    exact filled
  · rw [if_neg gap]
    refine fill_spec works sound room ?_ le_rfl (by omega)
    by_cases empty : s.chunk.frames = []
    · exact .inl empty
    · refine .inr ⟨rfl, ?_⟩
      rw [not_and] at gap
      have close := gap empty
      unfold gapBefore at close
      rw [not_or] at close
      exact within_of_not_gap close.1 close.2

theorem drainPackets_spec (works : ∀ seq, disk seq = none) {packets : List Packet} (sound : Sound config s)
    (room : s.chunk.frames.length < kChunkFrames) (small : ∀ p ∈ packets, p.frames.length ≤ kQueueFrames) :
    ∃ t, packets.foldlM (drainPacket config disk) s = .ok t ∧ Takes config s t (packets.flatMap packetStamps) ∧
      t.chunk.frames.length < kChunkFrames := by
  induction packets generalizing s with
  | nil => exact ⟨s, rfl, .refl sound, room⟩
  | cons p rest ih =>
    obtain ⟨u, drained, takes, room_⟩ := drainPacket_spec works sound room (small p List.mem_cons_self)
    obtain ⟨t, rest_, more, room__⟩ := ih takes.sound room_ fun q member => small q (List.mem_cons_of_mem _ member)
    refine ⟨t, ?_, takes.trans more, room__⟩
    rw [List.foldlM_cons, drained]
    exact rest_

theorem writePartly_spec (works : ∀ seq, disk seq = none) (sound : Sound config s)
    (room : s.chunk.frames.length < kChunkFrames) (partly : Bool) :
    Takes config s (s.writePartly config disk partly) [] ∧
      (s.writePartly config disk partly).chunk.frames.length < kChunkFrames := by
  unfold writePartly
  split_ifs with flush
  · obtain ⟨t, wrote, written, empty⟩ := writeChunk_spec works sound flush.2
    rw [wrote]
    exact ⟨written, room_of_empty empty⟩
  · exact ⟨.refl sound, room⟩

/-! ## Runs -/

/-- The packets that the queue took. -/
def taken (s : State) : List Packet := (s.pushed.filter Prod.snd).map Prod.fst

/-- The packets that found the queue full. -/
def refused (s : State) : List Packet := (s.pushed.filter fun push => !push.2).map Prod.fst

def frameCount (packets : List Packet) : ℕ := (packets.map fun p => p.frames.length).sum

/-- The packets drained, frame by frame, are what is written and what the chunk holds. -/
def Placed (s : State) : Prop :=
  ∃ drained, taken s = drained ++ s.queue ∧ List.Forall₂ Follows (stamps s) (drained.flatMap packetStamps)

structure Kept (config : Config) (events : List Event) (s : State) : Prop where
  sound : Sound config s
  room : s.chunk.frames.length < kChunkFrames
  active : s.active = true
  queued : s.queuedFrames = frameCount s.queue
  bounded : s.queuedFrames ≤ kQueueFrames
  placed : Placed s
  dropped : s.framesDropped + s.droppedFrames = frameCount (refused s)
  pushed : s.pushed.map Prod.fst = events.filterMap Event.packet

theorem kept_start (config : Config) : Kept config [] (start config) where
  sound := ⟨holds_nil List.length_replicate, holds_nil List.length_replicate, holds_nil List.length_replicate,
    rfl, rfl, nofun, Nat.zero_le _⟩
  room := room_of_empty rfl
  active := rfl
  queued := rfl
  bounded := Nat.zero_le _
  placed := ⟨[], rfl, .nil⟩
  dropped := rfl
  pushed := rfl

variable {events : List Event}

theorem filterMap_concat_none {event : Event} (none : event.packet = none) :
    (events ++ [event]).filterMap Event.packet = events.filterMap Event.packet := by
  rw [List.filterMap_append, List.filterMap_cons_none none]
  exact List.append_nil _

theorem Kept.push (kept : Kept config events s) (frames : List Frame) (captureUs : BitVec 64) :
    Kept config (events ++ [.push frames captureUs]) (s.push frames captureUs) := by
  obtain ⟨sound, room, active, queued, bounded, ⟨drained, split, follows⟩, dropped, pushed⟩ := kept
  unfold State.push
  by_cases none : frames = []
  · rw [if_pos (.inr none)]
    have nothing : (Event.push frames captureUs).packet = .none := if_pos none
    exact ⟨sound, room, active, queued, bounded, ⟨drained, split, follows⟩, dropped,
      pushed.trans (filterMap_concat_none nothing).symm⟩
  have some : (Event.push frames captureUs).packet = .some ⟨frames, captureUs⟩ := if_neg none
  have next : (events ++ [Event.push frames captureUs]).filterMap Event.packet =
      events.filterMap Event.packet ++ [⟨frames, captureUs⟩] := by
    rw [List.filterMap_append, List.filterMap_cons_some some]
    rfl
  rw [if_neg (by
    rw [active, not_or]
    exact ⟨nofun, none⟩)]
  dsimp only
  split_ifs with full
  · refine ⟨⟨sound.file, sound.index, sound.filled, sound.nextSeq, sound.chunksWritten, sound.sizes, sound.room⟩,
      room, active, queued, bounded, ⟨drained, ?_, follows⟩, ?_, ?_⟩
    · unfold taken
      rw [List.filter_append, List.map_append]
      exact (List.append_nil _).trans split
    · unfold refused frameCount at *
      rw [List.filter_append, List.map_append, List.map_append, List.sum_append, ← dropped]
      exact (Nat.add_assoc ..).symm
    · rw [List.map_append, pushed, next]
      rfl
  · refine ⟨⟨sound.file, sound.index, sound.filled, sound.nextSeq, sound.chunksWritten, sound.sizes, sound.room⟩,
      room, active, ?_, Nat.not_lt.mp full, ⟨drained, ?_, follows⟩, ?_, ?_⟩
    · unfold frameCount at *
      rw [List.map_append, List.sum_append, queued]
      rfl
    · unfold taken at *
      rw [List.filter_append, List.map_append, split, List.append_assoc]
      rfl
    · unfold refused at *
      rw [List.filter_append, List.map_append]
      exact dropped.trans (congrArg frameCount (List.append_nil _).symm)
    · rw [List.map_append, pushed, next]
      rfl

theorem le_frameCount {packets : List Packet} {p : Packet} (member : p ∈ packets) :
    p.frames.length ≤ frameCount packets :=
  List.single_le_sum (fun _ _ => Nat.zero_le _) _ (List.mem_map.mpr ⟨p, member, rfl⟩)

theorem Kept.drain (works : ∀ seq, disk seq = none) (kept : Kept config events s) (partly : Bool) :
    s.written <+: (s.drain config disk partly).written ∧
      ∀ event : Event, event.packet = none → Kept config (events ++ [event]) (s.drain config disk partly) := by
  obtain ⟨sound, room, active, queued, bounded, ⟨drained, split, follows⟩, dropped, pushed⟩ := kept
  unfold State.drain
  dsimp only
  have sound_ : Sound config { s with
      queue := [], queuedFrames := 0
      droppedFrames := 0, framesDropped := s.framesDropped + s.droppedFrames } :=
    ⟨sound.file, sound.index, sound.filled, sound.nextSeq, sound.chunksWritten, sound.sizes, sound.room⟩
  obtain ⟨t, ran, takes, room_⟩ := @drainPackets_spec config disk _ works s.queue sound_ room fun p member =>
    (le_frameCount member).trans (queued.symm.trans_le bounded)
  rw [ran]
  dsimp only
  obtain ⟨written, room__⟩ := writePartly_spec works takes.sound room_ partly
  obtain ⟨sound__, ⟨more, stamped, follows_⟩, grown, front_⟩ := takes.trans written
  rw [List.append_nil] at follows_
  simp only [front, Prod.mk.injEq] at front_
  obtain ⟨active_, queue, queuedFrames, droppedFrames, framesDropped, pushed_⟩ := front_
  refine ⟨grown, fun event none => ⟨sound__, room__, active_.trans active, ?_, ?_, ⟨drained ++ s.queue, ?_, ?_⟩, ?_, ?_⟩⟩
  · rw [queue, queuedFrames]
    rfl
  · rw [queuedFrames]
    exact Nat.zero_le _
  · unfold taken at *
    rw [pushed_, queue, List.append_nil, split]
  · rw [stamped, List.flatMap_append]
    exact List.rel_append follows follows_
  · unfold refused at *
    rw [framesDropped, droppedFrames, pushed_]
    exact dropped
  · rw [pushed_, filterMap_concat_none none]
    exact pushed

theorem Kept.step (works : ∀ seq, disk seq = none) (kept : Kept config events s) (event : Event) :
    s.written <+: (step config disk s event).written ∧ Kept config (events ++ [event]) (step config disk s event) := by
  cases event with
  | push frames captureUs =>
    refine ⟨?_, kept.push frames captureUs⟩
    unfold AudioRing.step State.push
    dsimp only
    split_ifs <;> exact List.prefix_refl _
  | drain | flush =>
    obtain ⟨grown, next⟩ := kept.drain works _
    exact ⟨grown, next _ rfl⟩

theorem Kept.run (works : ∀ seq, disk seq = none) (kept : Kept config events s) (more : List Event) :
    s.written <+: (run config disk s more).written ∧ Kept config (events ++ more) (run config disk s more) := by
  induction more using List.reverseRecOn with
  | nil => exact ⟨List.prefix_refl _, (List.append_nil events).symm ▸ kept⟩
  | append_singleton more event ih =>
    obtain ⟨grown, so⟩ := ih
    have ran : AudioRing.run config disk s (more ++ [event]) = AudioRing.step config disk (AudioRing.run config disk s more) event :=
      List.foldl_concat ..
    obtain ⟨grown_, next⟩ := so.step works event
    rw [ran, ← List.append_assoc]
    exact ⟨grown.trans grown_, next⟩

end Mello.Replay.AudioRingFrames
