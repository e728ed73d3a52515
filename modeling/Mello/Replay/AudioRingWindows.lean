import Mello.Replay.AudioRingFrames

/-!
Windows of the audio ring. The slots hold the last chunks written, a window lists those
of them that its range meets, and a read of a chunk gives its frames until its slot
is taken again.
-/

namespace Mello.Replay.AudioRingWindows
open Mello.Library Wheel AudioRing State AudioRingFrames

variable {config : Config} {disk : ℕ → Option Slot} {s t : State} {events : List Event}

/-- The chunks written, as the index has them. -/
def refs (s : State) : List AudioChunkRef := s.written.mapIdx refOf

/-- Those of the last `slotCount` chunks. -/
def recent (config : Config) (s : State) : List AudioChunkRef := (refs s).drop (s.written.length - config.slotCount)

def durationUs (frames : ℕ) : ℕ := frames * 1000000 / kRate

/-- A time in the range and in the chunk. -/
def Overlaps (startUs endUs : BitVec 64) (c : AudioChunkRef) : Prop :=
  ∃ time : ℕ, (c.captureUs.toNat ≤ time ∧ time < c.captureUs.toNat + durationUs c.frames) ∧
    startUs.toNat ≤ time ∧ time < endUs.toNat

/-- What `window` checks, in 64 bits. -/
def Listed (startUs endUs : BitVec 64) (c : AudioChunkRef) : Prop :=
  startUs < c.captureUs + framesToUs c.frames ∧ c.captureUs < endUs

instance (startUs endUs : BitVec 64) : DecidablePred (Listed startUs endUs) :=
  fun _ => inferInstanceAs (Decidable (_ ∧ _))

theorem overlaps_iff {startUs endUs : BitVec 64} {c : AudioChunkRef} :
    Overlaps startUs endUs c ↔
      max c.captureUs.toNat startUs.toNat < min (c.captureUs.toNat + durationUs c.frames) endUs.toNat := by
  constructor
  · rintro ⟨time, ⟨begun, running⟩, from_, until_⟩
    exact (max_le begun from_).trans_lt (lt_min running until_)
  · intro meet
    obtain ⟨running, until_⟩ := lt_min_iff.mp meet
    exact ⟨_, ⟨le_max_left _ _, running⟩, le_max_right _ _, until_⟩

instance (startUs endUs : BitVec 64) : DecidablePred (Overlaps startUs endUs) :=
  fun _ => decidable_of_iff _ overlaps_iff.symm

/-- Below the end of the clock, a chunk is listed for a range that it overlaps. -/
theorem listed_iff_overlaps {startUs endUs : BitVec 64} {c : AudioChunkRef} (some : startUs < endUs)
    (sized : 0 < c.frames ∧ c.frames ≤ kChunkFrames) (before : c.captureUs.toNat + durationUs c.frames < 2 ^ 64) :
    Listed startUs endUs c ↔ Overlaps startUs endUs c := by
  obtain ⟨pos, small⟩ := sized
  have ended : (c.captureUs + framesToUs c.frames).toNat = c.captureUs.toNat + durationUs c.frames := by
    unfold framesToUs durationUs at *
    unfold kChunkFrames kRate at *
    rw [BitVec.toNat_add, BitVec.toNat_ofNat, Nat.mod_eq_of_lt (show c.frames * 1000000 < 2 ^ 64 by omega)]
    omega
  have long : 0 < durationUs c.frames := by
    unfold durationUs kRate
    omega
  rw [overlaps_iff, Listed, BitVec.lt_def, BitVec.lt_def, ended]
  rw [BitVec.lt_def] at some
  omega

/-! ## Windows -/

theorem refs_seq {k : ℕ} {c : AudioChunkRef} (found : (refs s)[k]? = some c) : c.seq = k := by
  unfold refs at found
  rw [List.getElem?_mapIdx] at found
  obtain ⟨chunk, -, rfl⟩ := Option.map_eq_some_iff.mp found
  rfl

theorem length_refs (s : State) : (refs s).length = s.written.length := List.length_mapIdx

theorem window_eq (sound : Sound config s) (startUs endUs : BitVec 64) :
    s.window config startUs endUs = (recent config s).filter (Listed startUs endUs) := by
  have first : (if config.slotCount < s.nextSeq then s.nextSeq - config.slotCount else 0) =
      s.written.length - config.slotCount := by
    rw [sound.nextSeq]
    split_ifs <;> omega
  unfold window recent
  dsimp only
  rw [first, sound.nextSeq]
  have all : s.written.length - config.slotCount + (s.written.length - (s.written.length - config.slotCount)) =
      (refs s).length := by
    rw [length_refs]
    omega
  rw [← filterMap_range' (refs s) _ _ all, List.filter_filterMap]
  refine List.filterMap_congr fun k member => ?_
  rw [List.mem_range'_1] at member
  have inside : k < (refs s).length := by omega
  obtain ⟨c, found⟩ : ∃ c, (refs s)[k]? = some c := ⟨_, List.getElem?_eq_getElem inside⟩
  rw [length_refs] at inside
  have filled := sound.filled.held k true (by
    rw [List.getElem?_replicate, if_pos inside]) (by
    rw [List.length_replicate]
    omega)
  have indexed := sound.index.held k c found (by
    rw [List.length_mapIdx]
    omega)
  rw [List.getD_eq_getElem?_getD, filled, List.getD_eq_getElem?_getD, indexed, found, Option.getD_some,
    Option.getD_some, if_neg nofun, if_neg (not_not.mpr (refs_seq found)), Option.filter_some]
  by_cases listed : Listed startUs endUs c
  · exact (if_pos listed).trans (if_pos (decide_eq_true listed)).symm
  · exact (if_neg listed).trans (if_neg fun same => listed (of_decide_eq_true same)).symm

theorem sized_of_mem (sound : Sound config s) {c : AudioChunkRef} (member : c ∈ recent config s) :
    ∃ chunk, s.written[c.seq]? = some chunk ∧ c = refOf c.seq chunk ∧ 0 < c.frames ∧ c.frames ≤ kChunkFrames := by
  obtain ⟨k, inside, rfl⟩ := List.mem_mapIdx.mp (List.mem_of_mem_drop member)
  obtain ⟨some, small⟩ := sound.sizes s.written[k] (List.getElem_mem inside)
  exact ⟨s.written[k], List.getElem?_eq_getElem inside, rfl, List.length_pos_of_ne_nil some, small⟩

/-- A read gives the frames of the chunk until its slot is taken again. -/
theorem read_eq (sound : Sound config t) {k : ℕ} {chunk : Chunk} (found : t.written[k]? = some chunk)
    (small : chunk.frames.length ≤ kChunkFrames) :
    t.read config (refOf k chunk) = if t.written.length ≤ k + config.slotCount then some chunk.frames else none := by
  have logged : (t.written.mapIdx slotOf)[k]? = some (slotOf k chunk) := by
    rw [List.getElem?_mapIdx, found]
    rfl
  have fits : ¬kChunkFrames < (refOf k chunk).frames := Nat.not_lt.mpr small
  unfold State.read
  rw [if_neg fits]
  split_ifs with held
  · have slot : t.file[(refOf k chunk).seq % config.slotCount]? = some (slotOf k chunk) :=
      sound.file.held k _ logged (List.length_mapIdx.trans_le held)
    rw [slot]
    dsimp only
    rw [if_neg (by
      rintro (other | other)
      · exact other rfl
      · exact other rfl)]
    exact congrArg some List.take_left
  · obtain ⟨later, entry, after, this, slot⟩ := sound.file.replaced config.some (by
      rw [List.length_mapIdx]
      exact Nat.not_le.mp held)
    rw [List.getElem?_mapIdx] at this
    obtain ⟨other, -, rfl⟩ := Option.map_eq_some_iff.mp this
    have taken_ : t.file[(refOf k chunk).seq % config.slotCount]? = some (slotOf later other) := slot
    rw [taken_]
    dsimp only
    exact if_pos (.inl after.ne')

/-! ## Every run -/

/-- Every frame is kept, in order and at its time, until its slot is taken again. -/
theorem audio_ring_keeps (config : Config) (disk : ℕ → Option Slot) (works : ∀ seq, disk seq = none)
    (events : List Event) :
    let s := run config disk (start config) events
    (s.pushed.map Prod.fst = events.filterMap Event.packet ∧
        s.framesDropped + s.droppedFrames = frameCount (refused s) ∧
        ∃ drained, taken s = drained ++ s.queue ∧
          List.Forall₂ Follows (s.written.flatMap chunkStamps ++ chunkStamps s.chunk) (drained.flatMap packetStamps)) ∧
      (∀ startUs endUs, s.window config startUs endUs = (recent config s).filter (Listed startUs endUs) ∧
        (startUs < endUs → (∀ c ∈ recent config s, c.captureUs.toNat + durationUs c.frames < 2 ^ 64) →
          s.window config startUs endUs = (recent config s).filter (Overlaps startUs endUs))) ∧
      ∀ startUs endUs, ∀ c ∈ s.window config startUs endUs, ∃ chunk, s.written[c.seq]? = some chunk ∧
        c = refOf c.seq chunk ∧ ∀ later : List Event,
          let t := run config disk s later
          t.read config c = if t.written.length ≤ c.seq + config.slotCount then some chunk.frames else none := by
  intro s
  have kept : Kept config events s := ((kept_start config).run works events).2
  refine ⟨⟨kept.pushed, kept.dropped, kept.placed⟩, ?_, ?_⟩
  · intro startUs endUs
    have listed := window_eq kept.sound startUs endUs
    refine ⟨listed, fun some before => listed.trans ?_⟩
    apply List.filter_congr
    intro c member
    obtain ⟨chunk, -, -, sized⟩ := sized_of_mem kept.sound member
    exact decide_eq_decide.mpr (listed_iff_overlaps some sized (before c member))
  · intro startUs endUs c member
    rw [window_eq kept.sound] at member
    obtain ⟨chunk, found, same, -, small⟩ := sized_of_mem kept.sound (List.mem_filter.mp member).1
    refine ⟨chunk, found, same, fun later => ?_⟩
    obtain ⟨⟨more, grown⟩, kept_⟩ := kept.run works later
    have found_ : (run config disk s later).written[c.seq]? = some chunk := by
      rw [← grown]
      exact (List.getElem?_append_left (List.getElem?_eq_some_iff.mp found).1).trans found
    have few : chunk.frames.length ≤ kChunkFrames := by
      rw [same] at small
      exact small
    have reads := read_eq kept_.sound found_ few
    rw [← same] at reads
    exact reads

/-- A packet of half a chunk, one that goes on 10 ms late, and one after a gap. -/
def packets : List Event :=
  [.push (List.replicate 240 (1, 1)) 1000000, .push (List.replicate 480 (2, 2)) 1015000, .drain,
    .push (List.replicate 48 (3, 3)) 2000000, .flush]

theorem audio_ring_keeps_packets :
    let config : Config := ⟨2, by decide⟩
    let s := run config (fun _ => none) (start config) packets
    (s.pushed.map Prod.fst = packets.filterMap Event.packet ∧
        s.framesDropped + s.droppedFrames = frameCount (refused s) ∧
        ∃ drained, taken s = drained ++ s.queue ∧
          List.Forall₂ Follows (s.written.flatMap chunkStamps ++ chunkStamps s.chunk) (drained.flatMap packetStamps)) ∧
      (∀ startUs endUs, s.window config startUs endUs = (recent config s).filter (Listed startUs endUs) ∧
        (startUs < endUs → (∀ c ∈ recent config s, c.captureUs.toNat + durationUs c.frames < 2 ^ 64) →
          s.window config startUs endUs = (recent config s).filter (Overlaps startUs endUs))) ∧
      ∀ startUs endUs, ∀ c ∈ s.window config startUs endUs, ∃ chunk, s.written[c.seq]? = some chunk ∧
        c = refOf c.seq chunk ∧ ∀ later : List Event,
          let t := run config (fun _ => none) s later
          t.read config c = if t.written.length ≤ c.seq + config.slotCount then some chunk.frames else none :=
  audio_ring_keeps ⟨2, by decide⟩ (fun _ => none) (fun _ => rfl) packets

/-- An empty range within a chunk lists the chunk, and a chunk whose end is past the 64
bits is not listed for a range that it overlaps. -/
theorem window_not_overlap :
    (let config : Config := ⟨100, by decide⟩
      let s := run config (fun _ => none) (start config) [.push (List.replicate 48 (1, 1)) 1000000, .flush]
      s.window config 1000500 1000500 ≠ (recent config s).filter (Overlaps 1000500 1000500)) ∧
    (let config : Config := ⟨100, by decide⟩
      let s := run config (fun _ => none) (start config)
        [.push (List.replicate 48 (1, 1)) 18446744073709551000, .flush]
      s.window config 18446744073709551200 18446744073709551400 ≠
        (recent config s).filter (Overlaps 18446744073709551200 18446744073709551400)) := by
  decide +kernel

end Mello.Replay.AudioRingWindows
