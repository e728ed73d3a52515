import Mello.Library.Wheel

/-!
`ReplayAudioRing`: packets of any size in a queue, cut into chunks of 10 ms, each in a
slot of a ring file with the time of its first frame. A run is a sequence of `push`,
`drain` and `flush` calls. A slot is written and read whole. What leaves the model are
the log, the lock order and the threads that call.
-/

namespace Mello.Replay.AudioRing
open Mello.Library

def kRate : ℕ := 48000

/-- 10 ms. -/
def kChunkFrames : ℕ := kRate / 100

/-- A packet this much off the end of the chunk before it starts a new chunk. -/
def kGapUs : BitVec 64 := 20000

/-- The queue between the audio thread and the writer. -/
def kQueueFrames : ℕ := 2 * kRate

/-- A stereo frame. -/
abbrev Frame := BitVec 16 × BitVec 16

/-- What the ring has after `start`: `seconds * 100` slots. -/
structure Config where
  slotCount : ℕ
  some : 0 < slotCount

structure Packet where
  frames : List Frame
  captureUs : BitVec 64
  deriving DecidableEq, Repr

/-- The chunk being filled. -/
structure Chunk where
  captureUs : BitVec 64 := 0
  frames : List Frame := []
  deriving DecidableEq, Repr

structure AudioChunkRef where
  seq : ℕ := 0
  /-- The capture time of the first frame. -/
  captureUs : BitVec 64 := 0
  /-- Valid frames, at most `kChunkFrames`. -/
  frames : ℕ := 0
  deriving DecidableEq, Repr

structure SlotHeader where
  seq : ℕ := 0
  captureUs : BitVec 64 := 0
  frames : ℕ := 0
  deriving DecidableEq, Repr

/-- One slot on disk: the header, then `kChunkFrames` frames. -/
structure Slot where
  header : SlotHeader := {}
  payload : List Frame := List.replicate kChunkFrames (0, 0)
  deriving DecidableEq, Repr

structure State where
  active : Bool := true
  queue : List Packet := []
  queuedFrames : ℕ := 0
  /-- Since the last drain. -/
  droppedFrames : ℕ := 0
  chunk : Chunk := {}
  file : List Slot
  /-- Per slot: the chunk it holds. -/
  index : List AudioChunkRef
  filled : List Bool
  nextSeq : ℕ := 0
  chunksWritten : ℕ := 0
  framesDropped : ℕ := 0
  /-- Not in the source: each packet pushed, and whether the queue took it. -/
  pushed : List (Packet × Bool) := []
  /-- Not in the source: each chunk written. -/
  written : List Chunk := []
  deriving DecidableEq, Repr

def start (config : Config) : State where
  file := List.replicate config.slotCount {}
  index := List.replicate config.slotCount {}
  filled := List.replicate config.slotCount false

/-- In 64 bits. -/
def framesToUs (frames : ℕ) : BitVec 64 := BitVec.ofNat 64 (frames * 1000000 % 2 ^ 64 / kRate)

def refOf (seq : ℕ) (chunk : Chunk) : AudioChunkRef := ⟨seq, chunk.captureUs, chunk.frames.length⟩

/-- What is written of a chunk: silence after its frames. -/
def slotOf (seq : ℕ) (chunk : Chunk) : Slot where
  header := ⟨seq, chunk.captureUs, chunk.frames.length⟩
  payload := chunk.frames ++ List.replicate (kChunkFrames - chunk.frames.length) (0, 0)

namespace State

/-! ## The audio thread -/

def push (s : State) (frames : List Frame) (captureUs : BitVec 64) : State :=
  if s.active = false ∨ frames = [] then s
  else
    let packet : Packet := ⟨frames, captureUs⟩
    if kQueueFrames < s.queuedFrames + frames.length then
      { s with droppedFrames := s.droppedFrames + frames.length, pushed := s.pushed ++ [(packet, false)] }
    else
      { s with
        queue := s.queue ++ [packet]
        queuedFrames := s.queuedFrames + frames.length
        pushed := s.pushed ++ [(packet, true)] }

/-! ## The writer -/

section
variable (config : Config) (disk : ℕ → Option Slot)

/-- `disk seq` is what a failed write leaves in the slot, `none` for a write that
succeeds. The first failure turns the ring off and ends the drain. -/
def writeChunk (s : State) : Except State State :=
  let seq := s.nextSeq
  let slot := seq % config.slotCount
  let s := { s with filled := s.filled.set slot false }
  match disk seq with
  | some left =>
    .error { s with active := false, file := s.file.set slot left, chunk := { s.chunk with frames := [] } }
  | none =>
    .ok { s with
      file := s.file.set slot (slotOf seq s.chunk)
      index := s.index.set slot (refOf seq s.chunk)
      filled := s.filled.set slot true
      nextSeq := seq + 1
      chunksWritten := s.chunksWritten + 1
      chunk := { s.chunk with frames := [] }
      written := s.written ++ [s.chunk] }

/-- Copies frames of a packet, from its frame `off` on, behind those of the chunk. -/
def copy (captureUs : BitVec 64) (off : ℕ) (frames : List Frame) (s : State) : State :=
  let time := if s.chunk.frames = [] then captureUs + framesToUs off else s.chunk.captureUs
  { s with chunk := ⟨time, s.chunk.frames ++ frames⟩ }

/-- The loop over the frames of a packet. Each turn copies one at least, so the length
of the packet is fuel enough. -/
def fill (captureUs : BitVec 64) : ℕ → ℕ → List Frame → State → Except State State
  | 0, _, _, s => .ok s
  | fuel + 1, off, rest, s =>
    if rest = [] then .ok s
    else
      let n := min (kChunkFrames - s.chunk.frames.length) rest.length
      let s := s.copy captureUs off (rest.take n)
      if s.chunk.frames.length = kChunkFrames then do
        let s ← s.writeChunk config disk
        fill captureUs fuel (off + n) (rest.drop n) s
      else fill captureUs fuel (off + n) (rest.drop n) s

/-- A packet more than `kGapUs` off the end of the chunk, in either direction. -/
def gapBefore (s : State) (p : Packet) : Prop :=
  let chunkEnd := s.chunk.captureUs + framesToUs s.chunk.frames.length
  chunkEnd + kGapUs < p.captureUs ∨ p.captureUs + kGapUs < chunkEnd

instance (s : State) (p : Packet) : Decidable (s.gapBefore p) := inferInstanceAs (Decidable (_ ∨ _))

/-- A packet after a gap starts a new chunk at its own time. -/
def drainPacket (s : State) (p : Packet) : Except State State := do
  let s ← if s.chunk.frames ≠ [] ∧ s.gapBefore p then s.writeChunk config disk else .ok s
  s.fill config disk p.captureUs p.frames.length 0 p.frames

/-- The end of a drain: a flush writes a partly filled chunk too. -/
def writePartly (partly : Bool) (s : State) : State :=
  if partly = true ∧ s.chunk.frames ≠ [] then
    match s.writeChunk config disk with
    | .error s | .ok s => s
  else s

def drain (partly : Bool) (s : State) : State :=
  let packets := s.queue
  let s := { s with
    queue := [], queuedFrames := 0
    droppedFrames := 0, framesDropped := s.framesDropped + s.droppedFrames }
  match packets.foldlM (drainPacket config disk) s with
  | .error s => s
  | .ok s => s.writePartly config disk partly

end

/-! ## Windows -/

/-- The chunks that end after `startUs` and start before `endUs`, oldest first. -/
def window (config : Config) (s : State) (startUs endUs : BitVec 64) : List AudioChunkRef :=
  let first := if config.slotCount < s.nextSeq then s.nextSeq - config.slotCount else 0
  (List.range' first (s.nextSeq - first)).filterMap fun seq =>
    let slot := seq % config.slotCount
    if s.filled.getD slot false = false then none
    else
      let c := s.index.getD slot {}
      if c.seq ≠ seq then none
      else if startUs < c.captureUs + framesToUs c.frames ∧ c.captureUs < endUs then some c
      else none

/-- `Window::read`. A chunk whose slot the writer took again is gone. -/
def read (config : Config) (s : State) (chunk : AudioChunkRef) : Option (List Frame) :=
  if kChunkFrames < chunk.frames then none
  else
    match s.file[chunk.seq % config.slotCount]? with
    | none => none
    | some slot =>
      if slot.header.seq ≠ chunk.seq ∨ slot.header.frames ≠ chunk.frames then none
      else some (slot.payload.take chunk.frames)

end State

/-! ## Runs -/

inductive Event where
  | push (frames : List Frame) (captureUs : BitVec 64)
  | drain
  | flush
  deriving DecidableEq, Repr

/-- The packet of a push that has frames. -/
def Event.packet : Event → Option Packet
  | .push frames captureUs => if frames = [] then none else some ⟨frames, captureUs⟩
  | .drain | .flush => none

def step (config : Config) (disk : ℕ → Option Slot) (s : State) : Event → State
  | .push frames captureUs => s.push frames captureUs
  | .drain => s.drain config disk false
  | .flush => s.drain config disk true

def run (config : Config) (disk : ℕ → Option Slot) (s : State) (events : List Event) : State :=
  events.foldl (step config disk) s

end Mello.Replay.AudioRing
