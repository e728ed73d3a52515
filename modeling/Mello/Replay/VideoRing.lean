import Mello.Library.Extents
import Mello.Library.Runs

/-!
`ReplayVideoRing`: access units in a ring file of fixed slots, one GOP in each,
and windows that pin the slots they read. The encode thread pushes, the writer
drains, and any thread pins and releases; a run is any interleaving of what
their locks delimit, with the file write outside the index lock. What leaves
the model are the counters of `stats()`, the log and the wake-up of the writer.
-/

namespace Mello.Replay.VideoRing
open Mello.Library Extents

abbrev Byte := BitVec 8

def kQueueBytes : Nat := 2 * 1024 * 1024

/-- What `start` accepts, with a file that exists. A size in the index has 32
bits; the queue is 2 MiB in every caller, so each unit's size fits. -/
structure Config where
  segments : Nat
  segmentBytes : Nat
  queueBytes : Nat := kQueueBytes
  enough : 2 ≤ segments
  room : 0 < segmentBytes
  narrow : queueBytes < 2 ^ 32

/-- `number` is not in the source: it counts the units pushed before this one. -/
structure QueuedUnit where
  data : List Byte
  captureUs : Nat
  keyframe : Bool
  number : Nat
  deriving DecidableEq, Repr

structure AccessUnitRef where
  segmentSeq : Nat
  offset : Nat
  size : Nat
  captureUs : Nat
  keyframe : Bool
  /-- Not in the source: the unit's number. -/
  number : Nat
  deriving DecidableEq, Repr

structure Slot where
  pins : Nat := 0
  holdsSegment : Bool := false
  segmentSeq : Nat := 0
  deriving DecidableEq, Repr

structure Segment where
  seq : Nat
  slot : Nat
  used : Nat := 0
  units : List AccessUnitRef := []
  deriving DecidableEq, Repr

structure Window where
  slots : List Nat := []
  units : List AccessUnitRef := []
  deriving DecidableEq, Repr

/-- The locals of `write_unit` between its two critical sections. -/
structure Placed where
  unit : QueuedUnit
  offset : Nat
  segmentSeq : Nat
  written : Bool := false
  deriving DecidableEq, Repr

structure State where
  active : Bool := true
  queue : List QueuedUnit := []
  queuedBytes : Nat := 0
  pushDropping : Bool := false
  keyframeRequest : Bool := false
  writeSkipping : Bool := false
  file : List Byte
  slots : List Slot
  segments : List Segment := []
  writing : Bool := false
  nextSlot : Nat := 0
  nextSeq : Nat := 0
  /-- The units of a `drain` in progress that are not written yet. -/
  draining : List QueuedUnit := []
  placed : Option Placed := none
  /-- The live windows. -/
  windows : List Window := []
  /-- Not in the source: every unit pushed so far. -/
  pushed : List QueuedUnit := []
  deriving DecidableEq, Repr

def start (config : Config) : State where
  file := List.replicate (config.segments * config.segmentBytes) 0
  slots := List.replicate config.segments {}

namespace State

/-! ## The encode thread -/

/-- A push without bytes is no unit. -/
def push (config : Config) (s : State) (data : List Byte) (captureUs : Nat) (keyframe : Bool) : State :=
  if s.active = false ∨ data = [] then s
  else
    let unit : QueuedUnit := ⟨data, captureUs, keyframe, s.pushed.length⟩
    let s := { s with pushed := s.pushed ++ [unit] }
    let s := if s.pushDropping && keyframe then { s with pushDropping := false } else s
    let s := if s.pushDropping = false ∧ config.queueBytes < s.queuedBytes + data.length then
        { s with pushDropping := true, keyframeRequest := true }
      else s
    if s.pushDropping then s
    else { s with queuedBytes := s.queuedBytes + data.length, queue := s.queue ++ [unit] }

def takeKeyframeRequest (s : State) : State := { s with keyframeRequest := false }

/-! ## The writer -/

/-- The swap at the start of `drain`. -/
def drain (s : State) : State := { s with draining := s.queue, queue := [], queuedBytes := 0 }

/-- The next slot from `next_slot` on that no window pins. -/
def freeSlot (s : State) : Option Nat :=
  (List.range s.slots.length).findSome? fun i =>
    let slot := (s.nextSlot + i) % 2 ^ 32 % s.slots.length
    if (s.slots[slot]?.map Slot.pins) = some 0 then some slot else none

/-- The segment that a slot held leaves the index. -/
def dropHeld (s : State) (slot : Nat) : List Segment :=
  match s.slots[slot]? with
  | some held => if held.holdsSegment then s.segments.filter fun segment => segment.seq ≠ held.segmentSeq
    else s.segments
  | none => s.segments

def openSegment (s : State) (slot : Nat) : State :=
  { s with
    segments := s.dropHeld slot ++ [{ seq := s.nextSeq, slot }]
    slots := s.slots.modify slot fun held => { held with holdsSegment := true, segmentSeq := s.nextSeq }
    nextSlot := (slot + 1) % s.slots.length
    nextSeq := s.nextSeq + 1
    writing := true
    writeSkipping := false }

/-- Room at the end of the newest segment. An index without segments would be
undefined behaviour: no next state. -/
def place (config : Config) (s : State) (unit : QueuedUnit) : Option State :=
  match s.segments.getLast? with
  | none => none
  | some segment =>
    if config.segmentBytes < segment.used + unit.data.length then
      some { s with writing := false, writeSkipping := true, keyframeRequest := true }
    else
      some { s with
        placed := some ⟨unit, segment.slot * config.segmentBytes + segment.used, segment.seq, false⟩ }

/-- The first critical section of `write_unit`. -/
def reserve (config : Config) (s : State) (unit : QueuedUnit) : Option State :=
  if unit.keyframe then
    let s := { s with writing := false }
    match s.freeSlot with
    | none => some { s with writeSkipping := true, keyframeRequest := true }
    | some slot => place config (s.openSegment slot) unit
  else if s.writing = false ∨ s.writeSkipping = true then some s
  else place config s unit

/-- The loop of `drain` takes its next unit. -/
def writeNext (config : Config) (s : State) : Option State :=
  match s.placed, s.draining with
  | none, unit :: rest =>
    if s.active then reserve config { s with draining := rest } unit
    else some { s with draining := [] }
  | _, _ => none

/-- The file write, of which `count` bytes arrive. A short write turns the ring off. -/
def writeFile (s : State) (count : Nat) : Option State :=
  match s.placed with
  | some placed =>
    if placed.written then none
    else
      let s := { s with file := writeAt s.file placed.offset (placed.unit.data.take count) }
      if placed.unit.data.length ≤ count then some { s with placed := some { placed with written := true } }
      else some { s with active := false, placed := none, draining := [] }
  | none => none

def refOf (placed : Placed) : AccessUnitRef where
  segmentSeq := placed.segmentSeq
  offset := placed.offset
  size := placed.unit.data.length % 2 ^ 32
  captureUs := placed.unit.captureUs
  keyframe := placed.unit.keyframe
  number := placed.unit.number

/-- The second critical section of `write_unit`. -/
def listUnit (s : State) : Option State :=
  match s.placed with
  | some placed =>
    if placed.written then
      let s := { s with placed := none }
      match s.segments.getLast? with
      | none => some s
      | some segment =>
        if segment.seq ≠ placed.segmentSeq then some s
        else some { s with
          segments := s.segments.dropLast ++ [{ segment with
            units := segment.units ++ [refOf placed]
            used := segment.used + placed.unit.data.length }] }
    else none
  | none => none

/-! ## Windows -/

/-- The loop for T0: the newest segment that starts at or before `startUs`. -/
def firstSegment (startUs : Nat) : List Segment → Nat → Nat → Nat
  | [], _, first => first
  | segment :: rest, i, first =>
    firstSegment startUs rest (i + 1)
      (if segment.units.head?.any fun unit => unit.captureUs ≤ startUs then i else first)

def unitsUpTo (endUs : Nat) (segment : Segment) : List AccessUnitRef :=
  segment.units.takeWhile fun unit => unit.captureUs ≤ endUs

/-- A segment with a unit in the range is pinned once. -/
def pinSegment (endUs : Nat) (pinned : List Slot × Window) (segment : Segment) : List Slot × Window :=
  let (slots, window) := pinned
  let units := unitsUpTo endUs segment
  if units = [] then (slots, window)
  else
    (slots.modify segment.slot fun slot => { slot with pins := slot.pins + 1 },
      { slots := window.slots ++ [segment.slot], units := window.units ++ units })

def pinWindow (s : State) (startUs endUs : Nat) : State × Window :=
  let first := firstSegment startUs s.segments 0 0
  let (slots, window) := (s.segments.drop first).foldl (pinSegment endUs) (s.slots, {})
  ({ s with slots, windows := s.windows ++ [window] }, window)

/-- `pins - 1` is 0 on an unpinned slot, as the source's guard has it. -/
def unpin (slots : List Slot) (slot : Nat) : List Slot :=
  slots.modify slot fun slot => { slot with pins := slot.pins - 1 }

def release (s : State) (index : Nat) : Option State :=
  match s.windows[index]? with
  | some window => some { s with
      slots := window.slots.foldl unpin s.slots
      windows := s.windows.eraseIdx index }
  | none => none

/-- `Window::read`, with the file of the ring. -/
def read (s : State) (unit : AccessUnitRef) : Option (List Byte) := readAt s.file unit.offset unit.size

end State

/-! ## Runs -/

inductive Step where
  | push (data : List Byte) (captureUs : Nat) (keyframe : Bool)
  | takeKeyframeRequest
  | drain
  | writeNext
  | writeFile (count : Nat)
  | listUnit
  | pinWindow (startUs endUs : Nat)
  | release (index : Nat)
  deriving DecidableEq, Repr

/-- One thread drains at a time. -/
def step (config : Config) (s : State) : Step → Option State
  | .push data captureUs keyframe => some (s.push config data captureUs keyframe)
  | .takeKeyframeRequest => some s.takeKeyframeRequest
  | .drain => if s.draining = [] ∧ s.placed = none then some s.drain else none
  | .writeNext => s.writeNext config
  | .writeFile count => s.writeFile count
  | .listUnit => s.listUnit
  | .pinWindow startUs endUs => some (s.pinWindow startUs endUs).1
  | .release index => s.release index

end Mello.Replay.VideoRing
