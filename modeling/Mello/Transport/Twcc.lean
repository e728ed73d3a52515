import Mello.Library.BitFields
import Mello.Library.Serial

/-!
Transport-wide congestion control feedback: the receiver's report builder
(`TwccFeedbackGenerator`) and the sender's parser (`parse_twcc_feedback`).
Times are microseconds of a monotonic clock, far from the 64-bit range, so they
are unbounded integers here; every wire field keeps its width.
-/

namespace Mello.Transport.Twcc
open Mello.Library

abbrev Byte := BitVec 8

def kTwccFeedbackFmt : Byte := 15
def kRtcpRtpfb : Byte := 205
def kReferenceTimeUnitUs : Int := 64000
def kDeltaUnitUs : Int := 250
/-- One report stays under the path MTU with the SRTCP and DTLS overhead. -/
def kMaxReportBytes : Nat := 1100

structure TwccPacketResult where
  sequence : BitVec 16
  received : Bool := false
  /-- Valid only when received: the reference time plus the deltas. -/
  arrivalTimeUs : Int := 0
  deriving DecidableEq, Repr

structure TwccFeedback where
  senderSsrc : BitVec 32
  mediaSsrc : BitVec 32
  /-- 24 bits in 64 ms units, as on the wire. -/
  referenceTime64ms : BitVec 32
  feedbackPacketCount : Byte
  packets : List TwccPacketResult
  deriving DecidableEq, Repr

/-- Why a parse gives no feedback: the parser returned false, or it read at or
past the end of the buffer, or its chunk loop ran out of fuel. The last two
never happen on a buffer as long as its size. -/
inductive ParseFault where
  | rejected
  | outOfBounds
  | outOfFuel
  deriving DecidableEq, Repr

def byteAt (data : List Byte) (i : Nat) : Except ParseFault Byte :=
  match data[i]? with
  | some byte => .ok byte
  | none => .error .outOfBounds

def readU16 (data : List Byte) (i : Nat) : Except ParseFault (BitVec 16) := do
  let b0 ← byteAt data i
  let b1 ← byteAt data (i + 1)
  return b0 ++ b1

def readU24 (data : List Byte) (i : Nat) : Except ParseFault (BitVec 24) := do
  let b0 ← byteAt data i
  let b1 ← byteAt data (i + 1)
  let b2 ← byteAt data (i + 2)
  return b0 ++ b1 ++ b2

def readU32 (data : List Byte) (i : Nat) : Except ParseFault (BitVec 32) := do
  let b0 ← byteAt data i
  let b1 ← byteAt data (i + 1)
  let b2 ← byteAt data (i + 2)
  let b3 ← byteAt data (i + 3)
  return b0 ++ b1 ++ b2 ++ b3

def u16Bytes (v : BitVec 16) : List Byte := [v.extractLsb' 8 8, v.extractLsb' 0 8]

def u24Bytes (v : BitVec 24) : List Byte :=
  [v.extractLsb' 16 8, v.extractLsb' 8 8, v.extractLsb' 0 8]

def u32Bytes (v : BitVec 32) : List Byte :=
  [v.extractLsb' 24 8, v.extractLsb' 16 8, v.extractLsb' 8 8, v.extractLsb' 0 8]

/-! ## The parser -/

/-- The symbols of one packet status chunk, at most `remaining` of them. -/
def expandChunk (chunk : BitVec 16) (remaining : Nat) : Except ParseFault (List Byte) :=
  if chunk &&& 0x8000#16 = 0 then
    let symbol : Byte := ((chunk >>> 13) &&& 3#16).setWidth 8
    let run := (chunk &&& 0x1fff#16).toNat
    if symbol = 3 ∨ run = 0 then .error .rejected
    else .ok (List.replicate (min run remaining) symbol)
  else if chunk &&& 0x4000#16 = 0 then
    .ok ((List.range (min 14 remaining)).map fun i =>
      ((chunk >>> (13 - i)) &&& 1#16).setWidth 8)
  else
    (List.range (min 7 remaining)).mapM fun i =>
      let symbol : Byte := ((chunk >>> (12 - i * 2)) &&& 3#16).setWidth 8
      if symbol = 3 then .error .rejected else .ok symbol

/-- First pass: the packet status chunks. Each chunk gives at least one symbol,
so a fuel of `statusCount` is enough. -/
def readStatusChunks (data : List Byte) (packetSize statusCount : Nat) :
    Nat → List Byte → Nat → Except ParseFault (List Byte × Nat)
  | fuel, symbols, offset =>
    if symbols.length < statusCount then
      match fuel with
      | 0 => .error .outOfFuel
      | fuel + 1 => do
        if offset + 2 > packetSize then throw .rejected
        let chunk ← readU16 data offset
        let expanded ← expandChunk chunk (statusCount - symbols.length)
        readStatusChunks data packetSize statusCount fuel (symbols ++ expanded) (offset + 2)
    else .ok (symbols, offset)

/-- Second pass: one delta per received packet, in sequence order. -/
def readDeltas (data : List Byte) (packetSize : Nat) :
    List Byte → BitVec 16 → Nat → Int → Except ParseFault (List TwccPacketResult)
  | [], _, _, _ => .ok []
  | symbol :: rest, sequence, offset, arrivalUs =>
    if symbol = 1 then do
      if offset + 1 > packetSize then throw .rejected
      let delta ← byteAt data offset
      let arrivalUs := arrivalUs + delta.toNat * kDeltaUnitUs
      let results ← readDeltas data packetSize rest (sequence + 1) (offset + 1) arrivalUs
      return { sequence, received := true, arrivalTimeUs := arrivalUs } :: results
    else if symbol = 2 then do
      if offset + 2 > packetSize then throw .rejected
      let delta ← readU16 data offset
      let arrivalUs := arrivalUs + delta.toInt * kDeltaUnitUs
      let results ← readDeltas data packetSize rest (sequence + 1) (offset + 2) arrivalUs
      return { sequence, received := true, arrivalTimeUs := arrivalUs } :: results
    else do
      let results ← readDeltas data packetSize rest (sequence + 1) offset arrivalUs
      return { sequence } :: results

def parseTwccFeedback (data : List Byte) (size : Nat) : Except ParseFault TwccFeedback := do
  if size < 20 then throw .rejected
  let b0 ← byteAt data 0
  let b1 ← byteAt data 1
  if b0 >>> 6 ≠ 2 ∨ b0 &&& 0x1f ≠ kTwccFeedbackFmt ∨ b1 ≠ kRtcpRtpfb then throw .rejected
  let words ← readU16 data 2
  let packetSize := (words.toNat + 1) * 4
  if packetSize > size ∨ packetSize < 20 then throw .rejected
  let senderSsrc ← readU32 data 4
  let mediaSsrc ← readU32 data 8
  let baseSequence ← readU16 data 12
  let statusCount ← readU16 data 14
  let reference ← readU24 data 16
  let feedbackPacketCount ← byteAt data 19
  let (symbols, offset) ←
    readStatusChunks data packetSize statusCount.toNat statusCount.toNat [] 20
  let packets ← readDeltas data packetSize symbols baseSequence offset
    (reference.toNat * kReferenceTimeUnitUs)
  return {
    senderSsrc, mediaSsrc, referenceTime64ms := reference.setWidth 32,
    feedbackPacketCount, packets }

/-! ## The generator -/

/-- Rounds toward minus infinity, so a negative time keeps a positive delta. -/
def floorDiv (value divisor : Int) : Int :=
  let quotient := value.tdiv divisor
  if value.tmod divisor ≠ 0 ∧ decide (value < 0) ≠ decide (divisor < 0) then quotient - 1
  else quotient

def kNotReceived : Byte := 0
def kSmallDelta : Byte := 1
def kLargeDelta : Byte := 2

/-- The run of equal symbols that opens a non-empty list, capped at 13 bits. -/
def runLength (symbol : Byte) (rest : List Byte) : Nat :=
  min (1 + (rest.takeWhile (· == symbol)).length) 0x1fff

def runLengthChunk (symbol : Byte) (run : Nat) : BitVec 16 :=
  (symbol.setWidth 16 <<< 13) ||| BitVec.ofNat 16 run

def oneBitChunk (symbols : List Byte) : BitVec 16 :=
  BitFields.orFields 1 13 0 0x8000#16 (symbols.map fun symbol => if symbol = kSmallDelta then 1 else 0)

def twoBitChunk (symbols : List Byte) : BitVec 16 :=
  BitFields.orFields 2 12 0 0xc000#16 (symbols.map (BitVec.setWidth 16))

/-- Encodes the symbols into packet status chunks. A run of at least 14 equal
symbols, or a run of at least 7 that ends the list, is a run length chunk. Else
a one-bit vector of 14 when the next 14 symbols have no large delta; else a
two-bit vector of 7. Each chunk takes a symbol, so the length is enough fuel. -/
def encodeStatusChunksFrom : Nat → List Byte → List Byte
  | 0, _ => []
  | _, [] => []
  | fuel + 1, symbol :: rest =>
    let symbols := symbol :: rest
    let run := runLength symbol rest
    if 14 ≤ run ∨ (run = symbols.length ∧ 7 ≤ run) then
      u16Bytes (runLengthChunk symbol run) ++ encodeStatusChunksFrom fuel (symbols.drop run)
    else if kLargeDelta ∉ symbols.take 14 then
      u16Bytes (oneBitChunk (symbols.take 14)) ++ encodeStatusChunksFrom fuel (symbols.drop 14)
    else
      u16Bytes (twoBitChunk (symbols.take 7)) ++ encodeStatusChunksFrom fuel (symbols.drop 7)

def encodeStatusChunks (symbols : List Byte) : List Byte :=
  encodeStatusChunksFrom symbols.length symbols

structure Arrival where
  atUs : Int
  deriving DecidableEq, Repr

/-- The pending arrivals by sequence. The list order of the entries is the
iteration order of the unordered map. -/
abbrev Pending := AList (fun _ : BitVec 16 => Arrival)

structure TwccFeedbackGenerator where
  lastEmittedSequence : BitVec 16 := 0
  hasEmitted : Bool := false
  feedbackPacketCount : Byte := 0
  pending : Pending := ∅

namespace TwccFeedbackGenerator

def onPacket (g : TwccFeedbackGenerator) (twccSequence : BitVec 16) (arrivalTimeUs : Int) :
    TwccFeedbackGenerator :=
  if g.hasEmitted = true ∧ Serial.ahead twccSequence g.lastEmittedSequence ≤ 0 then g
  else { g with pending := g.pending.insert twccSequence ⟨arrivalTimeUs⟩ }

/-- The scan for the oldest sequence, from the first entry on. -/
def oldestOf (first : BitVec 16) (sequences : List (BitVec 16)) : BitVec 16 :=
  sequences.foldl (fun base sequence =>
    if Serial.ahead sequence base < 0 then sequence else base) first

def newestOf (base : BitVec 16) (sequences : List (BitVec 16)) : BitVec 16 :=
  sequences.foldl (fun newest sequence =>
    if 0 < Serial.ahead sequence newest then sequence else newest) base

def reportBase (g : TwccFeedbackGenerator) : BitVec 16 :=
  if g.hasEmitted then g.lastEmittedSequence + 1
  else oldestOf (g.pending.keys.headD 0) g.pending.keys

def span (g : TwccFeedbackGenerator) : Nat :=
  (newestOf g.reportBase g.pending.keys - g.reportBase).toNat + 1

/-- Sequence `j` of a report that starts at `base`. -/
def sequenceAt (base : BitVec 16) (j : Nat) : BitVec 16 := base + BitVec.ofNat 16 j

def firstArrivalUs (pending : Pending) (base : BitVec 16) (span : Nat) : Int :=
  match (List.range span).findSome? fun j => pending.lookup (sequenceAt base j) with
  | some arrival => arrival.atUs
  | none => 0

/-- The locals of the walk over the span. -/
structure Walk where
  clockUs : Int
  symbols : List Byte := []
  deltas : List Byte := []
  emitCount : Nat := 0

def isSmall (deltaUnits : Int) : Bool := 0 ≤ deltaUnits && deltaUnits ≤ 255

def deltaField (deltaUnits : Int) : List Byte :=
  if isSmall deltaUnits then [BitVec.ofInt 8 deltaUnits] else u16Bytes (BitVec.ofInt 16 deltaUnits)

/-- The walk in sequence order. It stops when one more packet makes the report
larger than `kMaxReportBytes`, or when a delta does not fit in 16 bits. -/
def walkSpan (pending : Pending) (base : BitVec 16) : List Nat → Walk → Walk
  | [], walk => walk
  | j :: rest, walk =>
    match pending.lookup (sequenceAt base j) with
    | none => walkSpan pending base rest { walk with symbols := walk.symbols ++ [kNotReceived] }
    | some arrival =>
      let deltaUnits := floorDiv (arrival.atUs - walk.clockUs) kDeltaUnitUs
      if deltaUnits < -32768 ∨ 32767 < deltaUnits then walk
      else
        let deltaBytes := walk.deltas.length + (if isSmall deltaUnits then 1 else 2)
        -- Two bytes of chunk for every 7 symbols is the worst case.
        let chunkBound := (walk.symbols.length + 1 + 6) / 7 * 2
        if 0 < walk.emitCount ∧ kMaxReportBytes < 20 + chunkBound + deltaBytes then walk
        else
          walkSpan pending base rest {
            clockUs := walk.clockUs + deltaUnits * kDeltaUnitUs
            symbols := walk.symbols ++ [if isSmall deltaUnits then kSmallDelta else kLargeDelta]
            deltas := walk.deltas ++ deltaField deltaUnits
            emitCount := walk.symbols.length + 1 }

def eraseSpan (pending : Pending) (base : BitVec 16) (emitCount : Nat) : Pending :=
  (List.range emitCount).foldl (fun left j => left.erase (sequenceAt base j)) pending

/-- The bytes of one report: header, chunks and deltas, padded to 32 bits. -/
def reportBytes (senderSsrc mediaSsrc : BitVec 32) (base : BitVec 16) (emitCount : Nat)
    (referenceUnits : Int) (count : Byte) (chunks deltas : List Byte) : List Byte :=
  let body := 20 + chunks.length + deltas.length
  let padded := (body + 3) / 4 * 4
  [0x80 ||| kTwccFeedbackFmt, kRtcpRtpfb] ++ u16Bytes (BitVec.ofNat 16 (padded / 4 - 1)) ++
    u32Bytes senderSsrc ++ u32Bytes mediaSsrc ++ u16Bytes base ++
    u16Bytes (BitVec.ofNat 16 emitCount) ++ u24Bytes (BitVec.ofInt 24 referenceUnits) ++ [count] ++
    chunks ++ deltas ++ List.replicate (padded - body) 0

/-- The reference time: the first arrival rounded down to 64 ms. -/
def referenceUnits (g : TwccFeedbackGenerator) : Int :=
  floorDiv (firstArrivalUs g.pending g.reportBase g.span) kReferenceTimeUnitUs

def reportWalk (g : TwccFeedbackGenerator) : Walk :=
  walkSpan g.pending g.reportBase (List.range g.span)
    { clockUs := g.referenceUnits * kReferenceTimeUnitUs }

def buildFeedback (g : TwccFeedbackGenerator) (senderSsrc mediaSsrc : BitVec 32) :
    TwccFeedbackGenerator × List Byte :=
  if g.pending.entries.isEmpty then (g, [])
  else
    let base := g.reportBase
    let walk := g.reportWalk
    if walk.emitCount = 0 then ({ g with pending := ∅ }, [])
    else
      let chunks := encodeStatusChunks (walk.symbols.take walk.emitCount)
      ({ lastEmittedSequence := sequenceAt base (walk.emitCount - 1)
         hasEmitted := true
         feedbackPacketCount := g.feedbackPacketCount + 1
         pending := eraseSpan g.pending base walk.emitCount },
        reportBytes senderSsrc mediaSsrc base walk.emitCount g.referenceUnits
          g.feedbackPacketCount chunks walk.deltas)

end TwccFeedbackGenerator

end Mello.Transport.Twcc
