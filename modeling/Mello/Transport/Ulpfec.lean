import Mello.Library.Parity
import Mello.Transport.Twcc

/-!
ULPFEC for the H.264 stream: one parity packet for a group of consecutive media
packets, and the receiver that repairs one loss of the group from it. The
receiver's map of media packets and its eviction queue hold the same keys, so
they are one list in order of arrival. The counters of `stats` leave the model.
-/

namespace Mello.Transport.Ulpfec
open Mello.Library Parity Twcc

def kUlpfecPayloadType : Byte := 127
def kMediaPayloadType : Byte := 96
def kMaxFecGroupSize : Nat := 16
def kMaxMediaPackets : Nat := 2 * kMaxFecGroupSize
def kMaxFecBlocks : Nat := 4

structure ParsedRtp where
  sequence : BitVec 16
  timestamp : BitVec 32
  payloadType : Byte
  marker : Bool
  payload : List Byte
  deriving DecidableEq, Repr

/-- The fixed header, the CSRCs and an extension by its word count. -/
def parseRtp (data : List Byte) : Except ParseFault ParsedRtp := do
  if data.length < 12 then throw .rejected
  let first ← byteAt data 0
  if first >>> 6 ≠ 2 then throw .rejected
  let header := 12 + (first &&& 0x0f).toNat * 4
  if data.length < header then throw .rejected
  let header ← if first &&& 0x10 ≠ 0 then do
      if data.length < header + 4 then throw .rejected
      let words ← readU16 data (header + 2)
      pure (header + 4 + words.toNat * 4)
    else pure header
  if data.length < header then throw .rejected
  let second ← byteAt data 1
  return {
    sequence := ← readU16 data 2
    timestamp := ← readU32 data 4
    payloadType := second &&& 0x7f
    marker := second &&& 0x80 ≠ 0
    payload := data.drop header }

def markerByte (marker : Bool) (payloadType : Byte) : Byte := (if marker then 0x80 else 0) ||| payloadType

def rtpHeader (marker : Bool) (payloadType : Byte) (sequence : BitVec 16) (timestamp ssrc : BitVec 32) :
    List Byte :=
  0x80 :: markerByte marker payloadType :: (u16Bytes sequence ++ (u32Bytes timestamp ++ u32Bytes ssrc))

/-! ## The generator -/

structure UlpfecGenerator where
  groupSize : Nat
  count : Nat := 0
  ready : Bool := false
  snBase : BitVec 16 := 0
  lastSeq : BitVec 16 := 0
  lastMarker : Bool := false
  mask : BitVec 16 := 0
  tsRecovery : BitVec 32 := 0
  lengthRecovery : BitVec 16 := 0
  parity : List Byte := []
  fecSequence : BitVec 16 := 0
  contiguous : Bool := true
  deriving DecidableEq, Repr

namespace UlpfecGenerator

def make (groupSize : Nat) : UlpfecGenerator where
  groupSize := if kMaxFecGroupSize < groupSize then kMaxFecGroupSize else groupSize

/-- The bit of a group's member in the mask. -/
def maskBit (index : Nat) : BitVec 16 := 0x8000#16 >>> index

/-- What the first packet of a group resets, and a gap spoils. -/
def begin (g : UlpfecGenerator) (sequence : BitVec 16) : UlpfecGenerator :=
  if g.count = 0 then
    { g with
      snBase := sequence, mask := 0, tsRecovery := 0, lengthRecovery := 0, parity := [], contiguous := true }
  else if sequence ≠ g.lastSeq + 1 then { g with contiguous := false }
  else g

def gatherPacket (g : UlpfecGenerator) (pkt : ParsedRtp) : UlpfecGenerator :=
  let g := g.begin pkt.sequence
  let index := (pkt.sequence - g.snBase).toNat
  let g := if index < 16 then { g with mask := g.mask ||| maskBit index } else { g with contiguous := false }
  let g := { g with
    tsRecovery := g.tsRecovery ^^^ pkt.timestamp
    lengthRecovery := g.lengthRecovery ^^^ BitVec.ofNat 16 pkt.payload.length
    parity := xorInto g.parity pkt.payload
    lastSeq := pkt.sequence
    lastMarker := pkt.marker
    count := g.count + 1 }
  if g.groupSize ≤ g.count then { g with ready := true, count := 0 } else g

def addPacket (g : UlpfecGenerator) (data : List Byte) : UlpfecGenerator :=
  match parseRtp data with
  | .error _ => g
  | .ok pkt => if g.ready then g else g.gatherPacket pkt

/-- The parity packet: RTP header, ULPFEC header and the parity. Empty when no
group is ready, or the group had a gap. -/
def buildPacket (g : UlpfecGenerator) (mediaSsrc rtpTimestamp : BitVec 32) : List Byte × UlpfecGenerator :=
  if g.ready = false then ([], g)
  else if g.contiguous = false then ([], { g with ready := false, parity := [] })
  else
    (rtpHeader g.lastMarker kUlpfecPayloadType g.fecSequence rtpTimestamp (mediaSsrc + 1) ++
      (0 :: markerByte g.lastMarker kMediaPayloadType :: (u16Bytes g.snBase ++ (u32Bytes g.tsRecovery ++
        (u16Bytes g.lengthRecovery ++ (u16Bytes g.mask ++ g.parity))))),
      { g with ready := false, parity := [], fecSequence := g.fecSequence + 1 })

end UlpfecGenerator

/-! ## The recovery -/

structure FecBlock where
  snBase : BitVec 16
  mask : BitVec 16
  tsRecovery : BitVec 32
  lengthRecovery : BitVec 16
  ptRecovery : Byte
  marker : Bool
  recoveryPayload : List Byte
  deriving DecidableEq, Repr

namespace FecBlock

/-- The indices of the group's members. -/
def members (block : FecBlock) : List Nat :=
  (List.range 16).filter fun i => block.mask &&& UlpfecGenerator.maskBit i ≠ 0

def sequenceAt (block : FecBlock) (i : Nat) : BitVec 16 := block.snBase + BitVec.ofNat 16 i

/-- The test before the members are counted. -/
def covers (block : FecBlock) (sequence : BitVec 16) : Bool :=
  let index := (sequence - block.snBase).toInt
  0 ≤ index ∧ index < 16 ∧ block.mask &&& UlpfecGenerator.maskBit index.toNat ≠ 0

end FecBlock

structure UlpfecRecovery where
  media : List (BitVec 16 × List Byte) := []
  fec : List FecBlock := []
  mediaSsrc : BitVec 32 := 0
  recoveredSequences : List (BitVec 16) := []
  deriving DecidableEq, Repr

/-- What one block gives: nothing, the end of the call, or the packet. -/
inductive Attempt where
  | skip
  | giveUp
  | repaired (packet : List Byte)
  deriving DecidableEq, Repr

namespace UlpfecRecovery

def rememberMedia (r : UlpfecRecovery) (sequence : BitVec 16) (packet : List Byte) : UlpfecRecovery :=
  if (r.media.lookup sequence).isSome then r
  else
    let media := r.media ++ [(sequence, packet)]
    { r with media := media.drop (media.length - kMaxMediaPackets) }

def addMediaPacket (r : UlpfecRecovery) (data : List Byte) : UlpfecRecovery :=
  match parseRtp data with
  | .error _ => r
  | .ok pkt => r.rememberMedia pkt.sequence data

/-- The block of a parity packet, and the media SSRC that the packet tells. -/
def fecBlockOf (data : List Byte) : Except ParseFault (BitVec 32 × FecBlock) := do
  if data.length < 12 + 12 then throw .rejected
  let pkt ← parseRtp data
  if pkt.payloadType ≠ kUlpfecPayloadType ∨ pkt.payload.length < 12 then throw .rejected
  let ssrc ← readU32 data 8
  let recovery ← byteAt pkt.payload 1
  return (ssrc - 1, {
    marker := recovery &&& 0x80 ≠ 0
    ptRecovery := recovery &&& 0x7f
    snBase := ← readU16 pkt.payload 2
    tsRecovery := ← readU32 pkt.payload 4
    lengthRecovery := ← readU16 pkt.payload 8
    mask := ← readU16 pkt.payload 10
    recoveryPayload := pkt.payload.drop 12 })

def addFecPacket (r : UlpfecRecovery) (data : List Byte) : UlpfecRecovery :=
  match fecBlockOf data with
  | .error _ => r
  | .ok (ssrc, block) =>
    let fec := r.fec ++ [block]
    { r with mediaSsrc := ssrc, fec := fec.drop (fec.length - kMaxFecBlocks) }

/-- The members of the group that the media buffer does not hold. -/
def missing (r : UlpfecRecovery) (block : FecBlock) : List Nat :=
  block.members.filter fun i => (r.media.lookup (block.sequenceAt i)).isNone

/-- A buffered packet, parsed. `media_.at` is called for present members only. -/
def parsedAt (r : UlpfecRecovery) (sequence : BitVec 16) : Except ParseFault ParsedRtp :=
  match r.media.lookup sequence with
  | some data => parseRtp data
  | none => .error .outOfBounds

/-- The marker is not protected: it is inferred from the packets of the same
timestamp, in the group and in the whole buffer. -/
def inferMarker (r : UlpfecRecovery) (sequence : BitVec 16) (timestamp : BitVec 32)
    (present : List (BitVec 16 × ParsedRtp)) : Bool :=
  let sharesTimestampInGroup := present.any fun other => other.2.timestamp == timestamp
  let higherSameTimestampInGroup :=
    present.any fun other => other.2.timestamp == timestamp && decide (sequence < other.1)
  let higherSameTimestampGlobally := r.media.any fun entry =>
    match parseRtp entry.2 with
    | .ok pkt => pkt.timestamp == timestamp && decide (sequence < entry.1)
    | .error _ => false
  sharesTimestampInGroup && !higherSameTimestampInGroup && !higherSameTimestampGlobally

/-- The XOR of a block with the group's other members. -/
def rebuild (r : UlpfecRecovery) (sequence : BitVec 16) (block : FecBlock) (missingIndex : Nat)
    (present : List (BitVec 16 × ParsedRtp)) : Attempt :=
  let timestamp := present.foldl (fun timestamp other => timestamp ^^^ other.2.timestamp) block.tsRecovery
  let length := present.foldl
    (fun length other => length ^^^ BitVec.ofNat 16 other.2.payload.length) block.lengthRecovery
  let payload := gather (fun other => other.2.payload) present block.recoveryPayload
  if payload.length < length.toNat then .giveUp
  else
    let marker := if some missingIndex = block.members.getLast? then block.marker
      else r.inferMarker sequence timestamp present
    .repaired (rtpHeader marker block.ptRecovery sequence timestamp r.mediaSsrc ++ payload.take length.toNat)

def attempt (r : UlpfecRecovery) (sequence : BitVec 16) (block : FecBlock) : Attempt :=
  if block.covers sequence = false then .skip
  else
    match r.missing block with
    | [missingIndex] =>
      if block.sequenceAt missingIndex ≠ sequence then .skip
      else
        let others := block.members.filter fun i => i ≠ missingIndex
        match others.mapM fun i => (r.parsedAt (block.sequenceAt i)).map fun pkt => (block.sequenceAt i, pkt) with
        | .error _ => .giveUp
        | .ok present => r.rebuild sequence block missingIndex present
    | _ => .skip

/-- The loop over the blocks, the oldest first. -/
def attemptAll (r : UlpfecRecovery) (sequence : BitVec 16) : List FecBlock → Option (List Byte)
  | [] => none
  | block :: rest =>
    match r.attempt sequence block with
    | .skip => attemptAll r sequence rest
    | .giveUp => none
    | .repaired packet => some packet

def recover (r : UlpfecRecovery) (sequence : BitVec 16) : Option (List Byte) × UlpfecRecovery :=
  if sequence ∈ r.recoveredSequences then (none, r)
  else
    match r.attemptAll sequence r.fec with
    | none => (none, r)
    | some packet =>
      (some packet,
        { r.rememberMedia sequence packet with recoveredSequences := sequence :: r.recoveredSequences })

end UlpfecRecovery

end Mello.Transport.Ulpfec
