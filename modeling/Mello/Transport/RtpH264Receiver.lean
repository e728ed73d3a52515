import Mello.Library.OrderedMap
import Mello.Transport.H264Reads

/-!
The receiver of one H.264 RTP stream: it stores packets by their unwrapped
sequence numbers, asks for the missing ones, and hands out each access unit as
soon as it is complete. Points in time are in nanoseconds; the round trip and
the repair times are in microseconds. The callbacks made stand in a log.
-/

namespace Mello.Transport.RtpH264Receiver
open Library Twcc H264Payload

def kMaxPackets : ℤ := 4096
def kMaxBufferedBytes : ℤ := 8 * 1024 * 1024
def kMaxGap : ℤ := 2048
def kHistory : ℤ := 8192
def kReorderGrace : ℤ := 3000000
def kNewerPacketGrace : ℕ := 2
def kMinNackRepeat : ℤ := 10000
def kRepairMargin : ℤ := 10000000
def kMinRepairWindow : ℤ := 300000
def kMaxRepairWindow : ℤ := 1500000
def kRepairMemory : ℤ := 10000000000
def kPacketMemory : ℤ := 600000000
def kKeyframeProgress : ℤ := 200000000

/-! ## Datagrams -/

structure ParsedRtpPacket where
  payloadType : Byte
  marker : Bool
  sequence : BitVec 16
  timestamp : BitVec 32
  ssrc : BitVec 32
  payload : List Byte
  deriving DecidableEq, Repr

inductive ParseResult where
  | invalid
  | media (packet : ParsedRtpPacket)
  /-- A valid header with only padding behind it: it takes a sequence number but carries no video. -/
  | padding (packet : ParsedRtpPacket)
  deriving DecidableEq, Repr

/-- The bytes of the header, with the list of sources and the extension. -/
def headerSize (data : List Byte) (first : Byte) : Option ℕ :=
  let headerSize := 12 + (first &&& 0x0f).toNat * 4
  if headerSize > data.length then none
  else if first &&& 0x10 = 0 then some headerSize
  else
    match data.drop headerSize with
    | _ :: _ :: high :: low :: rest =>
      let extensionWords := (high ++ low).toNat
      if extensionWords > rest.length / 4 then none else some (headerSize + 4 + extensionWords * 4)
    | _ => none

/-- Where the payload ends. The last byte counts the padding, itself included. -/
def payloadEnd (data : List Byte) (first : Byte) (headerSize : ℕ) : Option ℕ :=
  if first &&& 0x20 = 0 then some data.length
  else
    let paddingSize := (data.getLastD 0).toNat
    if paddingSize = 0 ∨ paddingSize > data.length - headerSize then none else some (data.length - paddingSize)

def parseRtpPacket (data : List Byte) : ParseResult :=
  match data with
  | first :: second :: s1 :: s0 :: t3 :: t2 :: t1 :: t0 :: c3 :: c2 :: c1 :: c0 :: _ =>
    if first >>> 6 ≠ 2 then .invalid
    else
      match headerSize data first with
      | none => .invalid
      | some start =>
        match payloadEnd data first start with
        | none => .invalid
        | some stop =>
          let packet : ParsedRtpPacket := {
            payloadType := second &&& 0x7f
            marker := second &&& 0x80 ≠ 0
            sequence := s1 ++ s0
            timestamp := t3 ++ t2 ++ t1 ++ t0
            ssrc := c3 ++ c2 ++ c1 ++ c0
            payload := (data.take stop).drop start }
          if packet.payload ≠ [] then .media packet
          else if first &&& 0x20 ≠ 0 then .padding packet
          else .invalid
  | _ => .invalid

/-! ## State -/

structure Packet where
  timestamp : BitVec 32 := 0
  marker : Bool := false
  padding : Bool := false
  /-- Its access unit went out or was given up (or it is padding): only the header facts stay. -/
  emitted : Bool := false
  repaired : Bool := false
  arrival : ℤ := 0
  payload : List Byte := []
  deriving DecidableEq, Repr

structure Missing where
  firstDetected : ℤ := 0
  /-- When the packet would have come: the arrival of the packet before the gap. -/
  expected : ℤ := 0
  lastNack : ℤ := 0
  attempts : ℕ := 0
  newerPackets : ℕ := 0
  /-- The repair deadline, when it is known. -/
  deadline : Option ℤ := none
  deriving DecidableEq, Repr

structure AccessUnit where
  annexB : List Byte := []
  rtpTimestamp : BitVec 32 := 0
  firstSequence : ℤ := 0
  lastSequence : ℤ := 0
  reference : ℤ := -1
  firstArrival : ℤ := 0
  lastArrival : ℤ := 0
  keyframe : Bool := false
  hasIdr : Bool := false
  retransmitted : Bool := false
  deriving DecidableEq, Repr

/-- Media of one timestamp that waits for the rest of its access unit. -/
def Packet.waitsIn (timestamp : BitVec 32) (packet : Packet) : Bool :=
  !packet.emitted && !packet.padding && packet.timestamp == timestamp

/-- What stays of a packet whose payload was released. -/
def Packet.released (packet : Packet) : Packet := { packet with payload := [], emitted := true }

inductive Callback where
  | onAccessUnit (unit : AccessUnit)
  | onNack (missingSequences : List (BitVec 16))
  | onLoss (lostSequence : ℤ)
  deriving DecidableEq, Repr

/-- The render time of a frame with some timestamp, while the timeline knows one. -/
abbrev RenderTime := BitVec 32 → Option ℤ

structure Impl where
  payloadType : Byte := 96
  rtt : ℤ := 30000
  ssrc : Option (BitVec 32) := none
  packets : OrderedMap ℤ Packet := {}
  unemitted : Finset ℤ := ∅
  missing : OrderedMap ℤ Missing := {}
  lost : Finset ℤ := ∅
  /-- How long a lost packet had waited when it was given up, and when that was. -/
  lostAt : OrderedMap ℤ (ℤ × ℤ) := {}
  /-- When a gap was filled, and how long it had lasted. -/
  repairs : List (ℤ × ℤ) := []
  bufferedPackets : ℤ := 0
  bufferedBytes : ℤ := 0
  highestSequence : Option ℤ := none
  firstSequence : ℤ := 0
  /-- Sequence numbers up to the floor are obsolete or gone. -/
  floor : Option ℤ := none
  lastTime : Option ℤ := none
  lastAnyArrival : ℤ := 0
  callbacks : List (ℤ × Callback) := []

/-- What is known about a neighbour packet. -/
inductive Before where
  | media (packet : Packet)
  | gone
  | unknown
  deriving DecidableEq, Repr

/-- Whether a run of packets ends where its access unit does. It never will on a dead end. -/
inductive Edge where
  | known
  | unknown
  | dead
  deriving DecidableEq, Repr

structure Config where
  payloadType : Byte := 96
  rtt : ℤ := 30000
  deriving DecidableEq, Repr

def Impl.new (config : Config) : Impl where
  payloadType := config.payloadType &&& 0x7f
  rtt := max config.rtt 0

namespace Impl

variable (s : Impl) (render : RenderTime) (now sequence : ℤ)

def report (callback : Callback) : Impl := { s with callbacks := s.callbacks ++ [(now, callback)] }

/-- The stored packet. It is read only where there is one. -/
def packetAt : Packet := (s.packets.find sequence).getD {}

/-! ## Giving packets up -/

def releasePayload : Impl :=
  match s.packets.find sequence with
  | none => s
  | some packet =>
    let packets := s.packets.modify sequence Packet.released
    if packet.emitted || packet.padding then { s with packets := packets }
    else { s with
      packets := packets
      bufferedBytes := s.bufferedBytes - packet.payload.length
      bufferedPackets := s.bufferedPackets - 1
      unemitted := s.unemitted.erase sequence }

def releaseAll (keys : List ℤ) : Impl := keys.foldl releasePayload s

def releaseRange (lo hi : ℤ) : Impl := s.releaseAll (Int.range lo (hi + 1))

/-- Releases the oldest packets as long as they pass the test, one packet for
each unit of fuel. -/
def releaseLoop (test : ℤ → Bool) : ℕ → Impl → Impl
  | 0, s => s
  | fuel + 1, s =>
    if some : s.unemitted.Nonempty then
      if test (s.unemitted.min' some) then releaseLoop test fuel (s.releasePayload (s.unemitted.min' some)) else s
    else s

def releaseWhile (test : ℤ → Bool) : Impl := releaseLoop test s.unemitted.card s

/-- Everything before `sequence` is obsolete or gone: no more repair, no more assembly. -/
def giveUpBefore (isLoss : Bool) : Impl :=
  let s := s.releaseWhile (· < sequence)
  let s := { s with
    missing := s.missing.filter (sequence ≤ ·)
    floor := if s.floor.all (· < sequence - 1) then some (sequence - 1) else s.floor }
  if isLoss then s.report now (.onLoss (sequence - 1)) else s

/-! ## Sequence numbers -/

def extendSequence (wire : BitVec 16) : ℤ :=
  match s.highestSequence with
  | none => wire.toNat
  | some highest =>
    let cycleBase := highest / 65536 * 65536
    let candidate := cycleBase + wire.toNat
    let delta := candidate - highest
    if delta > 32768 then candidate - 65536
    else if delta < -32768 then candidate + 65536
    else candidate

def emplaceMissing (missing : Missing) : Impl :=
  if sequence ∈ s.missing then s else { s with missing := s.missing.insert sequence missing }

def markMissing : Impl := s.emplaceMissing sequence { firstDetected := now, expected := now }

def pruneHistory : Impl :=
  let keepFrom := s.highestSequence.getD 0 - kHistory
  let old := s.packets.entries.filter fun entry => entry.1 < keepFrom
  let s := old.foldl (fun s entry => if entry.2.emitted then s else s.releasePayload entry.1) s
  { s with
    packets := s.packets.filter (keepFrom ≤ ·)
    lost := s.lost.filter (keepFrom ≤ ·)
    missing := s.missing.filter (keepFrom ≤ ·) }

/-- One more packet came behind the missing packets before `sequence`. -/
def countNewer : Impl := { s with
  missing := s.missing.mapValues fun key missing =>
    if key < sequence ∧ missing.newerPackets < kNewerPacketGrace then
      { missing with newerPackets := missing.newerPackets + 1 }
    else missing }

/-- The packets between the newest one and `sequence` are missing. -/
def openGap (highest : ℤ) : Impl :=
  let expected := ((s.packets.find highest).map fun before => min now before.arrival).getD now
  (Int.range (highest + 1) sequence).foldl
    (fun s key => s.emplaceMissing key { firstDetected := now, expected := expected, newerPackets := 1 }) s

def observeSequence : Impl :=
  match s.highestSequence with
  | none => { s with highestSequence := some sequence }
  | some highest =>
    if sequence ≤ highest then s
    else
      let s := s.countNewer sequence
      let s := if sequence - highest - 1 > kMaxGap then s.giveUpBefore now sequence true else s.openGap now sequence highest
      pruneHistory { s with highestSequence := some sequence }

/-! ## Access units -/

/-- Lost for real, older than the last key frame, or before the stream. -/
def isGone : Bool := sequence < s.firstSequence || s.floor.any (sequence ≤ ·) || sequence ∈ s.lost

/-- What is known about the packet before a sequence number, skipping padding. -/
def packetBefore : Before :=
  let before := s.packets.walk (-1) (fun key packet => !s.isGone key && packet.padding) (sequence - 1)
  if s.isGone before then .gone
  else
    match s.packets.find before with
    | none => .unknown
    | some packet => .media packet

def referenceOf : ℤ := s.packets.walk (-1) (fun _ packet => packet.padding) (sequence - 1)

/-- The run of waiting packets around a sequence number that share its timestamp. -/
def groupOf : Option (ℤ × ℤ) :=
  (s.packets.find sequence).bind fun packet =>
    if packet.emitted || packet.padding then none
    else
      let waits := fun (_ : ℤ) (other : Packet) => other.waitsIn packet.timestamp
      some (s.packets.walk (-1) waits (sequence - 1) + 1, s.packets.walk 1 waits (sequence + 1) - 1)

def startKnown (lo : ℤ) (timestamp : BitVec 32) : Edge :=
  match s.packetBefore lo with
  | .media before => if before.marker || before.timestamp ≠ timestamp then .known else .dead
  | .gone =>
    let first := (s.packetAt lo).payload
    if lo = s.firstSequence ∧ startsNal first then .known
    else if h264PayloadStartsAccessUnit first then .known
    else .dead
  | .unknown => .unknown

def endKnown (hi : ℤ) (timestamp : BitVec 32) : Edge :=
  if (s.packetAt hi).marker then .known
  else
    let next := s.packets.walk 1 (fun key packet => decide (key ∉ s.lost) && packet.padding) (hi + 1)
    if next ∈ s.lost then .dead
    else
      match s.packets.find next with
      | none => .unknown
      | some packet => if packet.timestamp ≠ timestamp then .known else .unknown

def payloads (lo hi : ℤ) : List (List Byte) := (Int.range lo (hi + 1)).map fun key => (s.packetAt key).payload

def unitOf (lo hi : ℤ) (reconstructed : ReconstructedAccessUnit) : AccessUnit :=
  let first := s.packetAt lo
  let packets := (Int.range lo (hi + 1)).map s.packetAt
  let keyframe := reconstructed.hasIdr && reconstructed.hasSps && reconstructed.hasPps
  { annexB := reconstructed.bytes
    rtpTimestamp := first.timestamp
    firstSequence := lo
    lastSequence := hi
    reference := if keyframe then -1 else s.referenceOf lo
    firstArrival := first.arrival
    lastArrival := packets.foldl (fun last packet => max last packet.arrival) first.arrival
    keyframe := keyframe
    hasIdr := reconstructed.hasIdr
    retransmitted := packets.any Packet.repaired }

def emitUnit (lo hi : ℤ) (reconstructed : ReconstructedAccessUnit) : Impl :=
  let unit := s.unitOf lo hi reconstructed
  let s := s.releaseRange lo hi
  let s := if unit.keyframe then s.giveUpBefore now lo false else s
  s.report now (.onAccessUnit unit)

def tryCompleteAround : Impl :=
  match s.groupOf sequence with
  | none => s
  | some (lo, hi) =>
    let timestamp := (s.packetAt lo).timestamp
    let start := s.startKnown lo timestamp
    let stop := s.endKnown hi timestamp
    if start = .dead ∨ stop = .dead then s.releaseRange lo hi
    else if start ≠ .known ∨ stop ≠ .known then s
    else
      match reconstruct (s.payloads lo hi) with
      | .error _ => (s.releaseRange lo hi).report now (.onLoss hi)
      | .ok reconstructed => s.emitUnit now lo hi reconstructed

def dropDeadAround : Impl :=
  match s.groupOf sequence with
  | none => s
  | some (lo, hi) =>
    let timestamp := (s.packetAt lo).timestamp
    if s.startKnown lo timestamp = .dead ∨ s.endKnown hi timestamp = .dead then s.releaseRange lo hi
    else s.tryCompleteAround now lo

/-! ## Memory -/

def overBounds : Bool := s.bufferedPackets > kMaxPackets || s.bufferedBytes > kMaxBufferedBytes

/-- Gives up the oldest waiting access unit. -/
def evictOldest : Option Impl :=
  if some : s.unemitted.Nonempty then
    (s.groupOf (s.unemitted.min' some)).map fun (lo, hi) =>
      let released := s.releaseRange lo hi
      report { released with lost := released.lost ∪ (Int.range lo (hi + 1)).toFinset } now (.onLoss hi)
  else none

def evictLoop : ℕ → Impl → Impl
  | 0, s => s
  | fuel + 1, s => if s.overBounds then ((s.evictOldest now).map (evictLoop fuel)).getD s else s

def enforceMemoryBounds : Impl := evictLoop now s.unemitted.card s

def forgetSilent : Impl :=
  if s.bufferedPackets = 0 ∨ now - s.lastAnyArrival < kPacketMemory then s else s.releaseWhile fun _ => true

/-! ## Repairs -/

def noteRepair (latency : ℤ) : Impl :=
  let repairs := (s.repairs ++ [(now, latency.tdiv 1000)]).dropWhile fun repair => now - repair.1 > kRepairMemory
  { s with repairs := repairs.drop (repairs.length - 4096) }

def slowestRepair : ℤ :=
  (s.repairs.filter fun repair => now - repair.1 ≤ kRepairMemory).foldl (fun slowest repair => max slowest repair.2) 0

def repairLatency : ℤ := s.slowestRepair (s.lastTime.getD 0)

def repairWindow : ℤ :=
  let window := (s.slowestRepair now * 3).tdiv 2
  max kMinRepairWindow (min kMaxRepairWindow (max window (3 * s.rtt)))

def nackRepeat : ℤ := max s.rtt kMinNackRepeat

/-- The render time of the first frame behind the gap and one round trip, and
never before the last packet of that frame and one round trip, nor before the
repair window is over. -/
def computeDeadline (missing : Missing) : ℤ :=
  let deadline := missing.firstDetected + s.rtt * 1000 + kRepairMargin
  let deadline := max deadline (missing.firstDetected + s.repairWindow (s.lastTime.getD 0) * 1000)
  match (s.packets.past sequence).dropWhile fun entry => entry.2.padding with
  | [] => deadline
  | (_, after) :: rest =>
    let deadline := ((render after.timestamp).map fun time => max deadline (time + s.rtt * 1000)).getD deadline
    let frame := rest.takeWhile fun entry => !entry.2.padding && entry.2.timestamp == after.timestamp
    let last := frame.foldl (fun last entry => max last entry.2.arrival) after.arrival
    max deadline (last + s.rtt * 1000 + kRepairMargin)

/-- The deadline is computed again when it seems due: the frame behind the gap can have moved it. -/
def refreshDeadline (missing : Missing) : Missing :=
  if missing.deadline.all (· ≤ now) then { missing with deadline := some (s.computeDeadline render sequence missing) }
  else missing

def isExpired (missing : Missing) : Bool := missing.deadline.any (· ≤ now)

def shouldSend (missing : Missing) : Bool :=
  if missing.attempts = 0 then now - missing.firstDetected ≥ kReorderGrace || missing.newerPackets ≥ kNewerPacketGrace
  else now - missing.lastNack ≥ s.nackRepeat * 1000

def isDue (missing : Missing) : Bool := !isExpired now missing && s.shouldSend now missing

def noteNack (missing : Missing) : Missing :=
  if s.isDue now missing then { missing with lastNack := now, attempts := missing.attempts + 1 } else missing

def declareLost : Impl :=
  let s := match s.missing.find sequence with
    | none => s
    | some missing => { s with
      lostAt := s.lostAt.insert sequence (now - missing.expected, now)
      missing := s.missing.erase sequence }
  { s with lost := insert sequence s.lost }

/-- The missing packets with the deadlines they have now. -/
def checkDeadlines : OrderedMap ℤ Missing := s.missing.mapValues (s.refreshDeadline render now)

def expiredKeys : List ℤ := ((s.checkDeadlines render now).entries.filter fun entry => isExpired now entry.2).map Prod.fst

def sendNacks : Impl :=
  let checked := s.checkDeadlines render now
  let due := checked.entries.filter fun entry => s.isDue now entry.2
  let s := { s with missing := checked.mapValues fun _ => s.noteNack now }
  if due = [] then s else s.report now (.onNack (due.map fun entry => BitVec.ofInt 16 entry.1))

/-- The access units next to a lost packet can never complete. -/
def giveUpExpired (expired : List ℤ) : Impl :=
  if expired = [] then s
  else
    let s := expired.foldl (fun s key => s.declareLost now key) s
    let s := { s with lostAt := s.lostAt.keepLast 1024 }
    let s := expired.foldl (fun s key => (s.dropDeadAround now (key - 1)).dropDeadAround now (key + 1)) s
    s.report now (.onLoss (expired.getLastD 0))

def processNacks : Impl := (s.sendNacks render now).giveUpExpired now (s.expiredKeys render now)

/-! ## Calls -/

def acceptsTime : Bool := s.lastTime.all (· ≤ now)

def processTime : Impl := (s.processNacks render now).forgetSilent now

/-- A packet that came after it was given up: its deadline was too early. -/
def noteLate : Impl :=
  match s.lostAt.find sequence with
  | none => s
  | some (waited, declared) => s.noteRepair now (waited + (now - declared))

/-- The first packet chooses the source. -/
def chooseSsrc (ssrc : BitVec 32) : Impl :=
  if s.ssrc = none then { s with ssrc := some ssrc, firstSequence := sequence } else s

def noteFilled : Impl :=
  match s.missing.find sequence with
  | none => s
  | some missing => { s.noteRepair now (now - missing.expected) with missing := s.missing.erase sequence }

def store (packet : Packet) : Impl :=
  if packet.padding then { s with packets := s.packets.insert sequence packet }
  else { s with
    packets := s.packets.insert sequence packet
    bufferedBytes := s.bufferedBytes + packet.payload.length
    bufferedPackets := s.bufferedPackets + 1
    unemitted := insert sequence s.unemitted }

def acceptPacket (parsed : ParsedRtpPacket) (padding validH264 : Bool) : Impl :=
  let s := s.chooseSsrc sequence parsed.ssrc
  let repaired := decide (sequence ∈ s.missing)
  let s := (s.noteFilled now sequence).observeSequence now sequence
  let s := { s with lastAnyArrival := now }
  let packet : Packet := { timestamp := parsed.timestamp, marker := parsed.marker, arrival := now, repaired := repaired }
  if padding then s.store sequence { packet with padding := true, emitted := true }
  else if !validH264 then s.markMissing now sequence
  else s.store sequence { packet with payload := parsed.payload }

/-- A new packet can settle the end of the access unit before it and the start
of the one after it. -/
def settleAround : Impl :=
  ((s.tryCompleteAround now (sequence - 1)).tryCompleteAround now sequence).tryCompleteAround now (sequence + 1)

def receive (parsed : ParsedRtpPacket) (padding : Bool) : Impl :=
  let validH264 := padding || decide (parsed.payload.length ≤ kMaxPayloadBytes) && validateH264Payload parsed.payload
  let sequence := s.extendSequence parsed.sequence
  if parsed.payloadType ≠ s.payloadType ∨ s.ssrc.any (· ≠ parsed.ssrc) then s
  else if s.ssrc = none ∧ (padding ∨ !validH264) then s
  else if sequence ∈ s.packets then s
  else if s.floor.any (sequence ≤ ·) ∨ sequence ∈ s.lost then s.noteLate now sequence
  else ((s.acceptPacket now sequence parsed padding validH264).enforceMemoryBounds now).settleAround now sequence

def handleDatagram (data : List Byte) : Impl :=
  match parseRtpPacket data with
  | .invalid => s
  | .media parsed => s.receive now parsed false
  | .padding parsed => s.receive now parsed true

def onRtpPacket (data : List Byte) : Impl :=
  if !s.acceptsTime now then s
  else (handleDatagram { s with lastTime := some now } now data).processTime render now

def tick : Impl := if !s.acceptsTime now then s else processTime { s with lastTime := some now } render now

def setRtt (rtt : ℤ) : Impl := { s with
  rtt := max rtt 0
  missing := s.missing.mapValues fun _ missing => { missing with deadline := none } }

end Impl

/-- What the owner of a receiver calls, with the render times at that moment. -/
inductive Call where
  | onRtpPacket (render : RenderTime) (now : ℤ) (data : List Byte)
  | tick (render : RenderTime) (now : ℤ)
  | setRtt (rtt : ℤ)

def Impl.call (s : Impl) : Call → Impl
  | .onRtpPacket render now data => s.onRtpPacket render now data
  | .tick render now => s.tick render now
  | .setRtt rtt => s.setRtt rtt

/-- A run of calls on a new receiver. -/
def run (config : Config) (calls : List Call) : Impl := calls.foldl Impl.call (Impl.new config)

end Mello.Transport.RtpH264Receiver
