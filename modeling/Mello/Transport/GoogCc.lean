import Mello.Library.Runs
import Mello.Transport.Twcc

/-!
`GoogCcController`: the send history in front of goog_cc. goog_cc itself is not
modelled; what each call hands to it is the output of the call, and the update
it answers with is an input. The congestion window ratio of an update is left
out. Sizes, counts and microseconds stay far from 64 bits, so they are unbounded.
-/

namespace Mello.Transport.GoogCc
open Mello.Library Twcc

/-- IPv4, UDP and the SRTP authentication tag. -/
def kPacketOverheadBytes : Nat := 38
def kHistoryUs : Int := 60000000
def kMaxHistoryPackets : Nat := 32768
def kReferenceWrapUs : Int := 2 ^ 24 * 64000

structure PacedPacketInfo where
  probeClusterId : Int := -1
  probeClusterMinProbes : Int := -1
  probeClusterMinBytes : Int := -1
  deriving DecidableEq, Repr

structure SentPacketInfo where
  transportSequence : BitVec 16
  sendTimeUs : Int
  rtpBytes : Nat
  probeClusterId : Int := -1
  probeMinProbes : Int := -1
  probeMinBytes : Int := -1
  deriving DecidableEq, Repr

structure SendProbeCluster where
  id : Int
  rateBps : Nat
  minProbes : Int
  minBytes : Nat
  deriving DecidableEq, Repr

structure SentPacket where
  sendTime : Int
  size : Nat
  pacingInfo : PacedPacketInfo
  sequenceNumber : Int
  dataInFlight : Nat
  deriving DecidableEq, Repr

/-- One packet of a feedback; `receiveTime` is `none` for a lost one. -/
structure PacketResult where
  sendTime : Int
  size : Nat
  pacingInfo : PacedPacketInfo
  sequenceNumber : Int
  receiveTime : Option Int
  deriving DecidableEq, Repr

structure TransportPacketsFeedback where
  feedbackTime : Int
  packetFeedbacks : List PacketResult
  dataInFlight : Nat
  deriving DecidableEq, Repr

/-- What a call hands to goog_cc. -/
inductive Handed where
  | sentPacket (packet : SentPacket)
  | transportPacketsFeedback (report : TransportPacketsFeedback)
  | processInterval (atTime : Int) (pacerQueue : Nat)
  | networkRouteChange (atTime : Int) (minRate maxRate startingRate : Nat)
  deriving DecidableEq, Repr

/-- The answer of goog_cc to a call. -/
structure NetworkControlUpdate where
  targetRateBps : Option Int := none
  /-- The data rate and the pad rate of the pacer. -/
  pacerConfig : Option (Int × Int) := none
  probeClusterConfigs : List SendProbeCluster := []
  deriving DecidableEq, Repr

structure Record where
  sequence : Int
  sendTimeUs : Int
  bytes : Nat
  pacingInfo : PacedPacketInfo
  reported : Bool := false
  deriving DecidableEq, Repr

def Record.markReported (record : Record) : Record := { record with reported := true }

/-- The bytes in flight. `releases` is not in the source: it keeps the two
operands of every saturating subtraction, to say that none of them saturates. -/
structure Flight where
  inFlightBytes : Nat := 0
  releases : List (Nat × Nat) := []
  deriving DecidableEq, Repr

def Flight.release (flight : Flight) (bytes : Nat) : Flight where
  inFlightBytes := flight.inFlightBytes - min flight.inFlightBytes bytes
  releases := flight.releases ++ [(flight.inFlightBytes, bytes)]

structure GoogCcController where
  minBps : Nat := 0
  maxBps : Nat := 0
  history : List Record := []
  newestSequence : Int := -1
  /-- Every record before this sequence is reported, or never will be. -/
  scanFrom : Int := 0
  flight : Flight := {}
  hasReference : Bool := false
  lastReference : BitVec 32 := 0
  referenceOffsetUs : Int := 0
  targetBps : Nat := 0
  pacingBps : Nat := 0
  paddingBps : Nat := 0
  inFlightBytes : Nat := 0
  rttUs : Int := 0
  probes : List SendProbeCluster := []
  deriving DecidableEq, Repr

/-! ## The history -/

def unwrapSequence (newestSequence : Int) (sequence : BitVec 16) : Int :=
  if newestSequence < 0 then sequence.toNat else Serial.unwrapNear newestSequence sequence

/-- Drops from the front what is over the count or older than the history. -/
def evict (nowUs : Int) : List Record → Flight → List Record × Flight
  | [], flight => ([], flight)
  | record :: rest, flight =>
    if kMaxHistoryPackets < (record :: rest).length ∨ record.sendTimeUs < nowUs - kHistoryUs then
      evict nowUs rest (if record.reported then flight else flight.release record.bytes)
    else (record :: rest, flight)

inductive Lookup where
  | absent
  | found (index : Nat) (record : Record)
  /-- The index is past the end of the deque; the source reads it all the same. -/
  | outOfRange
  deriving DecidableEq, Repr

/-- Indexes the history by the distance from its front. -/
def find (history : List Record) (sequence : Int) : Lookup :=
  match history.head?, history.getLast? with
  | some front, some back =>
    if sequence < front.sequence ∨ back.sequence < sequence then .absent
    else
      let index := (sequence - front.sequence).toNat
      match history[index]? with
      | none => .outOfRange
      | some record => if record.sequence = sequence then .found index record else .absent
  | _, _ => .absent

/-- The scan for lost reports: up to the first sequence of this report, what is
not reported yet never will be. -/
def scanLost (first : Int) : List Record → Flight → List Record × Flight
  | [], flight => ([], flight)
  | record :: rest, flight =>
    if first ≤ record.sequence then (record :: rest, flight)
    else
      let (rest, flight) := scanLost first rest
        (if record.reported then flight else flight.release record.bytes)
      (record.markReported :: rest, flight)

def scanStart (history : List Record) (scanFrom : Int) : Nat :=
  match history.head? with
  | none => 0
  | some front => (max 0 (scanFrom - front.sequence)).toNat

/-- The locals of the matching loop. -/
structure Matching where
  history : List Record
  flight : Flight
  packetFeedbacks : List PacketResult := []

def resultOf (offsetUs : Int) (record : Record) (packet : TwccPacketResult) : PacketResult where
  sendTime := record.sendTimeUs
  size := record.bytes
  pacingInfo := record.pacingInfo
  sequenceNumber := record.sequence
  receiveTime := if packet.received then some (packet.arrivalTimeUs + offsetUs) else none

/-- `none`: a lookup read past the end of the history. -/
def matchPackets (newestSequence offsetUs : Int) : List TwccPacketResult → Matching → Option Matching
  | [], state => some state
  | packet :: rest, state =>
    match find state.history (unwrapSequence newestSequence packet.sequence) with
    | .outOfRange => none
    | .absent => matchPackets newestSequence offsetUs rest state
    | .found index record =>
      if record.reported then matchPackets newestSequence offsetUs rest state
      else
        matchPackets newestSequence offsetUs rest {
          history := state.history.set index record.markReported
          flight := state.flight.release record.bytes
          packetFeedbacks := state.packetFeedbacks ++ [resultOf offsetUs record packet] }

/-! ## The round trip -/

def newestArrival (results : List PacketResult) : Option Int :=
  results.foldl (fun newest result =>
    match result.receiveTime, newest with
    | some time, some best => if best < time then some time else some best
    | some time, none => some time
    | none, best => best) none

/-- The least round trip of the report, without the time the receiver held the packets. -/
def roundTripSample (nowUs newest : Int) (results : List PacketResult) : Int :=
  max 0 (results.foldl (fun sample result =>
    match result.receiveTime with
    | none => sample
    | some time => min sample (nowUs - result.sendTime - (newest - time))) (2 ^ 63 - 1))

def smoothRtt (rttUs nowUs : Int) (results : List PacketResult) : Int :=
  match newestArrival results with
  | none => rttUs
  | some newest =>
    let sample := roundTripSample nowUs newest results
    if rttUs = 0 then sample else (rttUs * 7 + sample).tdiv 8

namespace GoogCcController

/-- Copies the outputs of one update into the controller. -/
def apply (c : GoogCcController) (update : NetworkControlUpdate) : GoogCcController :=
  { c with
    targetBps := (update.targetRateBps.map Int.toNat).getD c.targetBps
    pacingBps := (update.pacerConfig.map fun config => config.1.toNat).getD c.pacingBps
    paddingBps := (update.pacerConfig.map fun config => config.2.toNat).getD c.paddingBps
    probes := c.probes ++ update.probeClusterConfigs }

/-- The constructor, before goog_cc's first update. -/
def make (startBps minBps maxBps : Nat) : GoogCcController :=
  let maxBps := max maxBps minBps
  let start := max minBps (min startBps maxBps)
  { minBps, maxBps, targetBps := start, pacingBps := start * 5 / 2 }

/-- Keeps the reference monotonic across its 24-bit wrap. -/
def unwrapReferenceOffset (c : GoogCcController) (reference : BitVec 32) : GoogCcController :=
  let low : Int := ((reference - c.lastReference) &&& 0xffffff).toNat
  let step := if 0x800000 ≤ low then low - 0x1000000 else low
  let offset :=
    if c.hasReference then
      if 0x1000000 ≤ (c.lastReference.toNat : Int) + step then c.referenceOffsetUs + kReferenceWrapUs
      else if (c.lastReference.toNat : Int) + step < 0 then c.referenceOffsetUs - kReferenceWrapUs
      else c.referenceOffsetUs
    else c.referenceOffsetUs
  { c with hasReference := true, lastReference := reference, referenceOffsetUs := offset }

/-- The record of a packet that is new to the history. -/
def recordOf (c : GoogCcController) (packet : SentPacketInfo) : Record where
  sequence := unwrapSequence c.newestSequence packet.transportSequence
  sendTimeUs := packet.sendTimeUs
  bytes := packet.rtpBytes + kPacketOverheadBytes
  pacingInfo :=
    if 0 ≤ packet.probeClusterId then
      ⟨packet.probeClusterId, packet.probeMinProbes, packet.probeMinBytes⟩
    else {}

/-- Whether `on_packet_sent` ignores the packet: it is not past the newest one. -/
def Stale (c : GoogCcController) (packet : SentPacketInfo) : Prop :=
  0 ≤ c.newestSequence ∧ (c.recordOf packet).sequence ≤ c.newestSequence

instance (c : GoogCcController) (packet : SentPacketInfo) : Decidable (c.Stale packet) :=
  inferInstanceAs (Decidable (_ ∧ _))

def onPacketSent (c : GoogCcController) (packet : SentPacketInfo) (update : NetworkControlUpdate) :
    GoogCcController × List Handed :=
  if c.Stale packet then (c, [])
  else
    let record := c.recordOf packet
    let (history, flight) := evict packet.sendTimeUs (c.history ++ [record])
      { c.flight with inFlightBytes := c.flight.inFlightBytes + record.bytes }
    let sent : SentPacket := {
      sendTime := record.sendTimeUs
      size := record.bytes
      pacingInfo := record.pacingInfo
      sequenceNumber := record.sequence
      dataInFlight := flight.inFlightBytes }
    ({ c with
        newestSequence := record.sequence, history, flight
        inFlightBytes := flight.inFlightBytes }.apply update, [.sentPacket sent])

/-- The state after the scan for lost reports; only a report with packets scans. -/
def dropLost (c : GoogCcController) (packets : List TwccPacketResult) : GoogCcController :=
  match packets.head? with
  | none => c
  | some front =>
    let first := unwrapSequence c.newestSequence front.sequence
    let start := scanStart c.history c.scanFrom
    let (scanned, flight) := scanLost first (c.history.drop start) c.flight
    { c with history := c.history.take start ++ scanned, flight, scanFrom := max c.scanFrom first }

/-- Returns the number of matched packets too. `none`: a lookup read past the
end of the history. -/
def onFeedback (c : GoogCcController) (feedback : TwccFeedback) (nowUs : Int)
    (update : NetworkControlUpdate) : Option (GoogCcController × Nat × List Handed) :=
  let c := (c.unwrapReferenceOffset feedback.referenceTime64ms).dropLost feedback.packets
  match matchPackets c.newestSequence c.referenceOffsetUs feedback.packets
      { history := c.history, flight := c.flight } with
  | none => none
  | some ⟨history, flight, packetFeedbacks⟩ =>
    let c := { c with history, flight, inFlightBytes := flight.inFlightBytes }
    if packetFeedbacks.isEmpty then some (c, 0, [])
    else
      let results := packetFeedbacks.insertionSort fun a b => a.sequenceNumber ≤ b.sequenceNumber
      some ({ c with rttUs := smoothRtt c.rttUs nowUs results }.apply update, results.length,
        [.transportPacketsFeedback ⟨nowUs, results, flight.inFlightBytes⟩])

def onProcessInterval (c : GoogCcController) (nowUs : Int) (pacerQueueBytes : Nat)
    (update : NetworkControlUpdate) : GoogCcController × List Handed :=
  let (history, flight) := evict nowUs c.history c.flight
  ({ c with history, flight, inFlightBytes := flight.inFlightBytes }.apply update,
    [.processInterval nowUs pacerQueueBytes])

/-- The packets of the outage will never be reported. -/
def onRouteChange (c : GoogCcController) (nowUs : Int) (update : NetworkControlUpdate) :
    GoogCcController × List Handed :=
  let start := max c.minBps (min c.targetBps c.maxBps)
  ({ c with
      history := c.history.map Record.markReported
      flight := { c.flight with inFlightBytes := 0 }
      inFlightBytes := 0 }.apply update,
    [.networkRouteChange nowUs c.minBps c.maxBps start])

end GoogCcController

/-- One call, with the update that goog_cc answers it with. -/
inductive Call where
  | onPacketSent (packet : SentPacketInfo) (update : NetworkControlUpdate)
  | onFeedback (feedback : TwccFeedback) (nowUs : Int) (update : NetworkControlUpdate)
  | onProcessInterval (nowUs : Int) (pacerQueueBytes : Nat) (update : NetworkControlUpdate)
  | onRouteChange (nowUs : Int) (update : NetworkControlUpdate)

/-- One call, with what it hands to goog_cc. -/
def step (c : GoogCcController) : Call → Option (GoogCcController × List Handed)
  | .onPacketSent packet update => some (c.onPacketSent packet update)
  | .onFeedback feedback nowUs update =>
    (c.onFeedback feedback nowUs update).map fun (next, _, handed) => (next, handed)
  | .onProcessInterval nowUs pacerQueueBytes update =>
    some (c.onProcessInterval nowUs pacerQueueBytes update)
  | .onRouteChange nowUs update => some (c.onRouteChange nowUs update)

end Mello.Transport.GoogCc
