import Mello.Library.Runs
import Mello.Transport.AnnexB

/-!
`RtpVideoSender`: the producer's bounded queue of access units and the pacing
worker behind it. The producer works under one lock, the worker's steps are
those of its loop; a run is any interleaving of the two. What leaves the model
are the budgets and probes (any packet may go at any time), the retransmit
queue, and the counters that only `stats()` reads.
-/

namespace Mello.Transport.RtpVideoSender
open Mello.Library Twcc AnnexB

def kVideoClockRate : Nat := 90000
def kMicrosPerSecond : Nat := 1000000
def kFeedbackTimeoutUs : Int := 1000000
def kKeepaliveIntervalUs : Int := 500000
def kMaxQueuedAccessUnits : Nat := 16
def kMaxQueuedBytes : Nat := 4 * 1024 * 1024

inductive SendAccessUnitResult where
  | accepted
  | backpressure
  | failed
  deriving DecidableEq, Repr

/-- `number` is not in the source: it counts the units that were accepted or
answered `backpressure` before this one. -/
structure AccessUnit where
  bytes : List Byte
  rtpTimestamp : BitVec 32
  isIdr : Bool
  enqueuedUs : Int
  number : Nat
  deriving DecidableEq, Repr

/-- One media packet waiting in the pacer. -/
structure MediaPacket where
  packet : List Byte
  idr : Bool
  firstOfAu : Bool
  lastOfAu : Bool
  auBytes : Nat
  enqueuedUs : Int
  deriving DecidableEq, Repr

structure State where
  controller : Bool
  /-- RTX is negotiated: `rtx_ssrc != 0`. -/
  rtx : Bool
  rtpStartTimestamp : BitVec 32
  accessUnitQueue : List AccessUnit := []
  queuedBytesValue : Nat := 0
  mediaPackets : List MediaPacket := []
  mediaQueueBytes : Nat := 0
  timestampInitialized : Bool := false
  firstCaptureTimestampUs : Nat := 0
  lastCaptureTimestampUs : Nat := 0
  awaitingIdr : Bool := false
  pausedForProducer : Bool := false
  idrInSender : Bool := false
  firstUnfedSendUs : Int := 0
  paused : Bool := false
  nextKeepaliveUs : Int := 0
  /-- Not in the source: the number of the next access unit. -/
  offeredUnits : Nat := 0
  deriving DecidableEq, Repr

/-- What an observer of the sender sees. -/
inductive Event where
  /-- A unit accepted or answered `backpressure`. -/
  | offered (unit : AccessUnit) (result : SendAccessUnitResult)
  /-- A call of `record_local_idr_needed`. -/
  | localIdrNeeded
  /-- The worker packetized a unit, in the outage keepalive or outside it. -/
  | packetized (unit : AccessUnit) (keepalive : Bool)
  deriving DecidableEq, Repr

def captureElapsedToRtpTicks (elapsedUs : Nat) : BitVec 32 :=
  BitVec.ofNat 32 (elapsedUs / kMicrosPerSecond % 2 ^ 32 * kVideoClockRate % 2 ^ 32 +
    (elapsedUs % kMicrosPerSecond * kVideoClockRate + kMicrosPerSecond / 2) / kMicrosPerSecond)

def bytesOf (units : List AccessUnit) : Nat := (units.map fun unit => unit.bytes.length).sum

namespace State

/-! ## The producer -/

def dropQueuedDeltas (s : State) : State :=
  { s with
    accessUnitQueue := s.accessUnitQueue.filter AccessUnit.isIdr
    queuedBytesValue :=
      s.queuedBytesValue - bytesOf (s.accessUnitQueue.filter fun unit => !unit.isIdr) }

/-- Closes the gate. An IDR request goes with it, but not during a feedback
outage: there the IDR comes from the resume. -/
def enterIdrGate (s : State) : State × List Event :=
  if s.awaitingIdr then (s, [])
  else ({ s with awaitingIdr := true }, if s.pausedForProducer then [] else [.localIdrNeeded])

/-- The answer to a unit that does not fit. -/
def overflow (s : State) (unit : AccessUnit) :
    State × SendAccessUnitResult × List Event :=
  let (s, request) := s.dropQueuedDeltas.enterIdrGate
  (s, .backpressure, .offered unit .backpressure :: request)

/-- An IDR goes behind the queued units, unless the byte bound leaves no room for it. -/
def pushIdr (s : State) (unit : AccessUnit) : State :=
  let s := if kMaxQueuedBytes - s.queuedBytesValue < unit.bytes.length then
      { s with accessUnitQueue := [], queuedBytesValue := 0 }
    else s
  { s with
    accessUnitQueue := s.accessUnitQueue ++ [unit]
    queuedBytesValue := s.queuedBytesValue + unit.bytes.length
    awaitingIdr := false
    idrInSender := true }

def pushDelta (s : State) (unit : AccessUnit) : State :=
  { s with
    accessUnitQueue := s.accessUnitQueue ++ [unit]
    queuedBytesValue := s.queuedBytesValue + unit.bytes.length }

/-- The capture times that an accepted unit leaves. -/
def stampCapture (s : State) (captureTimestampUs : Nat) : State :=
  { s with
    firstCaptureTimestampUs :=
      if s.timestampInitialized then s.firstCaptureTimestampUs else captureTimestampUs
    timestampInitialized := true
    lastCaptureTimestampUs := captureTimestampUs }

def unitOf (s : State) (annexB : List Byte) (isIdr : Bool) (captureTimestampUs : Nat)
    (nowUs : Int) : AccessUnit where
  bytes := annexB
  rtpTimestamp :=
    if s.timestampInitialized then
      s.rtpStartTimestamp + captureElapsedToRtpTicks (captureTimestampUs - s.firstCaptureTimestampUs)
    else s.rtpStartTimestamp
  isIdr := isIdr
  enqueuedUs := nowUs
  number := s.offeredUnits

/-- Not in the source: the next unit gets the next number. -/
def countOffered (s : State) : State := { s with offeredUnits := s.offeredUnits + 1 }

/-- Memory never runs out here, so copying and queueing a unit does not fail. -/
def sendAccessUnit (s : State) (annexB : List Byte) (captureTimestampUs : Nat) (nowUs : Int)
    (trackIsOpen : Bool) : State × SendAccessUnitResult × List Event :=
  let info := inspectAnnexBAccessUnit annexB
  if trackIsOpen = false ∨ info.valid = false then (s, .failed, [])
  else if s.timestampInitialized = true ∧ captureTimestampUs < s.lastCaptureTimestampUs then
    (s, .failed, [])
  else
    let unit := s.unitOf annexB info.isIdr captureTimestampUs nowUs
    let size := annexB.length
    let s := s.countOffered
    if unit.isIdr = false ∧ s.awaitingIdr = true then
      (s, .backpressure, [.offered unit .backpressure])
    -- While an IDR drains, only the byte bound applies.
    else if unit.isIdr = false ∧
        ((s.idrInSender = false ∧ kMaxQueuedAccessUnits ≤ s.accessUnitQueue.length) ∨
          kMaxQueuedBytes - s.queuedBytesValue < size) then
      s.overflow unit
    else if kMaxQueuedBytes < size then s.overflow unit
    else
      let s := if unit.isIdr then s.pushIdr unit else s.pushDelta unit
      (s.stampCapture captureTimestampUs, .accepted, [.offered unit .accepted])

/-! ## The worker -/

def dropMediaPackets (s : State) : State :=
  { s with
    idrInSender :=
      if (s.mediaPackets.head?.map MediaPacket.idr).getD false then false else s.idrInSender
    mediaPackets := []
    mediaQueueBytes := 0 }

def dropQueuedAccessUnits (s : State) (keepNewest : Bool) : State :=
  let keep := if keepNewest then 1 else 0
  let dropped := s.accessUnitQueue.take (s.accessUnitQueue.length - keep)
  { s with
    idrInSender := keepNewest && (s.accessUnitQueue.getLast?.map AccessUnit.isIdr).getD false
    accessUnitQueue := s.accessUnitQueue.drop (s.accessUnitQueue.length - keep)
    queuedBytesValue := s.queuedBytesValue - bytesOf dropped }

def checkFeedbackTimeout (s : State) (nowUs : Int) : State :=
  if s.controller = false ∨ s.paused = true ∨ s.firstUnfedSendUs = 0 ∨
      nowUs - s.firstUnfedSendUs ≤ kFeedbackTimeoutUs then s
  else
    { s.dropMediaPackets with
      paused := true
      pausedForProducer := true
      -- Deltas get in: the keepalive without RTX is the newest access unit.
      awaitingIdr := false
      nextKeepaliveUs := nowUs }

def resumeAfterOutage (s : State) : State × List Event :=
  let s := ({ s with paused := false }.dropMediaPackets)
  let s := ({ s with pausedForProducer := false }.dropQueuedAccessUnits false)
  if s.awaitingIdr then (s, []) else ({ s with awaitingIdr := true }, [.localIdrNeeded])

/-- One report of `drain_feedback`. -/
def drainReport (s : State) : State × List Event :=
  let s := { s with firstUnfedSendUs := 0 }
  if s.controller = true ∧ s.paused = true then s.resumeAfterOutage else (s, [])

/-- What becomes of a unit in the packetizer. -/
inductive Packetizing where
  | trackClosed
  | sendFrameThrows
  | noBatch
  /-- The packets of the batch; a null message is `none`. -/
  | batch (packets : List (Option (List Byte)))
  deriving DecidableEq, Repr

def mediaPacketsFrom (unit : AccessUnit) (count : Nat) : Nat → List (Option (List Byte)) → List MediaPacket
  | _, [] => []
  | index, none :: rest => mediaPacketsFrom unit count (index + 1) rest
  | index, some packet :: rest =>
    { packet
      idr := unit.isIdr
      firstOfAu := index == 0
      lastOfAu := index + 1 == count
      auBytes := unit.bytes.length
      enqueuedUs := unit.enqueuedUs } :: mediaPacketsFrom unit count (index + 1) rest

def mediaPacketsOf (unit : AccessUnit) (packets : List (Option (List Byte))) : List MediaPacket :=
  mediaPacketsFrom unit packets.length 0 packets

def packetizeNext (s : State) (outcome : Packetizing) (keepalive : Bool) : State × List Event :=
  match s.accessUnitQueue with
  | [] => (s, [])
  | unit :: rest =>
    let s := { s with
      accessUnitQueue := rest
      queuedBytesValue := s.queuedBytesValue - unit.bytes.length }
    match outcome with
    | .batch packets =>
      let media := mediaPacketsOf unit packets
      ({ s with
          mediaPackets := s.mediaPackets ++ media
          mediaQueueBytes := s.mediaQueueBytes + (media.map fun media => media.packet.length).sum },
        [.packetized unit keepalive])
    | _ => ({ s with idrInSender := if unit.isIdr then false else s.idrInSender }, [])

/-- A packet that is sent starts the wait for feedback. -/
def transmit (s : State) (nowUs : Int) (sent : Bool) : State :=
  { s with
    firstUnfedSendUs := if sent = true ∧ s.firstUnfedSendUs = 0 then nowUs else s.firstUnfedSendUs }

def accountMediaSent (s : State) (media : MediaPacket) : State :=
  { s with idrInSender := if media.lastOfAu && media.idr then false else s.idrInSender }

/-- The media branch of `send_one`. -/
def sendMedia (s : State) (nowUs : Int) (sent : Bool) : State :=
  match s.mediaPackets with
  | [] => s
  | media :: rest =>
    let s := ({ s with
      mediaPackets := rest
      mediaQueueBytes := s.mediaQueueBytes - min s.mediaQueueBytes media.packet.length }).transmit nowUs sent
    if sent then s.accountMediaSent media else s

/-- The loop of the keepalive; a packet without an outcome is not sent. -/
def sendAll (nowUs : Int) : List MediaPacket → List Bool → State → State
  | [], _, s => { s with mediaPackets := [] }
  | media :: rest, sends, s =>
    let sent := sends.headD false
    let s := s.transmit nowUs sent
    sendAll nowUs rest sends.tail (if sent then s.accountMediaSent media else s)

def keepalive (s : State) (nowUs : Int) (outcome : Packetizing) (sends : List Bool) :
    State × List Event :=
  let s := s.dropQueuedAccessUnits true
  if nowUs < s.nextKeepaliveUs then (s, [])
  else
    let s := { s with nextKeepaliveUs := nowUs + kKeepaliveIntervalUs }
    if s.rtx then (s.transmit nowUs (sends.headD false), [])
    else
      let s := s.dropMediaPackets
      if s.accessUnitQueue.isEmpty then (s, [])
      else
        let (s, events) := s.packetizeNext outcome true
        ({ sendAll nowUs s.mediaPackets sends s with mediaQueueBytes := 0 }, events)

end State

/-! ## Runs -/

inductive Step where
  | sendAccessUnit (annexB : List Byte) (captureTimestampUs : Nat) (nowUs : Int) (trackIsOpen : Bool)
  | checkFeedbackTimeout (nowUs : Int)
  | drainReport
  | packetizeNext (outcome : State.Packetizing)
  | sendMedia (nowUs : Int) (sent : Bool)
  /-- A retransmit or a probe's padding. -/
  | sendOther (nowUs : Int) (sent : Bool)
  | keepalive (nowUs : Int) (outcome : State.Packetizing) (sends : List Bool)
  deriving DecidableEq, Repr

/-- While paused the worker only sends keepalives; it packetizes when no media
packet waits. -/
def step (s : State) : Step → Option (State × List Event)
  | .sendAccessUnit annexB captureTimestampUs nowUs trackIsOpen =>
    let (t, _, events) := s.sendAccessUnit annexB captureTimestampUs nowUs trackIsOpen
    some (t, events)
  | .checkFeedbackTimeout nowUs => some (s.checkFeedbackTimeout nowUs, [])
  | .drainReport => some s.drainReport
  | .packetizeNext outcome =>
    if s.paused = false ∧ s.mediaPackets = [] then some (s.packetizeNext outcome false) else none
  | .sendMedia nowUs sent => if s.paused then none else some (s.sendMedia nowUs sent, [])
  | .sendOther nowUs sent => if s.paused then none else some (s.transmit nowUs sent, [])
  | .keepalive nowUs outcome sends =>
    if s.paused then some (s.keepalive nowUs outcome sends) else none

end Mello.Transport.RtpVideoSender
