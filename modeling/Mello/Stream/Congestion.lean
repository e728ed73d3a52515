import Mello.Library.Journal
import Mello.Stream.Controller

/-!
The viewer's receive target, from the statistics of the native receiver. Times are nanoseconds of a monotonic
clock. The ratios, the jitter and the steps are in exact arithmetic.
-/

namespace Mello.Stream.Congestion
open Mello.Library Nearest Journal Controller

def SAMPLE_INTERVAL : ℕ := 500 * 10 ^ 6

def REMB_HEARTBEAT_INTERVAL : ℕ := 2 * 10 ^ 9

def GOOD_SAMPLES_FOR_INCREASE : ℕ := 10

def LOSS_STEP_DOWN_THRESHOLD : ℚ := 5 / 100

def LOSS_MILD_THRESHOLD : ℚ := 2 / 100

def LOSS_GOOD_THRESHOLD : ℚ := 1 / 100

def JITTER_MILD_MS : ℚ := 20

def JITTER_GOOD_MS : ℚ := 10

def STEP_DOWN_FACTOR : ℚ := 75 / 100

def STEP_MILD_FACTOR : ℚ := 85 / 100

def MIN_INCREASE_BPS : ℕ := 100000

def INCREASE_FRACTION : ℚ := 5 / 100

def RTP_CLOCK_HZ : ℚ := 90000

/-- The largest `u32` and the largest `u64`. -/
def U32_MAX : ℕ := 2 ^ 32 - 1
def U64_MAX : ℕ := 2 ^ 64 - 1

structure CongestionSample where
  acceptedPackets : ℕ := 0
  acceptedBytes : ℕ := 0
  missingSequences : ℕ := 0
  repairedPackets : ℕ := 0
  incompleteAccessUnits : ℕ := 0
  emittedAccessUnits : ℕ := 0
  gateEntries : ℕ := 0
  gateExits : ℕ := 0
  gateDroppedAccessUnits : ℕ := 0
  interarrivalJitter : ℕ := 0
  deriving DecidableEq, Repr

namespace CongestionSample

variable (sample : CongestionSample)

/-- A counter that was reset counts as one without news. -/
def deltaSince (previous : CongestionSample) : CongestionSample where
  acceptedPackets := sample.acceptedPackets - previous.acceptedPackets
  acceptedBytes := sample.acceptedBytes - previous.acceptedBytes
  missingSequences := sample.missingSequences - previous.missingSequences
  repairedPackets := sample.repairedPackets - previous.repairedPackets
  incompleteAccessUnits := sample.incompleteAccessUnits - previous.incompleteAccessUnits
  emittedAccessUnits := sample.emittedAccessUnits - previous.emittedAccessUnits
  gateEntries := sample.gateEntries - previous.gateEntries
  gateExits := sample.gateExits - previous.gateExits
  gateDroppedAccessUnits := sample.gateDroppedAccessUnits - previous.gateDroppedAccessUnits
  interarrivalJitter := sample.interarrivalJitter

/-- Loss after repair. -/
def lossRatio : ℚ :=
  let lost := sample.missingSequences - sample.repairedPackets
  let denom := min (sample.acceptedPackets + lost) U64_MAX
  if denom = 0 then 0 else lost / denom

def jitterMs : ℚ := sample.interarrivalJitter * 1000 / RTP_CLOCK_HZ

end CongestionSample

inductive CongestionAction where
  | stepDownSevere
  | stepDownMild
  | hold
  deriving DecidableEq, Repr

structure ViewerCongestionController where
  jitterHighLast : Bool := false
  floorBps : ℕ
  ceilingBps : ℕ
  currentTargetBps : ℕ
  lastEmittedBps : ℕ := 0
  consecutiveGoodSamples : ℕ := 0
  lastStats : Option CongestionSample := none
  lastSampleAt : Option ℕ := none
  lastRembEmitAt : Option ℕ := none

/-- The encoder's floor is the same on every codec. -/
def minBitrateKbps : ℕ := FLOOR_KBPS

namespace ViewerCongestionController

def new (ceilingKbps : ℕ) : ViewerCongestionController :=
  let ceilingBps := min (ceilingKbps * 1000) U32_MAX
  let floorBps := min (minBitrateKbps * 1000) U32_MAX
  { floorBps, ceilingBps, currentTargetBps := min (max ceilingBps floorBps) ceilingBps }

variable (c : ViewerCongestionController)

def clampBps (bps : ℕ) : ℕ := min (max bps c.floorBps) c.ceilingBps

def setCeilingKbps (ceilingKbps : ℕ) : ViewerCongestionController :=
  let c := { c with ceilingBps := min (ceilingKbps * 1000) U32_MAX }
  { c with currentTargetBps := c.clampBps c.currentTargetBps }

def classifySample (delta : CongestionSample) : CongestionAction :=
  if 0 < delta.incompleteAccessUnits ∨ 0 < delta.gateEntries ∨ LOSS_STEP_DOWN_THRESHOLD < delta.lossRatio then .stepDownSevere
  -- one large frame lifts the jitter for one sample, so it steps down only when it holds for two
  else if LOSS_MILD_THRESHOLD ≤ delta.lossRatio ∨ (JITTER_MILD_MS < delta.jitterMs ∧ c.jitterHighLast = true) then .stepDownMild
  else .hold

def isGoodSample (delta : CongestionSample) : Bool :=
  delta.lossRatio < LOSS_GOOD_THRESHOLD ∧ delta.incompleteAccessUnits = 0 ∧ delta.gateEntries = 0 ∧ delta.jitterMs < JITTER_GOOD_MS

def stepDown (factor : ℚ) : ViewerCongestionController :=
  { c with consecutiveGoodSamples := 0, currentTargetBps := c.clampBps ⌊c.currentTargetBps * factor⌋₊ }

def applyIncrease : ViewerCongestionController :=
  let step := max MIN_INCREASE_BPS (nearest 1 (c.currentTargetBps * INCREASE_FRACTION))
  { c with currentTargetBps := c.clampBps (min (c.currentTargetBps + step) U32_MAX), consecutiveGoodSamples := 0 }

def emitIfNeeded (now : ℕ) (force : Bool) : ViewerCongestionController × Option ℕ :=
  let heartbeatDue := c.lastRembEmitAt.all fun last => REMB_HEARTBEAT_INTERVAL ≤ now - last
  let changeBps := (c.currentTargetBps - c.lastEmittedBps) + (c.lastEmittedBps - c.currentTargetBps)
  let significantChange := c.lastEmittedBps = 0 ∨ min (c.lastEmittedBps * 5) U32_MAX ≤ min (changeBps * 100) U32_MAX
  if force ∨ significantChange ∨ heartbeatDue then
    ({ c with lastEmittedBps := c.currentTargetBps, lastRembEmitAt := some now }, some c.currentTargetBps)
  else (c, none)

/-- Takes a sample at most every 500 ms. Returns the target when it is to be sent. -/
def tick (stats : CongestionSample) (now : ℕ) : ViewerCongestionController × Option ℕ :=
  if c.lastSampleAt.any fun last => now - last < SAMPLE_INTERVAL then c.emitIfNeeded now false
  else
    match c.lastStats with
    | none =>
      let c := { c with lastStats := some stats, lastSampleAt := some now, currentTargetBps := c.clampBps c.ceilingBps }
      c.emitIfNeeded now true
    | some previous =>
      let delta := stats.deltaSince previous
      let c := { c with lastStats := some stats, lastSampleAt := some now }
      let action := c.classifySample delta
      let c := { c with jitterHighLast := JITTER_MILD_MS < delta.jitterMs }
      let c := match action with
        | .stepDownSevere => c.stepDown STEP_DOWN_FACTOR
        | .stepDownMild => c.stepDown STEP_MILD_FACTOR
        | .hold =>
          if isGoodSample delta then
            let c := { c with consecutiveGoodSamples := min (c.consecutiveGoodSamples + 1) U32_MAX }
            if GOOD_SAMPLES_FOR_INCREASE ≤ c.consecutiveGoodSamples then c.applyIncrease else c
          else { c with consecutiveGoodSamples := 0 }
      c.emitIfNeeded now false

end ViewerCongestionController

/-! ## Runs -/

inductive Event where
  | setCeilingKbps (ceilingKbps : ℕ)
  | tick (stats : CongestionSample) (now : ℕ)

def Event.time : Event → Option ℕ
  | .setCeilingKbps _ => none
  | .tick _ now => some now

/-- One call of `tick`, with the controller before it. -/
structure Tick where
  before : ViewerCongestionController
  stats : CongestionSample
  now : ℕ

namespace Tick

variable (t : Tick)

def after : ViewerCongestionController := (t.before.tick t.stats t.now).1

def emitted : Option ℕ := (t.before.tick t.stats t.now).2

/-- The sample is due. -/
def Due : Prop := (t.before.lastSampleAt.any fun last => t.now - last < SAMPLE_INTERVAL) = false

instance : Decidable t.Due := inferInstanceAs (Decidable (_ = _))

/-- What the call judges: the news since the sample before. -/
def judged : Option CongestionSample := if t.Due then t.before.lastStats.map t.stats.deltaSince else none

def Good : Prop := ∃ delta ∈ t.judged, ViewerCongestionController.isGoodSample delta = true

def Raises : Prop := t.before.currentTargetBps < t.after.currentTargetBps

def Lowers : Prop := t.after.currentTargetBps < t.before.currentTargetBps

def Changes : Prop := t.after.currentTargetBps ≠ t.before.currentTargetBps

end Tick

namespace ViewerCongestionController

def step (c : ViewerCongestionController) : Event → ViewerCongestionController
  | .setCeilingKbps ceilingKbps => c.setCeilingKbps ceilingKbps
  | .tick stats now => (c.tick stats now).1

def run (c : ViewerCongestionController) (events : List Event) : ViewerCongestionController := events.foldl step c

/-- The calls of `tick` of a run. -/
def ticks : ViewerCongestionController → List Event → List Tick
  | _, [] => []
  | c, .setCeilingKbps ceilingKbps :: rest => ticks (c.setCeilingKbps ceilingKbps) rest
  | c, .tick stats now :: rest => ⟨c, stats, now⟩ :: ticks (c.tick stats now).1 rest

end ViewerCongestionController

end Mello.Stream.Congestion
