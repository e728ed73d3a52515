import Mello.Library.Journal
import Mello.Stream.Rungs

/-!
The quality controller of the stream host: the one owner of bitrate, frame rate and
resolution. Times are nanoseconds of a monotonic clock. The thresholds of bitrate
and load are in exact arithmetic.
-/

namespace Mello.Stream.Controller
open Mello.Library Nearest Journal Rungs

def FLOOR_KBPS : ℕ := 300

def START_PERCENT : ℕ := 60

def RTP_OVERHEAD_PERCENT : ℕ := 108

/-- Bits per pixel per frame under which a rung cannot hold its picture. -/
def DROP_BPP : ℚ := 55 / 1000

/-- Bits per pixel per frame over which the rung above holds its picture. -/
def RESTORE_BPP : ℚ := 75 / 1000

def RESTORE_PRESET_PERCENT : ℕ := 95

def DOWN_DWELL : ℕ := 2 * 10 ^ 9

def UP_DWELL : ℕ := 15 * 10 ^ 9

def SWITCH_COOLDOWN : ℕ := 10 * 10 ^ 9

def BITRATE_CHANGE_MIN_INTERVAL : ℕ := 250 * 10 ^ 6

def BITRATE_DEAD_BAND_PERCENT : ℕ := 5

def OVERLOAD_DROP_SHARE : ℚ := 2 / 100

def OVERLOAD_BUDGET_SHARE : ℚ := 80 / 100

def OVERLOAD_MIN_FRAMES : ℕ := 30

def kbpsAtBpp (rung : Rung) (bpp : ℚ) : ℕ := nearest 1 (rung.width * rung.height * rung.fps * bpp / 1000)

/-- The rungs of a preset, without the geometry rungs when they are off. -/
def ladder (width height fps : ℕ) (geometry : Bool) : List Rung :=
  if geometry then rungsFor width height fps
  else (rungsFor width height fps).filter fun rung => rung.width = width ∧ rung.height = height

/-- One window of encoder load. -/
structure EncoderLoad where
  framesOffered : ℕ := 0
  queueDrops : ℕ := 0
  meanEncodeMs : ℚ := 0
  fps : ℕ := 0

/-- The encoder does not hold the frame budget. -/
def EncoderLoad.overloaded (load : EncoderLoad) : Bool :=
  if load.framesOffered < OVERLOAD_MIN_FRAMES ∨ load.fps = 0 then false
  else
    let dropShare : ℚ := load.queueDrops / load.framesOffered
    let budgetMs : ℚ := 1000 / load.fps
    OVERLOAD_DROP_SHARE < dropShare ∨ OVERLOAD_BUDGET_SHARE * budgetMs ≤ load.meanEncodeMs

/-- What the manager must apply after an input or a tick. -/
structure Update where
  bitrateKbps : Option ℕ := none
  rung : Option Rung := none
  allocationKbps : Option ℕ := none

def withOverhead (kbps : ℕ) : ℕ := kbps * RTP_OVERHEAD_PERCENT / 100 % 2 ^ 32

def withoutOverhead (kbps : ℕ) : ℕ := kbps * 100 / RTP_OVERHEAD_PERCENT % 2 ^ 32

structure QualityController where
  presetKbps : ℕ
  rungs : List Rung
  rung : ℕ := 0
  geometry : Bool
  gccKbps : Option ℕ := none
  rembKbps : Option ℕ := none
  overloaded : Bool := false
  bitrateKbps : ℕ
  lastBitrateChange : Option ℕ := none
  belowSince : Option ℕ := none
  aboveSince : Option ℕ := none
  lastSwitch : Option ℕ := none

namespace QualityController

/-- The product of the start is a `u32` and wraps. -/
def new (width height fps presetKbps : ℕ) (geometry : Bool) : QualityController :=
  let presetKbps := max presetKbps FLOOR_KBPS
  { presetKbps
    rungs := ladder width height fps geometry
    geometry
    bitrateKbps := max (presetKbps * START_PERCENT % 2 ^ 32 / 100) FLOOR_KBPS }

variable (c : QualityController)

/-- A rung by its index; the index is always within the ladder. -/
def rungAt (index : ℕ) : Rung := c.rungs.getD index ⟨0, 0, 0⟩

/-! ## Thresholds -/

/-- The floor of a rung. -/
def dropKbps (index : ℕ) : ℕ := kbpsAtBpp (c.rungAt index) DROP_BPP

/-- The bitrate over which a rung restores: a gap over its floor, so that a restore
cannot drop back at once. -/
def restoreKbps (index : ℕ) : ℕ :=
  let byBpp := kbpsAtBpp (c.rungAt index) RESTORE_BPP
  let byPreset := c.presetKbps * RESTORE_PRESET_PERCENT / 100
  max (min byBpp byPreset) (c.dropKbps index * 11 / 10)

/-- The limits for the sender: floor, start and preset. -/
def senderLimitsKbps : ℕ × ℕ × ℕ :=
  (withOverhead FLOOR_KBPS, withOverhead c.bitrateKbps, withOverhead c.presetKbps)

/-- The preset on the top rung, else the bitrate at which the rung above restores. -/
def allocationKbps : ℕ :=
  if c.rung = 0 then withOverhead c.presetKbps else withOverhead (c.restoreKbps (c.rung - 1))

/-! ## Inputs -/

def setGccTargetBps (bps : ℕ) : QualityController := { c with gccKbps := some (withoutOverhead (bps / 1000)) }

def setRembCeilingKbps (kbps : Option ℕ) : QualityController := { c with rembKbps := kbps }

def setEncoderLoad (load : EncoderLoad) : QualityController := { c with overloaded := load.overloaded }

/-- A new source size. Gives the current rung when its geometry changed. -/
def setTopSize (width height : ℕ) : QualityController × Option Rung :=
  let top := c.rungAt 0
  if width = 0 ∨ height = 0 ∨ (width = top.width ∧ height = top.height) then (c, none)
  else
    let rungs := ladder width height top.fps c.geometry
    let next := { c with rungs, rung := min c.rung (rungs.length - 1) }
    let after := next.rungAt next.rung
    (next, if after ≠ c.rungAt c.rung then some after else none)

/-! ## The bitrate -/

/-- The bitrate that the inputs allow. -/
def desiredKbps : ℕ :=
  let kbps := c.presetKbps
  let kbps := c.gccKbps.elim kbps (min kbps)
  let kbps := c.rembKbps.elim kbps (min kbps)
  max kbps FLOOR_KBPS

def OutsideDeadBand (kbps : ℕ) : Prop :=
  c.bitrateKbps * BITRATE_DEAD_BAND_PERCENT ≤ (kbps - c.bitrateKbps + (c.bitrateKbps - kbps)) * 100

instance (kbps : ℕ) : Decidable (c.OutsideDeadBand kbps) := inferInstanceAs (Decidable (_ ≤ _))

def updateBitrate (now : ℕ) : QualityController × Option ℕ :=
  let desired := c.desiredKbps
  let applied := ({ c with bitrateKbps := desired, lastBitrateChange := some now }, some desired)
  if desired = c.bitrateKbps then (c, none)
  else if desired < c.bitrateKbps then
    if c.OutsideDeadBand desired then applied else (c, none)
  else if c.lastBitrateChange.any fun last => now - last < BITRATE_CHANGE_MIN_INTERVAL then (c, none)
  -- The last step to the preset can be under the dead band.
  else if ¬c.OutsideDeadBand desired ∧ desired ≠ c.presetKbps then (c, none)
  else applied

/-! ## The rung -/

def cooledDown (now : ℕ) : Bool := c.lastSwitch.all fun at_ => SWITCH_COOLDOWN ≤ now - at_

def Down : Prop := c.rung + 1 < c.rungs.length ∧ (c.bitrateKbps < c.dropKbps c.rung ∨ c.overloaded = true)

instance : Decidable c.Down := inferInstanceAs (Decidable (_ ∧ (_ ∨ _)))

def Up : Prop := 0 < c.rung ∧ c.overloaded = false ∧ c.restoreKbps (c.rung - 1) ≤ c.bitrateKbps

instance : Decidable c.Up := inferInstanceAs (Decidable (_ ∧ _ ∧ _))

def switchTo (index now : ℕ) : QualityController × Update :=
  let next := { c with rung := index, lastSwitch := some now, belowSince := none, aboveSince := none }
  (next, { rung := some (next.rungAt index), allocationKbps := some next.allocationKbps })

/-- Once a second: judges the rung on the applied bitrate and the encoder load. -/
def tickRung (now : ℕ) : QualityController × Update :=
  if c.Down then
    let since := c.belowSince.getD now
    let held := { c with aboveSince := none, belowSince := some since }
    if DOWN_DWELL ≤ now - since ∧ held.cooledDown now then held.switchTo (c.rung + 1) now else (held, {})
  else if c.Up then
    let since := c.aboveSince.getD now
    let held := { c with belowSince := none, aboveSince := some since }
    if UP_DWELL ≤ now - since ∧ held.cooledDown now then held.switchTo (c.rung - 1) now else (held, {})
  else ({ c with belowSince := none, aboveSince := none }, {})

/-! ## Runs -/

inductive Event where
  | gccTarget (bps : ℕ)
  | rembCeiling (kbps : Option ℕ)
  | encoderLoad (load : EncoderLoad)
  | topSize (width height : ℕ)
  | updateBitrate (now : ℕ)
  | tickRung (now : ℕ)

namespace Event

def tick : Event → Option ℕ
  | tickRung now => some now
  | _ => none

def update : Event → Option ℕ
  | updateBitrate now => some now
  | _ => none

def time : Event → Option ℕ
  | updateBitrate now | tickRung now => some now
  | _ => none

end Event

def step : Event → QualityController
  | .gccTarget bps => c.setGccTargetBps bps
  | .rembCeiling kbps => c.setRembCeilingKbps kbps
  | .encoderLoad load => c.setEncoderLoad load
  | .topSize width height => (c.setTopSize width height).1
  | .updateBitrate now => (c.updateBitrate now).1
  | .tickRung now => (c.tickRung now).1

def run (events : List Event) : QualityController := events.foldl step c

/-- The ticks of a run. -/
def ticks (events : List Event) : List (Moment QualityController) := moments step Event.tick c events

/-- The calls of `update_bitrate` of a run. -/
def updates (events : List Event) : List (Moment QualityController) := moments step Event.update c events

end QualityController

end Mello.Stream.Controller
