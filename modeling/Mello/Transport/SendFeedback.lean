import Mathlib

/-!
What the receiver reports about the send track. `SendFeedbackTracker` turns the
counts of each report into the packets expected and lost since the report before
it. Floats are exact fractions here; the two counts are integers in the source.
-/

namespace Mello.Transport.SendFeedback

/-- A report interval longer than this many packets is a reset, not traffic. -/
def kMaxIntervalPackets : BitVec 32 := 30000

def kMaxRttMs : ℚ := 60000

/-- One reception report block. The cumulative count is signed. -/
structure ReceptionReport where
  fractionLost : BitVec 8 := 0
  cumulativeLost : BitVec 32 := 0
  extendedHighestSeq : BitVec 32 := 0
  jitter : BitVec 32 := 0
  lastSr : BitVec 32 := 0
  delaySinceLastSr : BitVec 32 := 0
  deriving DecidableEq, Repr

structure MelloSendFeedback where
  reports : BitVec 32
  fractionLost : ℚ
  cumulativeLost : BitVec 32
  extendedHighestSeq : BitVec 32
  jitterMs : ℚ
  rttMs : ℚ
  intervalExpected : BitVec 32
  intervalLost : BitVec 32
  rttFresh : Bool
  deriving DecidableEq, Repr

/-- -1 when unknown. The compact time wraps every 18 hours. -/
def rttMsFromReport (lastSr delaySinceLastSr arrivalNtpCompact : BitVec 32) : ℚ :=
  if lastSr = 0 then -1
  else
    let sinceSr := arrivalNtpCompact - lastSr
    if sinceSr < delaySinceLastSr then -1
    else
      let rttMs : ℚ := (sinceSr - delaySinceLastSr).toNat * 1000 / 65536
      if rttMs > kMaxRttMs then -1 else rttMs

structure SendFeedbackTracker where
  haveFirstSequence : Bool := false
  firstSequence : BitVec 16 := 0
  havePrevious : Bool := false
  previousExtendedSeq : BitVec 32 := 0
  previousCumulativeLost : BitVec 32 := 0
  previousLastSr : BitVec 32 := 0
  reports : BitVec 32 := 0
  latest : Option MelloSendFeedback := none
  deriving DecidableEq, Repr

/-- What `on_report` is called with. -/
structure Call where
  report : ReceptionReport
  arrivalNtpCompact : BitVec 32 := 0
  clockRate : BitVec 32 := 48000
  deriving DecidableEq, Repr

/-- The nearest integer, halves away from zero. -/
def lround (value : ℚ) : Int := if 0 ≤ value then ⌊value + 1 / 2⌋ else -⌊-value + 1 / 2⌋

/-- A report from before the receiver's first packet: sequence 0, nothing lost. -/
def SaysNothing (report : ReceptionReport) : Prop :=
  report.extendedHighestSeq = 0 ∧ report.cumulativeLost = 0 ∧ report.fractionLost = 0

instance (report : ReceptionReport) : Decidable (SaysNothing report) :=
  inferInstanceAs (Decidable (_ ∧ _ ∧ _))

namespace SendFeedbackTracker

def setFirstSequence (t : SendFeedbackTracker) (sequence : BitVec 16) : SendFeedbackTracker :=
  { t with haveFirstSequence := true, firstSequence := sequence, havePrevious := false }

def BeforeFirstPacket (t : SendFeedbackTracker) (report : ReceptionReport) : Prop :=
  t.havePrevious = false ∧ SaysNothing report

instance (t : SendFeedbackTracker) (report : ReceptionReport) : Decidable (t.BeforeFirstPacket report) :=
  inferInstanceAs (Decidable (_ ∧ _))

/-- The packets expected since the previous report, and the change of the
cumulative count over them. -/
def interval (t : SendFeedbackTracker) (report : ReceptionReport) : BitVec 32 × BitVec 64 :=
  if t.BeforeFirstPacket report then (0, 0)
  else if t.havePrevious then
    let delta := report.extendedHighestSeq - t.previousExtendedSeq
    (if delta ≤ kMaxIntervalPackets then delta else 0,
      report.cumulativeLost.signExtend 64 - t.previousCumulativeLost.signExtend 64)
  else if t.haveFirstSequence then
    -- The reporter's cycle count starts at its first packet: 16 bits only.
    let delta := report.extendedHighestSeq.setWidth 16 - t.firstSequence
    (if delta < 0x8000#16 then delta.setWidth 32 + 1 else 0, report.cumulativeLost.signExtend 64)
  else (0, 0)

def lostOf (fractionLost : BitVec 8) (expected : BitVec 32) (lostDelta : BitVec 64) : BitVec 32 :=
  if 0 < expected then
    if 0 ≤ lostDelta.toInt ∧ lostDelta.toInt ≤ expected.toNat then lostDelta.setWidth 32
    else BitVec.ofInt 32 (lround (fractionLost.toNat * expected.toNat / 256))
  else 0

def onReport (t : SendFeedbackTracker) (call : Call) : SendFeedbackTracker × MelloSendFeedback :=
  let report := call.report
  let rttMs := rttMsFromReport report.lastSr report.delaySinceLastSr call.arrivalNtpCompact
  let expected := (t.interval report).1
  let feedback : MelloSendFeedback := {
    reports := t.reports + 1
    fractionLost := report.fractionLost.toNat / 256
    cumulativeLost := report.cumulativeLost
    extendedHighestSeq := report.extendedHighestSeq
    jitterMs := if 0 < call.clockRate then report.jitter.toNat * 1000 / call.clockRate.toNat else 0
    rttMs := rttMs
    intervalExpected := expected
    intervalLost := lostOf report.fractionLost expected (t.interval report).2
    rttFresh := 0 ≤ rttMs && report.lastSr ≠ t.previousLastSr }
  ({ t with
      havePrevious := t.havePrevious || !decide (t.BeforeFirstPacket report)
      previousExtendedSeq := report.extendedHighestSeq
      previousCumulativeLost := report.cumulativeLost
      previousLastSr := report.lastSr
      reports := t.reports + 1
      latest := some feedback }, feedback)

/-- The feedback of each report in turn. -/
def feedbacks : SendFeedbackTracker → List Call → List MelloSendFeedback
  | _, [] => []
  | t, call :: rest => (t.onReport call).2 :: (t.onReport call).1.feedbacks rest

/-! ## The two counts in unbounded integers -/

def packetsExpected (t : SendFeedbackTracker) (report : ReceptionReport) : Nat :=
  if t.BeforeFirstPacket report then 0
  else if t.havePrevious then
    let delta := (2 ^ 32 - t.previousExtendedSeq.toNat + report.extendedHighestSeq.toNat) % 2 ^ 32
    if delta ≤ 30000 then delta else 0
  else if t.haveFirstSequence then
    let delta := (2 ^ 16 - t.firstSequence.toNat + report.extendedHighestSeq.toNat % 2 ^ 16) % 2 ^ 16
    if delta < 2 ^ 15 then delta + 1 else 0
  else 0

def lossChange (t : SendFeedbackTracker) (report : ReceptionReport) : Int :=
  report.cumulativeLost.toInt - if t.havePrevious then t.previousCumulativeLost.toInt else 0

def packetsLost (t : SendFeedbackTracker) (report : ReceptionReport) : Int :=
  let expected := t.packetsExpected report
  if expected = 0 then 0
  else if 0 ≤ t.lossChange report ∧ t.lossChange report ≤ expected then t.lossChange report
  else (report.fractionLost.toNat * expected + 128) / 256

variable (t : SendFeedbackTracker) (report : ReceptionReport)

theorem packetsExpected_le : t.packetsExpected report ≤ 32768 := by
  unfold packetsExpected
  dsimp only
  split_ifs <;> omega

/-- The fraction is below one, so the rounded share of the expected is at most all of them. -/
theorem packetsLost_bounds :
    0 ≤ t.packetsLost report ∧ t.packetsLost report ≤ t.packetsExpected report := by
  have fraction : report.fractionLost.toNat < 256 := report.fractionLost.isLt
  unfold packetsLost
  dsimp only
  split_ifs with none usable
  · omega
  · exact usable
  · have share : report.fractionLost.toNat * t.packetsExpected report ≤ 255 * t.packetsExpected report :=
      Nat.mul_le_mul_right _ (Nat.le_of_lt_succ fraction)
    omega

theorem interval_expected : (t.interval report).1.toNat = t.packetsExpected report := by
  unfold interval packetsExpected
  dsimp only
  by_cases before : t.BeforeFirstPacket report
  · rw [if_pos before, if_pos before]
    rfl
  rw [if_neg before, if_neg before]
  by_cases previous : t.havePrevious = true
  · rw [if_pos previous, if_pos previous]
    dsimp only
    rw [← BitVec.toNat_sub, apply_ite BitVec.toNat]
    rfl
  rw [if_neg previous, if_neg previous]
  by_cases started : t.haveFirstSequence = true
  · rw [if_pos started, if_pos started]
    dsimp only
    rw [← BitVec.toNat_setWidth, ← BitVec.toNat_sub]
    have small : report.extendedHighestSeq.setWidth 16 - t.firstSequence < 0x8000#16 ↔
        (report.extendedHighestSeq.setWidth 16 - t.firstSequence).toNat < 2 ^ 15 := BitVec.lt_def
    by_cases short : report.extendedHighestSeq.setWidth 16 - t.firstSequence < 0x8000#16
    · have bound := small.mp short
      rw [if_pos short, if_pos bound, BitVec.toNat_add, BitVec.toNat_setWidth]
      change (_ % 2 ^ 32 + 1) % 2 ^ 32 = _
      omega
    · rw [if_neg short, if_neg fun bound => short (small.mpr bound)]
      rfl
  · rw [if_neg started, if_neg started]
    rfl

theorem toInt_signExtend_sub (a b : BitVec 32) :
    (a.signExtend 64 - b.signExtend 64).toInt = a.toInt - b.toInt := by
  have := a.toInt_lt
  have := a.le_toInt
  have := b.toInt_lt
  have := b.le_toInt
  rw [BitVec.toInt_sub, BitVec.toInt_signExtend_of_le (by decide), BitVec.toInt_signExtend_of_le (by decide),
    Int.bmod_eq_of_le (by omega) (by omega)]

/-- The 64-bit difference of the counts is exact wherever an interval is counted. -/
theorem interval_lost (counted : t.packetsExpected report ≠ 0) :
    (t.interval report).2.toInt = t.lossChange report := by
  unfold packetsExpected at counted
  unfold interval lossChange
  dsimp only at counted ⊢
  by_cases before : t.BeforeFirstPacket report
  · rw [if_pos before] at counted
    exact absurd rfl counted
  rw [if_neg before] at counted ⊢
  by_cases previous : t.havePrevious = true
  · rw [if_pos previous, if_pos previous]
    exact toInt_signExtend_sub _ _
  rw [if_neg previous] at counted
  rw [if_neg previous, if_neg previous, sub_zero]
  by_cases started : t.haveFirstSequence = true
  · rw [if_pos started]
    exact BitVec.toInt_signExtend_of_le (by decide)
  · rw [if_neg started] at counted
    exact absurd rfl counted

/-- The rounded share of the expected packets. -/
theorem lround_share (share : Nat) : lround ((share : ℚ) / 256) = (share + 128) / 256 := by
  have positive : (0 : ℚ) ≤ (share : ℚ) / 256 := by positivity
  have shape : (share : ℚ) / 256 + 1 / 2 = ((share + 128 : ℕ) : ℚ) / (256 : ℕ) := by
    push_cast
    ring
  rw [lround, if_pos positive, shape, Rat.floor_natCast_div_natCast]
  push_cast
  rfl

theorem lostOf_eq : ((lostOf report.fractionLost (t.interval report).1 (t.interval report).2).toNat : Int) =
    t.packetsLost report := by
  have expected := t.interval_expected report
  have most := t.packetsExpected_le report
  obtain ⟨least, bounded⟩ := t.packetsLost_bounds report
  have zero : 0 < (t.interval report).1 ↔ t.packetsExpected report ≠ 0 := by
    rw [BitVec.lt_def, expected]
    exact Nat.pos_iff_ne_zero
  unfold lostOf
  unfold packetsLost at least bounded ⊢
  dsimp only at least bounded ⊢
  by_cases counted : t.packetsExpected report = 0
  · rw [if_neg (fun some => zero.mp some counted), if_pos counted]
    rfl
  rw [if_pos (zero.mpr counted), if_neg counted, t.interval_lost report counted, expected]
  rw [if_neg counted] at least bounded
  by_cases usable : 0 ≤ t.lossChange report ∧ t.lossChange report ≤ t.packetsExpected report
  · rw [if_pos usable, if_pos usable]
    have value := t.interval_lost report counted
    have wide := BitVec.toInt_eq_toNat_cond (t.interval report).2
    have size := (t.interval report).2.isLt
    rw [BitVec.toNat_setWidth]
    split_ifs at wide <;> omega
  · rw [if_neg usable] at least bounded ⊢
    rw [if_neg usable, ← Nat.cast_mul, lround_share]
    rw [BitVec.toNat_ofInt]
    push_cast at least bounded ⊢
    omega

/-! ## A track's reports -/

/-- Reports of one receiver, whose first packet is the track's packet `p`, behind
the highest packet `highest`. The receiver numbers packets from the start of the
cycle of its first one. -/
inductive FromReceiver (p : Nat) : Nat → List Call → Nat → Prop
  | nil {highest : Nat} : FromReceiver p highest [] highest
  | cons {highest next last : Nat} {call : Call} {rest : List Call} (forward : highest ≤ next)
      (step : next ≤ highest + 30000) (received : p ≤ next)
      (reported : call.report.extendedHighestSeq = BitVec.ofNat 32 (next - p / 2 ^ 16 * 2 ^ 16))
      (later : FromReceiver p next rest last) : FromReceiver p highest (call :: rest) last

theorem FromReceiver.le {p highest last : Nat} {calls : List Call}
    (receiver : FromReceiver p highest calls last) : highest ≤ last := by
  induction receiver with
  | nil => exact le_rfl
  | cons forward step received reported later ih => exact forward.trans ih

def totalExpected (t : SendFeedbackTracker) (calls : List Call) : Nat :=
  ((t.feedbacks calls).map fun feedback => feedback.intervalExpected.toNat).sum

section
variable (t : SendFeedbackTracker) (call : Call) (rest : List Call)

theorem totalExpected_cons : t.totalExpected (call :: rest) =
    t.packetsExpected call.report + (t.onReport call).1.totalExpected rest :=
  congrArg (· + _) (t.interval_expected call.report)

end

/-- A tracker whose previous report is about the packet `highest`. -/
def Follows (t : SendFeedbackTracker) (p highest : Nat) : Prop :=
  t.havePrevious = true ∧ t.previousExtendedSeq = BitVec.ofNat 32 (highest - p / 2 ^ 16 * 2 ^ 16)

theorem follows_onReport {t : SendFeedbackTracker} {p next : Nat} {call : Call}
    (real : ¬t.BeforeFirstPacket call.report)
    (reported : call.report.extendedHighestSeq = BitVec.ofNat 32 (next - p / 2 ^ 16 * 2 ^ 16)) :
    (t.onReport call).1.Follows p next := by
  refine ⟨?_, reported⟩
  change (t.havePrevious || !decide (t.BeforeFirstPacket call.report)) = true
  rw [decide_eq_false real, Bool.not_false, Bool.or_true]

theorem Follows.real {t : SendFeedbackTracker} {p highest : Nat} {report : ReceptionReport}
    (follows : t.Follows p highest) : ¬t.BeforeFirstPacket report := by
  rintro ⟨none, -⟩
  rw [follows.1] at none
  cases none

theorem Follows.packetsExpected_eq {t : SendFeedbackTracker} {p highest next : Nat} {report : ReceptionReport}
    (follows : t.Follows p highest) (received : p ≤ highest) (forward : highest ≤ next)
    (step : next ≤ highest + 30000)
    (reported : report.extendedHighestSeq = BitVec.ofNat 32 (next - p / 2 ^ 16 * 2 ^ 16)) :
    t.packetsExpected report = next - highest := by
  unfold packetsExpected
  rw [if_neg follows.real, if_pos follows.1, follows.2, reported, BitVec.toNat_ofNat, BitVec.toNat_ofNat]
  dsimp only
  split_ifs <;> omega

/-- Behind a report, the intervals add up to the packets that came since. -/
theorem Follows.totalExpected_eq {t : SendFeedbackTracker} {p highest last : Nat} {calls : List Call}
    (follows : t.Follows p highest) (received : p ≤ highest)
    (receiver : FromReceiver p highest calls last) : t.totalExpected calls = last - highest := by
  induction receiver generalizing t with
  | nil => exact (Nat.sub_self _).symm
  | @cons highest next last call rest forward step arrived reported later ih =>
    have rest := ih (follows_onReport follows.real reported) arrived
    have least := later.le
    rw [totalExpected_cons, rest, follows.packetsExpected_eq received forward step reported]
    omega

/-- A tracker that waits for the first packet of a track that starts at `F`. -/
def Waits (t : SendFeedbackTracker) (F : Nat) : Prop :=
  t.havePrevious = false ∧ t.haveFirstSequence = true ∧ t.firstSequence = BitVec.ofNat 16 F

theorem Waits.setFirstSequence (t : SendFeedbackTracker) (F : Nat) :
    (t.setFirstSequence (BitVec.ofNat 16 F)).Waits F := ⟨rfl, rfl, rfl⟩

theorem Waits.onReport {t : SendFeedbackTracker} {F : Nat} {call : Call} (waits : t.Waits F)
    (nothing : SaysNothing call.report) : (t.onReport call).1.Waits F := by
  refine ⟨?_, waits.2.1, waits.2.2⟩
  change (t.havePrevious || !decide (t.BeforeFirstPacket call.report)) = false
  rw [waits.1, decide_eq_true ⟨waits.1, nothing⟩]
  rfl

theorem Waits.totalExpected_append {t : SendFeedbackTracker} {F : Nat} {before calls : List Call} {total : Nat}
    (waits : t.Waits F) (nothing : ∀ call ∈ before, SaysNothing call.report)
    (later : ∀ s : SendFeedbackTracker, s.Waits F → s.totalExpected calls = total) :
    t.totalExpected (before ++ calls) = total := by
  induction before generalizing t with
  | nil => exact later t waits
  | cons call rest ih =>
    have first := nothing call List.mem_cons_self
    have none : t.packetsExpected call.report = 0 := if_pos ⟨waits.1, first⟩
    rw [List.cons_append, totalExpected_cons, none, Nat.zero_add]
    exact ih (waits.onReport first) fun other member => nothing other (List.mem_cons_of_mem _ member)

/-- The first report with something to say counts from the track's first packet,
by 16 bits alone: the receiver's cycle count says nothing about the track's. -/
theorem Waits.packetsExpected_eq {t : SendFeedbackTracker} {F p next : Nat} {report : ReceptionReport}
    (waits : t.Waits F) (real : ¬SaysNothing report) (forward : F ≤ next) (step : next ≤ F + 30000)
    (received : p ≤ next)
    (reported : report.extendedHighestSeq = BitVec.ofNat 32 (next - p / 2 ^ 16 * 2 ^ 16)) :
    t.packetsExpected report = next - F + 1 := by
  unfold packetsExpected
  rw [if_neg fun before => real before.2, if_neg (by rw [waits.1]; decide), if_pos waits.2.1, waits.2.2,
    reported, BitVec.toNat_ofNat, BitVec.toNat_ofNat]
  dsimp only
  split_ifs <;> omega

theorem Waits.totalExpected_eq {t : SendFeedbackTracker} {F p last : Nat} {call : Call} {rest : List Call}
    (waits : t.Waits F) (real : ¬SaysNothing call.report)
    (receiver : FromReceiver p F (call :: rest) last) :
    t.totalExpected (call :: rest) = last + 1 - F := by
  cases receiver with
  | @cons _ next _ _ _ forward step received reported later =>
    have follows := follows_onReport (fun before => real before.2 : ¬t.BeforeFirstPacket call.report) reported
    have least := later.le
    rw [totalExpected_cons, follows.totalExpected_eq received later,
      waits.packetsExpected_eq real forward step received reported]
    omega

/-- The intervals of a track add up to the packets from its first sequence to the
last one reported. The counts of every report are those of unbounded integers, and
the lost are some of the expected. -/
theorem intervals_telescope {F p last : Nat} {before rest : List Call} {call : Call}
    (nothing : ∀ other ∈ before, SaysNothing other.report) (real : ¬SaysNothing call.report)
    (receiver : FromReceiver p F (call :: rest) last) (t : SendFeedbackTracker) :
    (t.setFirstSequence (BitVec.ofNat 16 F)).totalExpected (before ++ call :: rest) = last + 1 - F ∧
      ∀ (s : SendFeedbackTracker) (any : Call),
        (s.onReport any).2.intervalLost.toNat ≤ (s.onReport any).2.intervalExpected.toNat ∧
          (s.onReport any).2.intervalExpected.toNat = s.packetsExpected any.report ∧
          ((s.onReport any).2.intervalLost.toNat : Int) = s.packetsLost any.report := by
  constructor
  · exact (Waits.setFirstSequence t F).totalExpected_append nothing
      fun s waits => waits.totalExpected_eq real receiver
  · intro s any
    have expected : (s.onReport any).2.intervalExpected.toNat = s.packetsExpected any.report :=
      s.interval_expected any.report
    have lost : ((s.onReport any).2.intervalLost.toNat : Int) = s.packetsLost any.report :=
      s.lostOf_eq any.report
    have bound := (s.packetsLost_bounds any.report).2
    exact ⟨by omega, expected, lost⟩

/-- A track from 65534 on, whose second packet is the first that arrives; a report
from before it, then one in each cycle. -/
theorem intervals_telescope_two :
    ((({} : SendFeedbackTracker).setFirstSequence (BitVec.ofNat 16 65534)).totalExpected
        ([⟨{}, 0, 0⟩] ++ ⟨{ extendedHighestSeq := 65535, cumulativeLost := 1 }, 0, 0⟩ ::
          [⟨{ extendedHighestSeq := 65540 }, 0, 0⟩]) = 65540 + 1 - 65534) ∧
      ∀ (s : SendFeedbackTracker) (any : Call),
        (s.onReport any).2.intervalLost.toNat ≤ (s.onReport any).2.intervalExpected.toNat ∧
          (s.onReport any).2.intervalExpected.toNat = s.packetsExpected any.report ∧
          ((s.onReport any).2.intervalLost.toNat : Int) = s.packetsLost any.report :=
  @intervals_telescope 65534 65535 65540 _ _ _ (by decide) (by decide)
    (@FromReceiver.cons _ _ 65535 _ _ _ (by decide) (by decide) (by decide) rfl
      (@FromReceiver.cons _ _ 65540 _ _ _ (by decide) (by decide) (by decide) rfl .nil)) _

end SendFeedbackTracker

end Mello.Transport.SendFeedback
