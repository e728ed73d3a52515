import Mello.Transport.SenderIdrFlag

/-!
RTP timestamps of capture times. The sender converts the microseconds since the first frame to ticks of
90 kHz, also for audio that was captured before the first frame.
-/

namespace Mello.Transport.CaptureTimes
open Mello.Library Runs RtpVideoSender State SenderChain SenderIdrFlag

/-! ## The computation on 64-bit words -/

/-- `capture_elapsed_to_rtp_ticks` on the machine's words. -/
def captureElapsedToRtpTicksWords (elapsedUs : BitVec 64) : BitVec 32 :=
  let wholeSeconds := elapsedUs / 1000000#64
  let fractionalUs := elapsedUs % 1000000#64
  let wholeTicks := wholeSeconds % 0x100000000#64 * 90000#64 % 0x100000000#64
  let fractionalTicks := (fractionalUs * 90000#64 + 1000000#64 / 2#64) / 1000000#64
  ((wholeTicks + fractionalTicks) % 0x100000000#64).setWidth 32

/-- The products and the sums of the computation fit 64 bits. -/
structure Fits (elapsedUs : ℕ) : Prop where
  whole : elapsedUs / kMicrosPerSecond % 2 ^ 32 * kVideoClockRate < 2 ^ 64
  fraction : elapsedUs % kMicrosPerSecond * kVideoClockRate + kMicrosPerSecond / 2 < 2 ^ 64
  sum : elapsedUs / kMicrosPerSecond % 2 ^ 32 * kVideoClockRate % 2 ^ 32 +
    (elapsedUs % kMicrosPerSecond * kVideoClockRate + kMicrosPerSecond / 2) / kMicrosPerSecond < 2 ^ 64

theorem fits (elapsedUs : ℕ) : Fits elapsedUs := by
  have seconds := Nat.mod_lt (elapsedUs / kMicrosPerSecond) (by decide : 0 < 2 ^ 32)
  have micros := Nat.mod_lt elapsedUs (by decide : 0 < kMicrosPerSecond)
  have ticks := Nat.mod_lt (elapsedUs / kMicrosPerSecond % 2 ^ 32 * kVideoClockRate) (by decide : 0 < 2 ^ 32)
  constructor
  all_goals
    unfold kMicrosPerSecond kVideoClockRate at *
    omega

theorem toNat_wholeTicks (elapsedUs : BitVec 64) :
    (elapsedUs / 1000000#64 % 0x100000000#64 * 90000#64 % 0x100000000#64).toNat =
      elapsedUs.toNat / kMicrosPerSecond % 2 ^ 32 * kVideoClockRate % 2 ^ 32 := by
  rw [BitVec.toNat_umod, BitVec.toNat_mul, BitVec.toNat_umod, BitVec.toNat_udiv]
  exact congrArg (· % 4294967296) (Nat.mod_eq_of_lt (fits elapsedUs.toNat).whole)

theorem toNat_fractionalTicks (elapsedUs : BitVec 64) :
    ((elapsedUs % 1000000#64 * 90000#64 + 1000000#64 / 2#64) / 1000000#64).toNat =
      (elapsedUs.toNat % kMicrosPerSecond * kVideoClockRate + kMicrosPerSecond / 2) / kMicrosPerSecond := by
  have sum : elapsedUs.toNat % 1000000 * 90000 + 500000 < 2 ^ 64 := (fits elapsedUs.toNat).fraction
  have product : (elapsedUs % 1000000#64 * 90000#64).toNat = elapsedUs.toNat % 1000000 * 90000 := by
    rw [BitVec.toNat_mul, BitVec.toNat_umod]
    exact Nat.mod_eq_of_lt (lt_of_le_of_lt (Nat.le_add_right _ _) sum)
  have half : (1000000#64 / 2#64).toNat = 500000 := rfl
  rw [BitVec.toNat_udiv, BitVec.toNat_add, product, half, Nat.mod_eq_of_lt sum]
  rfl

theorem captureElapsedToRtpTicksWords_eq (elapsedUs : BitVec 64) :
    captureElapsedToRtpTicksWords elapsedUs = captureElapsedToRtpTicks elapsedUs.toNat := by
  have sum := (fits elapsedUs.toNat).sum
  have once (n : ℕ) : n % (0x100000000 % 2 ^ 64) % 2 ^ 32 = n % 2 ^ 32 := Nat.mod_mod n _
  apply BitVec.eq_of_toNat_eq
  unfold captureElapsedToRtpTicksWords captureElapsedToRtpTicks
  dsimp only
  rw [BitVec.toNat_setWidth, BitVec.toNat_umod, BitVec.toNat_add, toNat_wholeTicks, toNat_fractionalTicks, Nat.mod_eq_of_lt sum,
    BitVec.toNat_ofNat, once, BitVec.toNat_ofNat]

/-! ## Rounding -/

/-- The ticks of an elapsed time, half a tick up. -/
def ticks (elapsedUs : ℕ) : ℕ := (elapsedUs * kVideoClockRate + kMicrosPerSecond / 2) / kMicrosPerSecond

theorem round_eq_ticks (elapsedUs : ℕ) : round ((elapsedUs : ℚ) * kVideoClockRate / kMicrosPerSecond) = (ticks elapsedUs : ℤ) := by
  unfold ticks kVideoClockRate kMicrosPerSecond
  have low := Nat.div_mul_le_self (elapsedUs * 90000 + 1000000 / 2) 1000000
  have high := Nat.lt_div_mul_add (a := elapsedUs * 90000 + 1000000 / 2) (by decide : 0 < 1000000)
  generalize (elapsedUs * 90000 + 1000000 / 2) / 1000000 = n at low high
  rw [round_eq, Int.floor_eq_iff]
  have lowRat : (n : ℚ) * 1000000 ≤ elapsedUs * 90000 + 500000 := by exact_mod_cast low
  have highRat : (elapsedUs : ℚ) * 90000 + 500000 < n * 1000000 + 1000000 := by exact_mod_cast high
  push_cast
  constructor <;> linarith

/-- Reducing the seconds and the fraction on their own gives the ticks modulo 2^32. -/
theorem captureElapsedToRtpTicks_eq (elapsedUs : ℕ) : captureElapsedToRtpTicks elapsedUs = BitVec.ofNat 32 (ticks elapsedUs) := by
  have whole : ticks elapsedUs = elapsedUs / kMicrosPerSecond * kVideoClockRate +
      (elapsedUs % kMicrosPerSecond * kVideoClockRate + kMicrosPerSecond / 2) / kMicrosPerSecond := by
    unfold ticks kVideoClockRate kMicrosPerSecond
    omega
  rw [captureElapsedToRtpTicks, whole]
  apply BitVec.eq_of_toNat_eq
  rw [BitVec.toNat_ofNat, BitVec.toNat_ofNat, Nat.mod_add_mod, Nat.add_mod, Nat.mod_mul_mod, ← Nat.add_mod]

/-- The ticks are within half a tick of 0.09 times the time. -/
theorem ticks_near (elapsedUs : ℕ) : 9 * elapsedUs ≤ 100 * ticks elapsedUs + 50 ∧ 100 * ticks elapsedUs ≤ 9 * elapsedUs + 50 := by
  unfold ticks kVideoClockRate kMicrosPerSecond
  omega

/-! ## The clock of the sender -/

/-- The timestamp of a capture time, also of one before the first frame. -/
def rtpTimestampForCaptureUs (s : State) (captureUs : ℕ) : Option (BitVec 32) :=
  if s.timestampInitialized = false then none
  else
    let first := s.firstCaptureTimestampUs
    if first ≤ captureUs then some (s.rtpStartTimestamp + captureElapsedToRtpTicks (captureUs - first))
    else some (s.rtpStartTimestamp - captureElapsedToRtpTicks (first - captureUs))

/-- What timestamps depend on. -/
structure Clock where
  rtpStartTimestamp : BitVec 32
  timestampInitialized : Bool
  firstCaptureTimestampUs : ℕ
  lastCaptureTimestampUs : ℕ

def clockOf (s : State) : Clock where
  rtpStartTimestamp := s.rtpStartTimestamp
  timestampInitialized := s.timestampInitialized
  firstCaptureTimestampUs := s.firstCaptureTimestampUs
  lastCaptureTimestampUs := s.lastCaptureTimestampUs

section Clock

variable {s t : State}

theorem clockOf_sendAll (nowUs : Int) (media : List MediaPacket) (sends : List Bool) (s : State) :
    clockOf (sendAll nowUs media sends s) = clockOf s := by
  induction media generalizing sends s with
  | nil => rfl
  | cons media rest ih =>
    rw [sendAll, ih]
    split <;> rfl

theorem clockOf_packetizeNext (outcome : Packetizing) (keepalive : Bool) (s : State) :
    clockOf (s.packetizeNext outcome keepalive).1 = clockOf s := by
  unfold packetizeNext
  split
  · rfl
  · split <;> rfl

theorem clockOf_keepalive (nowUs : Int) (outcome : Packetizing) (sends : List Bool) (s : State) :
    clockOf (s.keepalive nowUs outcome sends).1 = clockOf s := by
  unfold keepalive
  dsimp only
  split_ifs
  · rfl
  · rfl
  · rfl
  · change clockOf (sendAll nowUs _ sends _) = _
    rw [clockOf_sendAll, clockOf_packetizeNext]
    rfl

theorem clockOf_sendMedia (nowUs : Int) (sent : Bool) (s : State) : clockOf (s.sendMedia nowUs sent) = clockOf s := by
  unfold sendMedia
  split
  · rfl
  · dsimp only
    split <;> rfl

/-- Only an accepted frame moves the clock. -/
theorem sendAccessUnit_clock (s : State) (annexB : List Twcc.Byte) (captureTimestampUs : ℕ) (nowUs : Int) (trackIsOpen : Bool) :
    let answer := s.sendAccessUnit annexB captureTimestampUs nowUs trackIsOpen
    ((∀ unit, .offered unit .accepted ∉ answer.2.2) ∧ clockOf answer.1 = clockOf s) ∨
      ((s.timestampInitialized = true → s.lastCaptureTimestampUs ≤ captureTimestampUs) ∧
        clockOf answer.1 = clockOf (s.stampCapture captureTimestampUs) ∧
        answer.2.2 = [.offered (s.unitOf annexB (AnnexB.inspectAnnexBAccessUnit annexB).isIdr captureTimestampUs nowUs) .accepted]) := by
  intro answer
  have definition : answer = s.sendAccessUnit annexB captureTimestampUs nowUs trackIsOpen := rfl
  rw [sendAccessUnit] at definition
  dsimp only at definition
  have refused {offered : AccessUnit} (rest : List Event) (other : ∀ unit, .offered unit .accepted ∉ rest) (unit : AccessUnit) :
      .offered unit .accepted ∉ .offered offered .backpressure :: rest := by
    intro member
    rcases List.mem_cons.mp member with same | later
    · cases same
    · exact other unit later
  have request (shut : Prop) [Decidable shut] (unit : AccessUnit) :
      .offered unit .accepted ∉ if shut then [] else [Event.localIdrNeeded] := by
    split_ifs
    · exact List.not_mem_nil
    · intro member
      cases List.mem_singleton.mp member
  split_ifs at definition with closed late gate bound oversize kind
  · exact .inl (definition ▸ ⟨fun _ => List.not_mem_nil, rfl⟩)
  · exact .inl (definition ▸ ⟨fun _ => List.not_mem_nil, rfl⟩)
  · exact .inl (definition ▸ ⟨refused [] fun _ => List.not_mem_nil, rfl⟩)
  · rw [definition, overflow_spec]
    exact .inl ⟨refused _ (request _), rfl⟩
  · rw [definition, overflow_spec]
    exact .inl ⟨refused _ (request _), rfl⟩
  · refine .inr ⟨fun initialized => not_lt.mp fun early => late ⟨initialized, early⟩, ?_, congrArg (·.2.2) definition⟩
    rw [definition]
    unfold pushIdr
    dsimp only
    split <;> rfl
  · refine .inr ⟨fun initialized => not_lt.mp fun early => late ⟨initialized, early⟩, ?_, congrArg (·.2.2) definition⟩
    rw [definition]
    rfl

/-- A step keeps the clock, or it is a frame that was accepted. -/
theorem step_clock {move : Step} {events : List Event} (stepped : step s move = some (t, events)) :
    clockOf t = clockOf s ∨ ∃ annexB captureTimestampUs nowUs trackIsOpen,
      move = .sendAccessUnit annexB captureTimestampUs nowUs trackIsOpen ∧
      (s.timestampInitialized = true → s.lastCaptureTimestampUs ≤ captureTimestampUs) ∧
      clockOf t = clockOf (s.stampCapture captureTimestampUs) := by
  cases move with
  | sendAccessUnit annexB captureTimestampUs nowUs trackIsOpen =>
    cases stepped
    rcases sendAccessUnit_clock s annexB captureTimestampUs nowUs trackIsOpen with ⟨-, same⟩ | ⟨later, stamped, -⟩
    · exact .inl same
    · exact .inr ⟨annexB, captureTimestampUs, nowUs, trackIsOpen, rfl, later, stamped⟩
  | checkFeedbackTimeout nowUs =>
    cases stepped
    left
    unfold checkFeedbackTimeout
    split <;> rfl
  | drainReport =>
    obtain rfl : s.drainReport.1 = t := congrArg Prod.fst (Option.some.inj stepped)
    left
    unfold drainReport resumeAfterOutage
    dsimp only
    split_ifs <;> rfl
  | packetizeNext outcome =>
    unfold step at stepped
    dsimp only at stepped
    split_ifs at stepped
    obtain rfl : (s.packetizeNext outcome false).1 = t := congrArg Prod.fst (Option.some.inj stepped)
    exact .inl (clockOf_packetizeNext outcome false s)
  | sendMedia nowUs sent =>
    unfold step at stepped
    dsimp only at stepped
    split_ifs at stepped
    cases stepped
    exact .inl (clockOf_sendMedia nowUs sent s)
  | sendOther nowUs sent =>
    unfold step at stepped
    dsimp only at stepped
    split_ifs at stepped
    cases stepped
    exact .inl rfl
  | keepalive nowUs outcome sends =>
    unfold step at stepped
    dsimp only at stepped
    split_ifs at stepped
    obtain rfl : (s.keepalive nowUs outcome sends).1 = t := congrArg Prod.fst (Option.some.inj stepped)
    exact .inl (clockOf_keepalive nowUs outcome sends s)

/-- The first frame is not later than the last one. -/
def Clock.Ordered (clock : Clock) : Prop :=
  clock.timestampInitialized = true → clock.firstCaptureTimestampUs ≤ clock.lastCaptureTimestampUs

theorem ordered_stampCapture (ordered : (clockOf s).Ordered) {captureTimestampUs : ℕ}
    (later : s.timestampInitialized = true → s.lastCaptureTimestampUs ≤ captureTimestampUs) :
    (clockOf (s.stampCapture captureTimestampUs)).Ordered := by
  intro _
  change (if s.timestampInitialized then s.firstCaptureTimestampUs else captureTimestampUs) ≤ captureTimestampUs
  split_ifs with initialized
  · exact (ordered initialized).trans (later initialized)
  · exact le_rfl

theorem ordered_step {move : Step} {events : List Event} (ordered : (clockOf s).Ordered)
    (stepped : step s move = some (t, events)) : (clockOf t).Ordered := by
  rcases step_clock stepped with same | ⟨annexB, captureTimestampUs, nowUs, trackIsOpen, -, later, stamped⟩
  · exact same ▸ ordered
  · exact stamped ▸ ordered_stampCapture ordered later

theorem timestamp_congr (same : clockOf t = clockOf s) : rtpTimestampForCaptureUs t = rtpTimestampForCaptureUs s := by
  funext captureUs
  have start : t.rtpStartTimestamp = s.rtpStartTimestamp := congrArg Clock.rtpStartTimestamp same
  have initialized : t.timestampInitialized = s.timestampInitialized := congrArg Clock.timestampInitialized same
  have first : t.firstCaptureTimestampUs = s.firstCaptureTimestampUs := congrArg Clock.firstCaptureTimestampUs same
  unfold rtpTimestampForCaptureUs
  rw [start, initialized, first]

/-- A later frame leaves the timestamps as they are. -/
theorem timestamp_stampCapture (initialized : s.timestampInitialized = true) (captureTimestampUs : ℕ) :
    rtpTimestampForCaptureUs (s.stampCapture captureTimestampUs) = rtpTimestampForCaptureUs s := by
  funext captureUs
  have first : (s.stampCapture captureTimestampUs).firstCaptureTimestampUs = s.firstCaptureTimestampUs := if_pos initialized
  unfold rtpTimestampForCaptureUs
  rw [first, initialized]
  rfl

/-- After the first frame, a capture time keeps its timestamp. -/
theorem step_keeps {move : Step} {events : List Event} (initialized : s.timestampInitialized = true)
    (stepped : step s move = some (t, events)) :
    t.timestampInitialized = true ∧ rtpTimestampForCaptureUs t = rtpTimestampForCaptureUs s := by
  rcases step_clock stepped with same | ⟨annexB, captureTimestampUs, nowUs, trackIsOpen, -, -, stamped⟩
  · exact ⟨(congrArg Clock.timestampInitialized same).trans initialized, timestamp_congr same⟩
  · exact ⟨congrArg Clock.timestampInitialized stamped,
      (timestamp_congr stamped).trans (timestamp_stampCapture initialized captureTimestampUs)⟩

/-- The frame's own timestamp is the one of its capture time, before and after the frame. -/
theorem unitOf_timestamp (annexB : List Twcc.Byte) (isIdr : Bool) {captureTimestampUs : ℕ} (nowUs : Int)
    (ordered : (clockOf s).Ordered) (later : s.timestampInitialized = true → s.lastCaptureTimestampUs ≤ captureTimestampUs) :
    let stamp := some (s.unitOf annexB isIdr captureTimestampUs nowUs).rtpTimestamp
    rtpTimestampForCaptureUs (s.stampCapture captureTimestampUs) captureTimestampUs = stamp ∧
      (s.timestampInitialized = true → rtpTimestampForCaptureUs s captureTimestampUs = stamp) := by
  intro stamp
  cases initialized : s.timestampInitialized with
  | true =>
    have after : s.firstCaptureTimestampUs ≤ captureTimestampUs := (ordered initialized).trans (later initialized)
    have known : rtpTimestampForCaptureUs s captureTimestampUs = stamp := by
      unfold rtpTimestampForCaptureUs stamp unitOf
      rw [initialized, if_neg Bool.true_eq_false.mp, if_pos after, if_pos rfl]
    rw [timestamp_stampCapture initialized]
    exact ⟨known, fun _ => known⟩
  | false =>
    refine ⟨?_, nofun⟩
    have first : (s.stampCapture captureTimestampUs).firstCaptureTimestampUs = captureTimestampUs := by
      change (if s.timestampInitialized then s.firstCaptureTimestampUs else captureTimestampUs) = captureTimestampUs
      rw [initialized, if_neg Bool.false_ne_true]
    have zero : captureElapsedToRtpTicks 0 = 0#32 := rfl
    unfold rtpTimestampForCaptureUs stamp unitOf
    rw [first, initialized, if_pos le_rfl, Nat.sub_self, zero, BitVec.add_zero]
    rfl

/-- What a frame that is accepted carries is what its capture time has from then on. -/
theorem accepted_timestamp {annexB : List Twcc.Byte} {captureTimestampUs : ℕ} {nowUs : Int} {trackIsOpen : Bool}
    {events : List Event} {unit : AccessUnit} (ordered : (clockOf s).Ordered)
    (stepped : step s (.sendAccessUnit annexB captureTimestampUs nowUs trackIsOpen) = some (t, events))
    (accepted : .offered unit .accepted ∈ events) :
    t.timestampInitialized = true ∧ rtpTimestampForCaptureUs t captureTimestampUs = some unit.rtpTimestamp ∧
      (s.timestampInitialized = true → rtpTimestampForCaptureUs s captureTimestampUs = some unit.rtpTimestamp) := by
  obtain ⟨rfl, rfl⟩ := Prod.mk.inj (Option.some.inj stepped)
  rcases sendAccessUnit_clock s annexB captureTimestampUs nowUs trackIsOpen with ⟨refused, -⟩ | ⟨later, stamped, offered⟩
  · exact absurd accepted (refused unit)
  · have same := List.mem_singleton.mp (offered ▸ accepted)
    cases same
    obtain ⟨after, before⟩ := unitOf_timestamp annexB (AnnexB.inspectAnnexBAccessUnit annexB).isIdr nowUs ordered later
    exact ⟨congrArg Clock.timestampInitialized stamped, timestamp_congr stamped ▸ after, before⟩

/-- Some steps lead from one state to the other. -/
def Reaches (s t : State) : Prop := ∃ steps, run next s steps = some t

theorem Reaches.ordered (reaches : Reaches s t) (ordered : (clockOf s).Ordered) : (clockOf t).Ordered := by
  obtain ⟨steps, ran⟩ := reaches
  refine run_invariant (fun s => (clockOf s).Ordered) ?_ ordered ran
  intro move _ s t ordered moved
  obtain ⟨⟨t, events⟩, stepped, rfl⟩ := Option.map_eq_some_iff.mp moved
  exact ordered_step ordered stepped

theorem Reaches.keeps (reaches : Reaches s t) (initialized : s.timestampInitialized = true) :
    rtpTimestampForCaptureUs t = rtpTimestampForCaptureUs s := by
  obtain ⟨steps, ran⟩ := reaches
  have kept : t.timestampInitialized = true ∧ rtpTimestampForCaptureUs t = rtpTimestampForCaptureUs s := by
    refine run_invariant (fun t => t.timestampInitialized = true ∧ rtpTimestampForCaptureUs t = rtpTimestampForCaptureUs s) ?_
      ⟨initialized, rfl⟩ ran
    intro move _ t u ⟨present, same⟩ moved
    obtain ⟨⟨u, events⟩, stepped, rfl⟩ := Option.map_eq_some_iff.mp moved
    obtain ⟨still, kept⟩ := step_keeps present stepped
    exact ⟨still, kept.trans same⟩
  exact kept.2

end Clock

/-! ## Two capture times -/

/-- The ticks from the first frame to a capture time. -/
def ticksAt (first captureUs : ℕ) : ℤ :=
  if first ≤ captureUs then (ticks (captureUs - first) : ℤ) else -(ticks (first - captureUs) : ℤ)

theorem rtpTimestampForCaptureUs_eq {s : State} (initialized : s.timestampInitialized = true) (captureUs : ℕ) :
    rtpTimestampForCaptureUs s captureUs =
      some (s.rtpStartTimestamp + BitVec.ofInt 32 (ticksAt s.firstCaptureTimestampUs captureUs)) := by
  unfold rtpTimestampForCaptureUs ticksAt
  rw [initialized, if_neg Bool.true_eq_false.mp]
  dsimp only
  split_ifs
  · rw [captureElapsedToRtpTicks_eq, BitVec.ofInt_natCast]
  · rw [captureElapsedToRtpTicks_eq, BitVec.ofInt_neg, BitVec.ofInt_natCast, BitVec.sub_eq_add_neg]

/-- On either side of the first frame the ticks follow the time, within a tick. -/
theorem ticksAt_near (first a b : ℕ) : |100 * (ticksAt first b - ticksAt first a) - 9 * ((b : ℤ) - a)| ≤ 100 := by
  have side (captureUs : ℕ) : |100 * ticksAt first captureUs - 9 * ((captureUs : ℤ) - first)| ≤ 50 := by
    unfold ticksAt
    split_ifs with after
    · obtain ⟨low, high⟩ := ticks_near (captureUs - first)
      rw [abs_le]
      omega
    · obtain ⟨low, high⟩ := ticks_near (first - captureUs)
      rw [abs_le]
      omega
  calc |100 * (ticksAt first b - ticksAt first a) - 9 * ((b : ℤ) - a)|
      = |(100 * ticksAt first b - 9 * ((b : ℤ) - first)) - (100 * ticksAt first a - 9 * ((a : ℤ) - first))| := by ring_nf
    _ ≤ |100 * ticksAt first b - 9 * ((b : ℤ) - first)| + |100 * ticksAt first a - 9 * ((a : ℤ) - first)| := abs_sub _ _
    _ ≤ 100 := by linarith [side a, side b]

/-! ## What is claimed -/

/-- No overflow and exact rounding for every 64-bit time; the timestamp of every accepted frame is the one of
its capture time, then and in every later state; and two capture times are as far apart in ticks as in time. -/
theorem capture_timestamps (controller rtx : Bool) (rtpStartTimestamp : BitVec 32) :
    (∀ elapsedUs : BitVec 64, Fits elapsedUs.toNat ∧ captureElapsedToRtpTicksWords elapsedUs =
      BitVec.ofInt 32 (round ((elapsedUs.toNat : ℚ) * kVideoClockRate / kMicrosPerSecond))) ∧
    (∀ (s t u : State) (annexB : List Twcc.Byte) (captureUs : ℕ) (nowUs : Int) (trackIsOpen : Bool) (events : List Event)
      (unit : AccessUnit), Reaches (start controller rtx rtpStartTimestamp) s →
      step s (.sendAccessUnit annexB captureUs nowUs trackIsOpen) = some (t, events) → .offered unit .accepted ∈ events → Reaches t u →
      (s.timestampInitialized = true → rtpTimestampForCaptureUs s captureUs = some unit.rtpTimestamp) ∧
        rtpTimestampForCaptureUs u captureUs = some unit.rtpTimestamp) ∧
    ∀ s : State, s.timestampInitialized = true → ∀ a b : ℕ, ∃ (x y : BitVec 32) (n : ℤ), rtpTimestampForCaptureUs s a = some x ∧
      rtpTimestampForCaptureUs s b = some y ∧ y - x = BitVec.ofInt 32 n ∧ |(n : ℚ) - 9 / 100 * ((b : ℚ) - a)| ≤ 1 := by
  refine ⟨?_, ?_, ?_⟩
  · intro elapsedUs
    rw [captureElapsedToRtpTicksWords_eq, captureElapsedToRtpTicks_eq, round_eq_ticks, BitVec.ofInt_natCast]
    exact ⟨fits _, rfl⟩
  · intro s t u annexB captureUs nowUs trackIsOpen events unit reached stepped accepted later
    have ordered := reached.ordered (nofun : (clockOf (start controller rtx rtpStartTimestamp)).Ordered)
    obtain ⟨initialized, after, before⟩ := accepted_timestamp ordered stepped accepted
    rw [later.keeps initialized]
    exact ⟨before, after⟩
  · intro s initialized a b
    refine ⟨_, _, ticksAt s.firstCaptureTimestampUs b - ticksAt s.firstCaptureTimestampUs a,
      rtpTimestampForCaptureUs_eq initialized a, rtpTimestampForCaptureUs_eq initialized b, ?_, ?_⟩
    · rw [add_sub_add_left_eq_sub, Serial.ofInt_sub]
    · have near : |(100 : ℚ) * (ticksAt s.firstCaptureTimestampUs b - ticksAt s.firstCaptureTimestampUs a) - 9 * ((b : ℚ) - a)| ≤ 100 := by
        exact_mod_cast ticksAt_near s.firstCaptureTimestampUs a b
      rw [abs_le] at near ⊢
      push_cast
      constructor <;> linarith

/-- The first frame has the start. -/
theorem capture_timestamps_first :
    let first := (start true false 1000).sendAccessUnit [0, 0, 1, 0x65] 5000000 0 true
    rtpTimestampForCaptureUs first.1 5000000 = some 1000 := by
  intro first
  have accepted : .offered ((start true false 1000).unitOf [0, 0, 1, 0x65] true 5000000 0) .accepted ∈ first.2.2 := by
    decide +kernel
  exact ((capture_timestamps true false 1000).2.1 _ first.1 first.1 [0, 0, 1, 0x65] 5000000 0 true first.2.2 _ ⟨[], rfl⟩ rfl
    accepted ⟨[], rfl⟩).2

end Mello.Transport.CaptureTimes
