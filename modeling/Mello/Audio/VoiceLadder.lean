import Mello.Library.Runs

/-!
The voice encoder's adaptation to its send leg (`SendAdaptation`): the expected loss follows the
reports, and the bitrate takes one rung of a ladder, down on congestion and up on a clean time or
when a step down had no effect. Fractions and milliseconds are exact here.
-/

namespace Mello.Audio.VoiceLadder
open Mello.Library Runs

def kSendLadderKbps : List Int := [96, 64, 48, 32, 24]
def kSendMinKbps : Int := 24
def kSendMaxKbps : Int := 96
def kLossPercFloor : Int := 5
def kLossPercCap : Int := 30
def kDownWindowMs : Int := 2000
def kDownLoss : ℚ := 1 / 10
def kDownMinReports : Nat := 2
def kMinExpected : Nat := 25
def kCleanMs : Int := 10000
def kMinExpectedUp : Nat := 250
def kLossPercWindowMs : Int := 4000
def kShortWindowMs : Int := 3000
def kSingleSampleFactor : ℚ := 3
def kBaseWindowMs : Int := 30000
def kBaseMinSamples : Nat := 5
def kRttBaseMinMs : ℚ := 50
def kJitterBaseMinMs : ℚ := 10
def kStaleRttReports : Nat := 2
def kEffectiveWindowMs : Int := 4000
def kEffectiveFactor : ℚ := 1 / 2
def kHoldMs : Int := 30000
def kWindowSlackMs : Int := 500

structure Report where
  tMs : Int
  expected : Nat
  lost : Nat
  deriving DecidableEq, Repr

structure Sample where
  tMs : Int
  value : ℚ
  deriving DecidableEq, Repr

/-- `kNever`, which is no time of a report, is `none`. -/
structure SendAdaptation where
  rungs : List Int
  rung : Nat := 0
  lossPerc : Int := kLossPercFloor
  measuredLossPerc : Int := -1
  reports : List Report := []
  rtt : List Sample := []
  jitter : List Sample := []
  lastDownMs : Option Int := none
  reportsSinceDown : Nat := 0
  staleRttReports : Nat := 0
  checkStepMs : Option Int := none
  checkStepLoss : ℚ := 0
  holdUntilMs : Option Int := none
  cleanSinceMs : Option Int := none
  cleanExpected : Nat := 0
  windowLoss : ℚ := -1
  rungChanges : Nat := 0
  deriving DecidableEq, Repr

/-- Why the rung changes. -/
inductive Why where
  | ineffectiveStep
  | lossAndRtt
  | lossAndJitter
  | lossAndNoRoundTrip
  | clean
  deriving DecidableEq, Repr

def clamp (value low high : Int) : Int := max low (min value high)

/-! ## The ladder -/

def buildLadder (maxKbps : Int) : List Int :=
  let top := clamp maxKbps kSendMinKbps kSendMaxKbps
  top :: kSendLadderKbps.filter (· < top)

def SendAdaptation.bitrateKbps (a : SendAdaptation) : Int := a.rungs.getD a.rung 0

def sendAdaptation (maxKbps : Int) : SendAdaptation := { rungs := buildLadder maxKbps }

/-- The highest rung at or below a bitrate, or the last. -/
def settle (current : Int) : List Int → Nat
  | top :: next :: rest => if current < top then settle current (next :: rest) + 1 else 0
  | _ => 0

def setMaxKbps (a : SendAdaptation) (kbps : Int) : SendAdaptation :=
  let rungs := buildLadder kbps
  { a with rungs, rung := if a.rung = 0 then 0 else settle a.bitrateKbps rungs }

/-! ## The windows -/

def reportsAfter (fromMs : Int) (reports : List Report) : List Report := reports.filter (fromMs < ·.tMs)

def expectedOf (reports : List Report) : Nat := (reports.map Report.expected).sum

def lostOf (reports : List Report) : Nat := (reports.map Report.lost).sum

def lossOf (reports : List Report) : ℚ := lostOf reports / expectedOf reports

/-- `nth_element` at the middle. -/
def median (values : List ℚ) : ℚ :=
  let sorted := values.insertionSort (· ≤ ·)
  let mid := values.length / 2
  if values.length % 2 = 1 then sorted.getD mid 0 else (sorted.getD (mid - 1) 0 + sorted.getD mid 0) / 2

def inflated (samples : List Sample) (nowMs : Int) (baseMin : ℚ) (singleSample : Bool) : Bool :=
  let all := samples.map Sample.value
  let recent := (samples.filter (nowMs - kShortWindowMs + kWindowSlackMs < ·.tMs)).map Sample.value
  if all.length < kBaseMinSamples ∨ recent = [] then false
  else if recent.length = 1 ∧ singleSample = false then false
  else
    let base := max (median all) baseMin
    if recent.length = 1 then kSingleSampleFactor * base ≤ median recent else 2 * base < median recent

/-! ## A report -/

/-- The report and its samples, with what is too old gone. -/
def record (a : SendAdaptation) (nowMs : Int) (expected lost : Nat) (rttMs jitterMs : ℚ) : SendAdaptation :=
  let keepMs := max kDownWindowMs (max kLossPercWindowMs kEffectiveWindowMs)
  let fresh (samples : List Sample) := samples.dropWhile (·.tMs ≤ nowMs - kBaseWindowMs + kWindowSlackMs)
  { a with
    reports := (a.reports ++ [Report.mk nowMs expected (min lost expected)]).dropWhile (·.tMs ≤ nowMs - keepMs)
    rtt := fresh (if 0 ≤ rttMs then a.rtt ++ [Sample.mk nowMs rttMs] else a.rtt)
    staleRttReports := if 0 ≤ rttMs then 0 else a.staleRttReports + 1
    jitter := fresh (if 0 < expected ∧ 0 ≤ jitterMs then a.jitter ++ [Sample.mk nowMs jitterMs] else a.jitter)
    reportsSinceDown := a.reportsSinceDown + 1 }

/-- The expected loss of the encoder. -/
def followLoss (a : SendAdaptation) (nowMs : Int) : SendAdaptation :=
  let window := reportsAfter (nowMs - kLossPercWindowMs + kWindowSlackMs) a.reports
  if kMinExpected ≤ expectedOf window then
    let want := ⌈100 * lossOf window - 1 / 1000000000⌉
    { a with measuredLossPerc := want, lossPerc := clamp want kLossPercFloor kLossPercCap }
  else a

/-- The reports that count for a step down. -/
def downWindow (a : SendAdaptation) (nowMs : Int) : List Report :=
  let start := nowMs - kDownWindowMs + kWindowSlackMs
  reportsAfter (a.lastDownMs.elim start (max start)) a.reports

def measureLoss (a : SendAdaptation) (nowMs : Int) : SendAdaptation :=
  let window := downWindow a nowMs
  { a with windowLoss := if kMinExpected ≤ expectedOf window then lossOf window else -1 }

def holding (a : SendAdaptation) (nowMs : Int) : Bool := a.holdUntilMs.any (nowMs < ·)

def restartCleanTime (a : SendAdaptation) (nowMs : Int) : SendAdaptation :=
  { a with cleanSinceMs := some nowMs, cleanExpected := 0 }

def changeRung (a : SendAdaptation) (rung : Nat) (nowMs : Int) : SendAdaptation :=
  let stepped := if a.rung < rung then { a with rung, lastDownMs := some nowMs, reportsSinceDown := 0 } else { a with rung }
  { restartCleanTime stepped nowMs with rungChanges := (a.rungChanges + 1) % 2 ^ 32 }

/-- The loss since the last step down, when its effect is due. -/
def afterStep (a : SendAdaptation) (nowMs : Int) : Option ℚ :=
  a.checkStepMs.bind fun step =>
    let window := reportsAfter step a.reports
    if kEffectiveWindowMs - kWindowSlackMs ≤ nowMs - step ∧ kMinExpected ≤ expectedOf window then some (lossOf window) else none

def goBack (a : SendAdaptation) (nowMs : Int) : SendAdaptation × Option Why :=
  let held := { a with holdUntilMs := some (nowMs + kHoldMs) }
  if 0 < a.rung then (restartCleanTime (changeRung held (a.rung - 1) nowMs) nowMs, some .ineffectiveStep)
  else (restartCleanTime held nowMs, none)

def rttBad (a : SendAdaptation) (nowMs : Int) : Bool := inflated a.rtt nowMs kRttBaseMinMs true

def jitterBad (a : SendAdaptation) (nowMs : Int) : Bool := inflated a.jitter nowMs kJitterBaseMinMs false

def congested (a : SendAdaptation) (nowMs : Int) : Bool :=
  kDownLoss < a.windowLoss ∧ (rttBad a nowMs ∨ jitterBad a nowMs ∨ kStaleRttReports ≤ a.staleRttReports)

def evidence (a : SendAdaptation) (nowMs : Int) : Why :=
  if rttBad a nowMs then .lossAndRtt else if jitterBad a nowMs then .lossAndJitter else .lossAndNoRoundTrip

def freshDown (a : SendAdaptation) : Bool := a.lastDownMs = none ∨ kDownMinReports ≤ a.reportsSinceDown

def adapt (a : SendAdaptation) (nowMs : Int) (expected : Nat) : SendAdaptation × Option Why :=
  if congested a nowMs then
    if a.rung + 1 < a.rungs.length ∧ freshDown a = true ∧ holding a nowMs = false then
      let checked := { a with checkStepMs := some nowMs, checkStepLoss := a.windowLoss }
      (restartCleanTime (changeRung checked (a.rung + 1) nowMs) nowMs, some (evidence a nowMs))
    else (restartCleanTime a nowMs, none)
  else
    let since := a.cleanSinceMs.getD nowMs
    let counted := { a with cleanSinceMs := some since, cleanExpected := (a.cleanExpected + expected) % 2 ^ 64 }
    if 0 < a.rung ∧ holding a nowMs = false ∧ kCleanMs - kWindowSlackMs ≤ nowMs - since ∧
        kMinExpectedUp ≤ counted.cleanExpected then
      (changeRung counted (a.rung - 1) nowMs, some .clean)
    else (counted, none)

def onReport (a : SendAdaptation) (nowMs : Int) (expected lost : Nat) (rttMs jitterMs : ℚ) : SendAdaptation × Option Why :=
  let measured := measureLoss (followLoss (record a nowMs expected lost rttMs jitterMs) nowMs) nowMs
  match afterStep measured nowMs with
  | none => adapt measured nowMs expected
  | some loss =>
    let checked := { measured with checkStepMs := none }
    if loss ≤ kDownLoss ∨ loss ≤ kEffectiveFactor * measured.checkStepLoss then adapt checked nowMs expected
    else goBack checked nowMs

/-! ## Runs -/

inductive Call where
  | report (nowMs : Int) (expected lost : Nat) (rttMs jitterMs : ℚ)
  | setMaxKbps (kbps : Int)
  deriving DecidableEq, Repr

/-- A report, with the state before and after it and the reports that its step down counts. -/
structure Entry where
  nowMs : Int
  before : SendAdaptation
  after : SendAdaptation
  why : Option Why
  window : List Report

def Entry.down (entry : Entry) : Prop := entry.before.rung < entry.after.rung

structure State where
  adaptation : SendAdaptation
  maxKbps : Int
  log : List Entry := []

def start (maxKbps : Int) : State := { adaptation := sendAdaptation maxKbps, maxKbps }

/-- The times of the reports increase. -/
def step (s : State) : Call → Option State
  | .report nowMs expected lost rttMs jitterMs =>
    if ∀ entry ∈ s.log, entry.nowMs < nowMs then
      let (after, why) := onReport s.adaptation nowMs expected lost rttMs jitterMs
      let window := downWindow (record s.adaptation nowMs expected lost rttMs jitterMs) nowMs
      some { s with adaptation := after, log := s.log ++ [{ nowMs, before := s.adaptation, after, why, window }] }
    else none
  | .setMaxKbps kbps => some { s with adaptation := setMaxKbps s.adaptation kbps, maxKbps := kbps }

/-- A ladder from a top down to 24 kbps. -/
structure Ladder (top : Int) (rungs : List Int) : Prop where
  top : rungs.head? = some top
  bottom : rungs.getLast? = some kSendMinKbps
  falls : rungs.Pairwise (· > ·)

structure Disciplined (s : State) : Prop where
  ladder : Ladder (clamp s.maxKbps kSendMinKbps kSendMaxKbps) s.adaptation.rungs
  inRange : s.adaptation.rung < s.adaptation.rungs.length
  lossPerc : kLossPercFloor ≤ s.adaptation.lossPerc ∧ s.adaptation.lossPerc ≤ kLossPercCap
  byOne : ∀ entry ∈ s.log, entry.after.rung ≤ entry.before.rung + 1 ∧ entry.before.rung ≤ entry.after.rung + 1
  apart : ∀ before first between second after, s.log = before ++ first :: between ++ second :: after →
    first.down → second.down →
      kDownMinReports ≤ (between ++ [second]).length ∧ ∀ report ∈ first.window, report ∉ second.window
  held : ∀ entry ∈ s.log, holding entry.before entry.nowMs = true ∨ holding entry.after entry.nowMs = true →
    ¬ entry.down ∧ entry.why ≠ some .clean

/-! ## The ladder's shape -/

theorem clamp_bounds {low high : Int} (ordered : low ≤ high) (value : Int) : low ≤ clamp value low high ∧ clamp value low high ≤ high :=
  ⟨le_max_left _ _, max_le ordered (min_le_right _ _)⟩

theorem ladder_buildLadder (maxKbps : Int) : Ladder (clamp maxKbps kSendMinKbps kSendMaxKbps) (buildLadder maxKbps) := by
  have bounds := clamp_bounds (by decide : kSendMinKbps ≤ kSendMaxKbps) maxKbps
  have falls : (kSendLadderKbps.filter (· < clamp maxKbps kSendMinKbps kSendMaxKbps)).Pairwise (· > ·) :=
    List.Pairwise.filter _ (by decide)
  unfold buildLadder
  generalize clamp maxKbps kSendMinKbps kSendMaxKbps = top at bounds falls
  refine ⟨rfl, ?_, ?_⟩
  · dsimp only
    rcases eq_or_lt_of_le bounds.1 with rfl | above
    · decide
    · have last : kSendLadderKbps = [96, 64, 48, 32] ++ [kSendMinKbps] := rfl
      have kept : [kSendMinKbps].filter (· < top) = [kSendMinKbps] := List.filter_cons_of_pos (decide_eq_true above)
      rw [last, List.filter_append, kept, ← List.cons_append]
      exact List.getLast?_concat
  · dsimp only
    refine List.pairwise_cons.mpr ⟨fun rung member => ?_, falls⟩
    exact of_decide_eq_true (List.mem_filter.mp member).2

theorem settle_lt (current : Int) {rungs : List Int} (some : rungs ≠ []) : settle current rungs < rungs.length := by
  induction rungs with
  | nil => exact absurd rfl some
  | cons top rest ih =>
    cases rest with
    | nil => exact Nat.zero_lt_one
    | cons next rest =>
      unfold settle
      split_ifs
      · exact Nat.succ_lt_succ (ih (List.cons_ne_nil next rest))
      · exact Nat.zero_lt_succ _

theorem setMaxKbps_inRange (a : SendAdaptation) (kbps : Int) : (setMaxKbps a kbps).rung < (setMaxKbps a kbps).rungs.length := by
  change (if a.rung = 0 then 0 else settle a.bitrateKbps (buildLadder kbps)) < (buildLadder kbps).length
  split_ifs
  · exact Nat.zero_lt_succ _
  · exact settle_lt _ (List.cons_ne_nil _ _)

/-! ## What a report does -/

/-- What no report changes, or only by what it brings. -/
structure Framed (a b : SendAdaptation) : Prop where
  rungs : b.rungs = a.rungs
  lossPerc : b.lossPerc = a.lossPerc
  reports : b.reports = a.reports

/-- A step down on fresh evidence. -/
structure Lowered (a b : SendAdaptation) (nowMs : Int) : Prop where
  room : a.rung + 1 < a.rungs.length
  fresh : freshDown a = true
  free : holding a nowMs = false
  rung : b.rung = a.rung + 1
  lastDownMs : b.lastDownMs = some nowMs
  reportsSinceDown : b.reportsSinceDown = 0
  holdUntilMs : b.holdUntilMs = a.holdUntilMs

/-- No step down: the rung stays, or goes up by one. -/
structure Raised (a b : SendAdaptation) (why : Option Why) (nowMs : Int) : Prop where
  rung : b.rung = a.rung ∨ b.rung + 1 = a.rung
  lastDownMs : b.lastDownMs = a.lastDownMs
  reportsSinceDown : b.reportsSinceDown = a.reportsSinceDown
  clean : why = some .clean → holding a nowMs = false ∧ b.holdUntilMs = a.holdUntilMs

section Outcomes

variable (a : SendAdaptation) (nowMs : Int)

theorem adapt_cases (expected : Nat) :
    Framed a (adapt a nowMs expected).1 ∧
      (Lowered a (adapt a nowMs expected).1 nowMs ∨
        Raised a (adapt a nowMs expected).1 (adapt a nowMs expected).2 nowMs) := by
  unfold adapt
  dsimp only
  split_ifs with bad down up
  · unfold changeRung
    dsimp only
    rw [if_pos (Nat.lt_add_one a.rung)]
    exact ⟨⟨rfl, rfl, rfl⟩, .inl ⟨down.1, down.2.1, down.2.2, rfl, rfl, rfl, rfl⟩⟩
  · exact ⟨⟨rfl, rfl, rfl⟩, .inr ⟨.inl rfl, rfl, rfl, nofun⟩⟩
  · have less : ¬ a.rung < a.rung - 1 := by omega
    unfold changeRung
    dsimp only
    rw [if_neg less]
    exact ⟨⟨rfl, rfl, rfl⟩, .inr ⟨.inr (Nat.sub_add_cancel up.1), rfl, rfl, fun _ => ⟨up.2.1, rfl⟩⟩⟩
  · exact ⟨⟨rfl, rfl, rfl⟩, .inr ⟨.inl rfl, rfl, rfl, nofun⟩⟩

theorem goBack_cases : Framed a (goBack a nowMs).1 ∧ Raised a (goBack a nowMs).1 (goBack a nowMs).2 nowMs := by
  unfold goBack
  split_ifs with up
  · have less : ¬ a.rung < a.rung - 1 := by omega
    unfold changeRung
    dsimp only
    rw [if_neg less]
    exact ⟨⟨rfl, rfl, rfl⟩, .inr (Nat.sub_add_cancel up), rfl, rfl, nofun⟩
  · exact ⟨⟨rfl, rfl, rfl⟩, .inl rfl, rfl, rfl, nofun⟩

theorem followLoss_lossPerc (bounds : kLossPercFloor ≤ a.lossPerc ∧ a.lossPerc ≤ kLossPercCap) :
    kLossPercFloor ≤ (followLoss a nowMs).lossPerc ∧ (followLoss a nowMs).lossPerc ≤ kLossPercCap := by
  unfold followLoss
  dsimp only
  split_ifs
  · exact clamp_bounds (by decide) _
  · exact bounds

theorem measured_fields (expected lost : Nat) (rttMs jitterMs : ℚ) :
    let recorded := record a nowMs expected lost rttMs jitterMs
    let measured := measureLoss (followLoss recorded nowMs) nowMs
    measured.rungs = a.rungs ∧ measured.rung = a.rung ∧ measured.reports = recorded.reports ∧
      measured.lastDownMs = a.lastDownMs ∧ measured.reportsSinceDown = a.reportsSinceDown + 1 ∧
      measured.holdUntilMs = a.holdUntilMs ∧ measured.lossPerc = (followLoss recorded nowMs).lossPerc := by
  unfold measureLoss followLoss
  dsimp only
  split_ifs <;> exact ⟨rfl, rfl, rfl, rfl, rfl, rfl, rfl⟩

theorem onReport_cases (expected lost : Nat) (rttMs jitterMs : ℚ) :
    let measured := measureLoss (followLoss (record a nowMs expected lost rttMs jitterMs) nowMs) nowMs
    let result := onReport a nowMs expected lost rttMs jitterMs
    Framed measured result.1 ∧ (Lowered measured result.1 nowMs ∨ Raised measured result.1 result.2 nowMs) := by
  unfold onReport
  dsimp only
  generalize measureLoss (followLoss (record a nowMs expected lost rttMs jitterMs) nowMs) nowMs = measured
  split
  · exact adapt_cases measured nowMs expected
  · split_ifs
    · obtain ⟨framed, down | up⟩ := adapt_cases { measured with checkStepMs := none } nowMs expected
      · exact ⟨⟨framed.rungs, framed.lossPerc, framed.reports⟩, .inl ⟨down.room, down.fresh, down.free, down.rung,
          down.lastDownMs, down.reportsSinceDown, down.holdUntilMs⟩⟩
      · exact ⟨⟨framed.rungs, framed.lossPerc, framed.reports⟩,
          .inr ⟨up.rung, up.lastDownMs, up.reportsSinceDown, up.clean⟩⟩
    · obtain ⟨framed, up⟩ := goBack_cases { measured with checkStepMs := none } nowMs
      exact ⟨⟨framed.rungs, framed.lossPerc, framed.reports⟩,
        .inr ⟨up.rung, up.lastDownMs, up.reportsSinceDown, up.clean⟩⟩

end Outcomes

/-! ## Every run -/

/-- What the last step down left: its time, and the reports since. -/
structure Inv (s : State) : Prop where
  disciplined : Disciplined s
  past : ∀ report ∈ s.adaptation.reports, ∃ entry ∈ s.log, report.tMs ≤ entry.nowMs
  increasing : s.log.Pairwise fun first second => first.nowMs < second.nowMs
  window : ∀ entry ∈ s.log, ∀ report ∈ entry.window, report.tMs ≤ entry.nowMs
  lowered : ∀ before entry after, s.log = before ++ entry :: after → entry.down →
    s.adaptation.reportsSinceDown ≤ after.length ∧ ∃ down, s.adaptation.lastDownMs = some down ∧ entry.nowMs ≤ down

theorem inv_start (maxKbps : Int) : Inv (start maxKbps) := by
  have none {P : Entry → Prop} : ∀ entry ∈ (start maxKbps).log, P entry := fun _ member => (List.not_mem_nil member).elim
  refine ⟨⟨ladder_buildLadder maxKbps, Nat.zero_lt_succ _, ⟨le_refl kLossPercFloor, ?_⟩, none, ?_, none⟩, ?_, .nil, none, ?_⟩
  · exact (by decide : kLossPercFloor ≤ kLossPercCap)
  · intro before first between second after whole
    exact absurd whole.symm (List.append_ne_nil_of_right_ne_nil _ (List.cons_ne_nil _ _))
  · exact fun _ member => (List.not_mem_nil member).elim
  · intro before entry after whole
    exact absurd whole.symm (List.append_ne_nil_of_right_ne_nil _ (List.cons_ne_nil _ _))

theorem inv_setMaxKbps {s : State} (inv : Inv s) (kbps : Int) :
    Inv { s with adaptation := setMaxKbps s.adaptation kbps, maxKbps := kbps } := by
  obtain ⟨⟨ladder, inRange, lossPerc, byOne, apart, held⟩, past, increasing, window, lowered⟩ := inv
  exact ⟨⟨ladder_buildLadder kbps, setMaxKbps_inRange s.adaptation kbps, lossPerc, byOne, apart, held⟩, past, increasing,
    window, lowered⟩

section Report

variable {s : State} {nowMs : Int} {expected lost : Nat} {rttMs jitterMs : ℚ}

/-- A recorded report is the new one, or was held. -/
theorem mem_record {a : SendAdaptation} {report : Report} (member : report ∈ (record a nowMs expected lost rttMs jitterMs).reports) :
    report ∈ a.reports ∨ report.tMs = nowMs := by
  rcases List.mem_append.mp ((List.dropWhile_sublist _).subset member) with old | new
  · exact .inl old
  · rw [List.mem_singleton.mp new]
    exact .inr rfl

/-- A report that counts is after the last step down. -/
theorem mem_downWindow {a : SendAdaptation} {report : Report} (member : report ∈ downWindow a nowMs) :
    report ∈ a.reports ∧ ∀ down, a.lastDownMs = some down → down < report.tMs := by
  obtain ⟨held, late⟩ := List.mem_filter.mp member
  refine ⟨held, fun down same => ?_⟩
  rw [same] at late
  exact lt_of_le_of_lt (le_max_right _ _) (of_decide_eq_true late)

/-- What a report does to the ladder, in terms of the state before it. -/
structure Outcome (a b : SendAdaptation) (why : Option Why) (window : List Report) (nowMs : Int) : Prop where
  rungs : b.rungs = a.rungs
  lossPerc : kLossPercFloor ≤ b.lossPerc ∧ b.lossPerc ≤ kLossPercCap
  reports : ∀ report ∈ b.reports, report ∈ a.reports ∨ report.tMs = nowMs
  window : ∀ report ∈ window, (report ∈ a.reports ∨ report.tMs = nowMs) ∧ ∀ down, a.lastDownMs = some down → down < report.tMs
  moved :
    (a.rung + 1 < a.rungs.length ∧ (a.lastDownMs = none ∨ kDownMinReports ≤ a.reportsSinceDown + 1) ∧
      holding a nowMs = false ∧ holding b nowMs = false ∧ b.rung = a.rung + 1 ∧ b.lastDownMs = some nowMs ∧
      b.reportsSinceDown = 0) ∨
    ((b.rung = a.rung ∨ b.rung + 1 = a.rung) ∧ b.lastDownMs = a.lastDownMs ∧ b.reportsSinceDown = a.reportsSinceDown + 1 ∧
      (why = some .clean → holding a nowMs = false ∧ holding b nowMs = false))

theorem outcome_onReport {a : SendAdaptation} (bounds : kLossPercFloor ≤ a.lossPerc ∧ a.lossPerc ≤ kLossPercCap) :
    Outcome a (onReport a nowMs expected lost rttMs jitterMs).1 (onReport a nowMs expected lost rttMs jitterMs).2
      (downWindow (record a nowMs expected lost rttMs jitterMs) nowMs) nowMs := by
  obtain ⟨rungs, rung, reports, lastDown, since, hold, perc⟩ := measured_fields a nowMs expected lost rttMs jitterMs
  obtain ⟨framed, outcome⟩ := onReport_cases a nowMs expected lost rttMs jitterMs
  have holds {b : SendAdaptation} (same : b.holdUntilMs = a.holdUntilMs) : holding b nowMs = holding a nowMs :=
    congrArg (Option.any (nowMs < ·)) same
  refine ⟨framed.rungs.trans rungs, ?_, ?_, ?_, ?_⟩
  · rw [framed.lossPerc, perc]
    exact followLoss_lossPerc _ nowMs bounds
  · rw [framed.reports, reports]
    exact fun report member => mem_record member
  · intro report member
    obtain ⟨held, late⟩ := mem_downWindow member
    exact ⟨mem_record held, late⟩
  · rcases outcome with down | up
    · have room := down.room
      have fresh := of_decide_eq_true down.fresh
      rw [rung, rungs] at room
      rw [lastDown, since] at fresh
      exact .inl ⟨room, fresh, (holds hold).symm.trans down.free, (holds (down.holdUntilMs.trans hold)).trans
        ((holds hold).symm.trans down.free), down.rung.trans (congrArg (· + 1) rung), down.lastDownMs, down.reportsSinceDown⟩
    · have moved := up.rung
      rw [rung] at moved
      refine .inr ⟨moved, up.lastDownMs.trans lastDown, up.reportsSinceDown.trans since, fun clean => ?_⟩
      obtain ⟨free, same⟩ := up.clean clean
      exact ⟨(holds hold).symm.trans free, (holds (same.trans hold)).trans ((holds hold).symm.trans free)⟩

theorem inv_outcome (inv : Inv s) (later : ∀ entry ∈ s.log, entry.nowMs < nowMs) {b : SendAdaptation} {why : Option Why}
    {window : List Report} (outcome : Outcome s.adaptation b why window nowMs) :
    Inv { s with adaptation := b, log := s.log ++ [{ nowMs, before := s.adaptation, after := b, why, window }] } := by
  have inRange := inv.disciplined.inRange
  have early : ∀ report ∈ s.adaptation.reports, report.tMs < nowMs := by
    intro report member
    obtain ⟨entry, held, before⟩ := inv.past report member
    exact lt_of_le_of_lt before (later entry held)
  refine ⟨⟨outcome.rungs ▸ inv.disciplined.ladder, ?_, outcome.lossPerc, ?_, ?_, ?_⟩, ?_, ?_, ?_, ?_⟩
  · rw [outcome.rungs]
    rcases outcome.moved with ⟨room, -, -, -, rung, -, -⟩ | ⟨rung, -, -, -⟩
    · rw [rung]
      exact room
    · dsimp only
      omega
  · intro entry member
    rcases List.mem_append.mp member with old | new
    · exact inv.disciplined.byOne entry old
    · rw [List.mem_singleton.mp new]
      rcases outcome.moved with ⟨-, -, -, -, rung, -, -⟩ | ⟨rung, -, -, -⟩ <;> dsimp only <;> omega
  · intro before first between second after whole firstDown secondDown
    rcases split_concat whole with ⟨rest, rfl, old⟩ | ⟨old, rfl, rfl⟩
    · exact inv.disciplined.apart before first between second rest old firstDown secondDown
    · obtain ⟨since, down, lastDown, earlier⟩ := inv.lowered before first between old.symm firstDown
      rcases outcome.moved with ⟨-, fresh, -⟩ | ⟨rung, -⟩
      · refine ⟨?_, fun report member other => ?_⟩
        · rcases fresh with never | enough
          · cases never.symm.trans lastDown
          · rw [List.length_append, List.length_singleton]
            omega
        · have held : first ∈ s.log := by
            rw [← old]
            exact List.mem_append_right _ List.mem_cons_self
          have := inv.window first held report member
          have := (outcome.window report other).2 down lastDown
          omega
      · unfold Entry.down at secondDown
        dsimp only at secondDown
        omega
  · intro entry member holds
    rcases List.mem_append.mp member with old | new
    · exact inv.disciplined.held entry old holds
    · rw [List.mem_singleton.mp new] at holds ⊢
      unfold Entry.down
      dsimp only at holds ⊢
      rcases outcome.moved with ⟨-, -, free, free', -⟩ | ⟨rung, -, -, clean⟩
      · rw [free, free'] at holds
        exact absurd holds (by decide)
      · refine ⟨by omega, fun same => ?_⟩
        rw [(clean same).1, (clean same).2] at holds
        exact absurd holds (by decide)
  · intro report member
    rcases outcome.reports report member with old | new
    · obtain ⟨entry, held, before⟩ := inv.past report old
      exact ⟨entry, List.mem_append_left _ held, before⟩
    · exact ⟨_, List.mem_append_right _ (List.mem_singleton.mpr rfl), new.le⟩
  · refine List.pairwise_append.mpr ⟨inv.increasing, List.pairwise_singleton _ _, fun entry member other new => ?_⟩
    rw [List.mem_singleton.mp new]
    exact later entry member
  · intro entry member
    rcases List.mem_append.mp member with old | new
    · exact inv.window entry old
    · rw [List.mem_singleton.mp new]
      intro report member
      rcases (outcome.window report member).1 with old | new
      · exact (early report old).le
      · exact new.le
  · intro before entry after whole down
    rcases split_concat whole with ⟨rest, rfl, old⟩ | ⟨rfl, rfl, rfl⟩
    · obtain ⟨since, time, lastDown, earlier⟩ := inv.lowered before entry rest old down
      have held : entry ∈ s.log := by
        rw [old]
        exact List.mem_append_right _ List.mem_cons_self
      rw [List.length_append, List.length_singleton]
      dsimp only
      rcases outcome.moved with ⟨-, -, -, -, -, last, zero⟩ | ⟨-, last, next, -⟩
      · exact ⟨by omega, nowMs, last, (later entry held).le⟩
      · exact ⟨by omega, time, last.trans lastDown, earlier⟩
    · rcases outcome.moved with ⟨-, -, -, -, -, last, zero⟩ | ⟨rung, -⟩
      · exact ⟨zero.le, nowMs, last, le_refl nowMs⟩
      · unfold Entry.down at down
        dsimp only at down
        omega

end Report

theorem inv_step {s t : State} {call : Call} (inv : Inv s) (stepped : step s call = some t) : Inv t := by
  cases call with
  | report nowMs expected lost rttMs jitterMs =>
    unfold step at stepped
    dsimp only at stepped
    split_ifs at stepped with later
    cases stepped
    exact inv_outcome inv later (outcome_onReport inv.disciplined.lossPerc)
  | setMaxKbps kbps =>
    cases stepped
    exact inv_setMaxKbps inv kbps

end Mello.Audio.VoiceLadder
