import Mello.Library.Consecutive
import Mello.Transport.TwccRoundTrip

/-!
A ledger of one generator over a whole run. Sequences are unwrapped to integers,
so that the same 16-bit value in two rounds of the sequence space stays apart:
near the last reported sequence, or, before the first report, near the first
accepted one. Every accepted sequence is then received in exactly one report or
still pending, and the spans of the reports follow on from each other.
-/

namespace Mello.Transport.TwccLedger
open Mello.Library Twcc TwccPlan TwccReport TwccRoundTrip TwccFeedbackGenerator

structure Ledger where
  gen : TwccFeedbackGenerator := {}
  /-- The unwrapped number of the last reported sequence; before the first
  report, of the first accepted one. -/
  anchor : Option Int := none
  accepted : Finset Int := ∅
  /-- For each report the numbers it covers, and whether it reports them received. -/
  reports : List (List (Int × Bool)) := []

def unwrap (anchor : Option Int) (sequence : BitVec 16) : Int :=
  match anchor with
  | none => sequence.toNat
  | some value => Serial.unwrapNear value sequence

/-- `on_packet` ignores what is at or behind the last reported sequence. -/
def Accepts (g : TwccFeedbackGenerator) (sequence : BitVec 16) : Prop :=
  ¬(g.hasEmitted = true ∧ Serial.ahead sequence g.lastEmittedSequence ≤ 0)

instance (g : TwccFeedbackGenerator) (sequence : BitVec 16) : Decidable (Accepts g sequence) :=
  inferInstanceAs (Decidable (¬_))

/-- Numbers the entries of a report. -/
def numberFrom (first : Int) : List TwccPacketResult → List (Int × Bool)
  | [] => []
  | result :: rest => (first, result.received) :: numberFrom (first + 1) rest

namespace Ledger

def onPacket (l : Ledger) (sequence : BitVec 16) (arrivalTimeUs : Int) : Ledger :=
  if Accepts l.gen sequence then
    { l with
      gen := l.gen.onPacket sequence arrivalTimeUs
      anchor := some (l.anchor.getD (unwrap l.anchor sequence))
      accepted := insert (unwrap l.anchor sequence) l.accepted }
  else { l with gen := l.gen.onPacket sequence arrivalTimeUs }

/-- A report is entered as its reader sees it, through the parser. -/
def buildFeedback (l : Ledger) (senderSsrc mediaSsrc : BitVec 32) : Ledger :=
  let (gen, report) := l.gen.buildFeedback senderSsrc mediaSsrc
  match parseTwccFeedback report report.length with
  | .ok feedback =>
    match feedback.packets with
    | [] => { l with gen }
    | result :: rest =>
      let first := unwrap l.anchor result.sequence
      { l with
        gen
        anchor := some (first + rest.length)
        reports := l.reports ++ [numberFrom first (result :: rest)] }
  | .error _ => { l with gen }

end Ledger

/-- Any sequence of calls, as for the generator. -/
inductive LedgerReachable : Ledger → Prop
  | start : LedgerReachable {}
  | onPacket {l : Ledger} (sequence : BitVec 16) (arrivalTimeUs : Int) :
      LedgerReachable l → FirstWindow (l.gen.onPacket sequence arrivalTimeUs) →
      LedgerReachable (l.onPacket sequence arrivalTimeUs)
  | buildFeedback {l : Ledger} (senderSsrc mediaSsrc : BitVec 32) :
      LedgerReachable l → LedgerReachable (l.buildFeedback senderSsrc mediaSsrc)
  | rehash {l : Ledger} {pending : Pending} :
      LedgerReachable l → pending.entries.Perm l.gen.pending.entries →
      LedgerReachable { l with gen := { l.gen with pending } }

/-- All entries of all reports, in order. -/
def covered (l : Ledger) : List (Int × Bool) := l.reports.flatten

def PendingNumber (l : Ledger) (number : Int) : Prop :=
  ∃ sequence ∈ l.gen.pending, unwrap l.anchor sequence = number

/-! ## Numbering -/

@[simp] theorem numberFrom_length (first : Int) (results : List TwccPacketResult) :
    (numberFrom first results).length = results.length := by
  induction results generalizing first with
  | nil => rfl
  | cons result rest ih => simp [numberFrom, ih]

theorem numberFrom_get (first : Int) (results : List TwccPacketResult) (i : Nat) :
    (numberFrom first results)[i]? =
      results[i]?.map fun result => (first + i, result.received) := by
  induction results generalizing first i with
  | nil => simp [numberFrom]
  | cons result rest ih =>
    cases i with
    | zero => simp [numberFrom]
    | succ i =>
      simp only [numberFrom, List.getElem?_cons_succ, ih]
      congr 1
      funext other
      rw [Nat.cast_succ, add_assoc, add_comm (1 : Int)]

theorem consecutive_numberFrom (first : Int) (results : List TwccPacketResult) :
    Consecutive Prod.fst first (numberFrom first results) := by
  intro i entry found
  rw [numberFrom_get] at found
  obtain ⟨result, -, rfl⟩ := Option.map_eq_some_iff.mp found
  rfl

/-! ## The invariant -/

/-- What holds of the ledger between calls. -/
structure Balanced (l : Ledger) : Prop where
  windowed : Windowed l.gen
  emitted : l.gen.hasEmitted = true →
    ∃ value start, l.anchor = some value ∧ BitVec.ofInt 16 value = l.gen.lastEmittedSequence ∧
      Consecutive Prod.fst start (covered l) ∧ value + 1 = start + (covered l).length
  fresh : l.gen.hasEmitted = false → l.reports = [] ∧
    (l.anchor = none → ∀ sequence, sequence ∉ l.gen.pending) ∧
    ∀ value, l.anchor = some value → BitVec.ofInt 16 value ∈ l.gen.pending
  exact : ∀ number, number ∈ l.accepted ↔ (number, true) ∈ covered l ∨ PendingNumber l number

/-- The next report starts at number `unwrap anchor base`, and a pending
sequence stands at its offset from there. -/
theorem Balanced.unwrap_pending {l : Ledger} (balanced : Balanced l) {sequence : BitVec 16}
    (member : sequence ∈ l.gen.pending) :
    unwrap l.anchor sequence = unwrap l.anchor l.gen.reportBase + offset l.gen.reportBase sequence := by
  have window := window_reportBase balanced.windowed
  have origin : offset l.gen.reportBase l.gen.reportBase = 0 := by simp [offset]
  by_cases emitted : l.gen.hasEmitted = true
  · obtain ⟨value, start, anchor, last, -⟩ := balanced.emitted emitted
    have base : l.gen.reportBase = l.gen.lastEmittedSequence + 1 := by rw [reportBase, if_pos emitted]
    have later := balanced.windowed
    rw [Windowed, if_pos emitted] at later
    have distance := (offset_succ_of_ahead (later sequence member)).2
    have one : Serial.ahead (l.gen.lastEmittedSequence + 1) l.gen.lastEmittedSequence = 1 := by
      rw [Serial.ahead, add_sub_cancel_left]
      rfl
    rw [base, anchor]
    simp only [unwrap, Serial.unwrapNear, last, one]
    omega
  · have flag : l.gen.hasEmitted = false := by simpa using emitted
    obtain ⟨-, empty, anchored⟩ := balanced.fresh flag
    cases anchor : l.anchor with
    | none => exact absurd member (empty anchor sequence)
    | some value =>
      have present := anchored value anchor
      simp only [unwrap, Serial.unwrapNear]
      rw [ahead_eq_offset_sub (window _ member) (window _ present),
        ahead_eq_offset_sub (by rw [origin]; decide) (window _ present), origin]
      omega

theorem balanced_start : Balanced {} where
  windowed := Reachable.start.windowed
  emitted := by intro emitted; cases emitted
  fresh := fun _ => ⟨rfl, fun _ sequence => AList.notMem_empty sequence, by intro value anchor; cases anchor⟩
  exact := by
    intro number
    simp only [Finset.notMem_empty, covered, List.flatten_nil, List.not_mem_nil, false_or, false_iff]
    rintro ⟨sequence, member, -⟩
    exact AList.notMem_empty sequence member

theorem balanced_onPacket {l : Ledger} (balanced : Balanced l) (sequence : BitVec 16)
    (arrivalTimeUs : Int) (window : FirstWindow (l.gen.onPacket sequence arrivalTimeUs)) :
    Balanced (l.onPacket sequence arrivalTimeUs) := by
  have windowed := windowed_onPacket balanced.windowed sequence arrivalTimeUs window
  rw [Ledger.onPacket]
  split_ifs with accepts
  · have state : l.gen.onPacket sequence arrivalTimeUs =
        { l.gen with pending := l.gen.pending.insert sequence ⟨arrivalTimeUs⟩ } := by
      rw [TwccFeedbackGenerator.onPacket, if_neg accepts]
    -- the anchor that the number of the new sequence is read against
    have same : ∀ other, other = sequence ∨ other ∈ l.gen.pending →
        unwrap (some (l.anchor.getD (unwrap l.anchor sequence))) other = unwrap l.anchor other := by
      intro other known
      cases anchor : l.anchor with
      | some value => rfl
      | none =>
        have idle : l.gen.hasEmitted = false := by
          by_contra emitted
          obtain ⟨value, -, known, -⟩ := balanced.emitted (by simpa using emitted)
          rw [anchor] at known
          cases known
        have absent := (balanced.fresh idle).2.1 anchor
        obtain rfl := known.resolve_right (absent other)
        simp [unwrap, Serial.unwrapNear]
    constructor
    · exact windowed
    · intro emitted
      have before : l.gen.hasEmitted = true := by simpa [state] using emitted
      obtain ⟨value, start, anchor, last, run⟩ := balanced.emitted before
      exact ⟨value, start, by simp [anchor], by simpa [state] using last, run⟩
    · intro idle
      have before : l.gen.hasEmitted = false := by simpa [state] using idle
      obtain ⟨none, empty, anchored⟩ := balanced.fresh before
      refine ⟨none, by simp, ?_⟩
      intro value anchor
      simp only [state, AList.mem_insert]
      cases known : l.anchor with
      | none =>
        left
        have number : value = sequence.toNat := by simpa [known, unwrap] using anchor.symm
        rw [number]
        simp
      | some old =>
        right
        have number : value = old := by simpa [known] using anchor.symm
        rw [number]
        exact anchored old known
    · intro number
      have pending : PendingNumber
          { l with
            gen := l.gen.onPacket sequence arrivalTimeUs
            anchor := some (l.anchor.getD (unwrap l.anchor sequence))
            accepted := insert (unwrap l.anchor sequence) l.accepted } number ↔
          number = unwrap l.anchor sequence ∨ PendingNumber l number := by
        constructor
        · rintro ⟨other, member, value⟩
          simp only [state, AList.mem_insert] at member
          rw [same other member] at value
          rcases member with rfl | older
          · exact Or.inl value.symm
          · exact Or.inr ⟨other, older, value⟩
        · rintro (value | ⟨other, member, value⟩)
          · exact ⟨sequence, by simp [state], by rw [same sequence (Or.inl rfl), value]⟩
          · exact ⟨other, by simp [state, member], by rw [same other (Or.inr member), value]⟩
      rw [pending, Finset.mem_insert, balanced.exact number]
      simp only [covered]
      tauto
  · have state : l.gen.onPacket sequence arrivalTimeUs = l.gen := by
      rw [TwccFeedbackGenerator.onPacket, if_pos (not_not.mp accepts)]
    rw [state]
    exact balanced

/-- The ledger after a report, in terms of its plan. -/
theorem buildFeedback_of_plan {l : Ledger} {plan : List Entry} (holds : Plan l.gen plan)
    (nonempty : ∃ sequence, sequence ∈ l.gen.pending) (senderSsrc mediaSsrc : BitVec 32) :
    l.buildFeedback senderSsrc mediaSsrc =
      { l with
        gen := (l.gen.buildFeedback senderSsrc mediaSsrc).1
        anchor := some (unwrap l.anchor l.gen.reportBase + plan.length - 1)
        reports := l.reports ++ [numberFrom (unwrap l.anchor l.gen.reportBase)
          (feedbackOf l.gen senderSsrc mediaSsrc plan).packets] } := by
  have read := parse_buildFeedback holds nonempty senderSsrc mediaSsrc
  obtain ⟨front, deltaUnits, shape⟩ := holds.endsReceived
  have count : (feedbackOf l.gen senderSsrc mediaSsrc plan).packets.length = plan.length :=
    parsed_length _ _ _
  have first := fun result => parsed_get l.gen.reportBase
    ((BitVec.ofInt 24 l.gen.referenceUnits).toNat * kReferenceTimeUnitUs) plan 0 result
  change ∀ result, (feedbackOf l.gen senderSsrc mediaSsrc plan).packets[0]? = some result → _ at first
  rw [Ledger.buildFeedback]
  simp only [read]
  cases packets : (feedbackOf l.gen senderSsrc mediaSsrc plan).packets with
  | nil =>
    rw [packets, shape] at count
    simp at count
  | cons result rest =>
    rw [packets] at first count
    have place := (first result rfl).1
    rw [sequenceAt_zero] at place
    simp only [place]
    congr 2
    rw [← count, List.length_cons]
    omega

theorem ofInt_unwrap (anchor : Option Int) (sequence : BitVec 16) :
    BitVec.ofInt 16 (unwrap anchor sequence) = sequence := by
  cases anchor with
  | none => simp [unwrap]
  | some value => exact Serial.ofInt_unwrapNear value sequence

theorem mem_numberFrom {first number : Int} {results : List TwccPacketResult} :
    (number, true) ∈ numberFrom first results ↔
      ∃ (i : Nat) (result : TwccPacketResult), results[i]? = some result ∧
        result.received = true ∧ number = first + i := by
  rw [List.mem_iff_getElem?]
  constructor
  · rintro ⟨i, found⟩
    rw [numberFrom_get] at found
    obtain ⟨result, here, value⟩ := Option.map_eq_some_iff.mp found
    obtain ⟨place, received⟩ := Prod.mk.inj value
    exact ⟨i, result, here, received, place.symm⟩
  · rintro ⟨i, result, here, received, rfl⟩
    exact ⟨i, by rw [numberFrom_get, here, ← received]; rfl⟩

/-- A report takes exactly the pending numbers of its span. -/
theorem mem_report_iff {l : Ledger} (balanced : Balanced l) {plan : List Entry}
    (holds : Plan l.gen plan) (senderSsrc mediaSsrc : BitVec 32) (number : Int) :
    (number, true) ∈ numberFrom (unwrap l.anchor l.gen.reportBase)
        (feedbackOf l.gen senderSsrc mediaSsrc plan).packets ↔
      ∃ sequence ∈ l.gen.pending, offset l.gen.reportBase sequence < plan.length ∧
        unwrap l.anchor sequence = number := by
  have short := holds.short
  rw [mem_numberFrom]
  constructor
  · rintro ⟨i, result, found, received, rfl⟩
    obtain ⟨place, entry, listed, flag⟩ := parsed_get _ _ _ i result found
    have inside : i < plan.length := (List.getElem?_eq_some_iff.mp listed).1
    have member := (holds.tracks.isSome_iff i entry listed).mp (by rw [← flag, received])
    have spot := @offset_sequenceAt l.gen.reportBase i (by omega)
    exact ⟨_, member, by omega, by rw [balanced.unwrap_pending member, spot]⟩
  · rintro ⟨sequence, member, inside, rfl⟩
    have listed : plan[offset l.gen.reportBase sequence]? =
        some plan[offset l.gen.reportBase sequence] := List.getElem?_eq_getElem inside
    have present := (holds.tracks.isSome_iff _ _ listed).mpr (by rwa [sequenceAt_offset])
    have bound : offset l.gen.reportBase sequence <
        (feedbackOf l.gen senderSsrc mediaSsrc plan).packets.length := by
      rwa [feedbackOf, parsed_length]
    refine ⟨offset l.gen.reportBase sequence, _, List.getElem?_eq_getElem bound, ?_,
      balanced.unwrap_pending member⟩
    obtain ⟨-, entry, here, flag⟩ := parsed_get _ _ _ _ _ (List.getElem?_eq_getElem bound)
    rw [listed] at here
    rw [flag, ← Option.some.inj here, present]

/-- What stays pending keeps its number when the anchor moves to the report's end. -/
theorem pendingNumber_after {l : Ledger} (balanced : Balanced l) {plan : List Entry}
    (holds : Plan l.gen plan) {sequence : BitVec 16} (member : sequence ∈ l.gen.pending) :
    unwrap (some (unwrap l.anchor l.gen.reportBase + plan.length - 1)) sequence =
      unwrap l.anchor sequence := by
  have short := holds.short
  have near := window_reportBase balanced.windowed sequence member
  have value := balanced.unwrap_pending member
  obtain ⟨front, deltaUnits, shape⟩ := holds.endsReceived
  have positive : 0 < plan.length := by simp [shape]
  conv_lhs => rw [← ofInt_unwrap l.anchor sequence]
  rw [unwrap]
  apply Serial.unwrapNear_ofInt <;> norm_num <;> omega

theorem balanced_buildFeedback {l : Ledger} (balanced : Balanced l) (senderSsrc mediaSsrc : BitVec 32) :
    Balanced (l.buildFeedback senderSsrc mediaSsrc) := by
  by_cases nonempty : ∃ sequence, sequence ∈ l.gen.pending
  · obtain ⟨plan, holds⟩ := plan_exists balanced.windowed nonempty
    have short := holds.short
    obtain ⟨front, deltaUnits, shape⟩ := holds.endsReceived
    have positive : 0 < plan.length := by simp [shape]
    have windowed := windowed_buildFeedback balanced.windowed senderSsrc mediaSsrc
    have packets : (feedbackOf l.gen senderSsrc mediaSsrc plan).packets.length = plan.length :=
      parsed_length _ _ _
    rw [buildFeedback_of_plan holds nonempty]
    have state := TwccRoundTrip.buildFeedback_of_plan holds nonempty senderSsrc mediaSsrc
    constructor
    · exact windowed
    · intro _
      have last : BitVec.ofInt 16 (unwrap l.anchor l.gen.reportBase + plan.length - 1) =
          sequenceAt l.gen.reportBase (plan.length - 1) := by
        rw [add_sub_assoc, BitVec.ofInt_add, ofInt_unwrap, sequenceAt, ← BitVec.ofInt_natCast,
          Nat.cast_sub positive]
        rfl
      have tail := consecutive_numberFrom (unwrap l.anchor l.gen.reportBase)
        (feedbackOf l.gen senderSsrc mediaSsrc plan).packets
      by_cases emitted : l.gen.hasEmitted = true
      · obtain ⟨value, start, anchor, low, run, next⟩ := balanced.emitted emitted
        have follows : unwrap l.anchor l.gen.reportBase = value + 1 := by
          have base : l.gen.reportBase = l.gen.lastEmittedSequence + 1 := by
            rw [reportBase, if_pos emitted]
          rw [anchor, base, ← low, unwrap, show (1 : BitVec 16) = BitVec.ofInt 16 1 by rfl,
            ← BitVec.ofInt_add]
          apply Serial.unwrapNear_ofInt <;> norm_num
        refine ⟨_, start, rfl, by rw [last, state], ?_, ?_⟩
        · rw [covered, List.flatten_append, List.flatten_singleton]
          exact run.append (by rwa [← next, ← follows])
        · simp only [covered, List.flatten_append, List.flatten_singleton, List.length_append,
            numberFrom_length, packets]
          simp only [covered] at next
          omega
      · have empty := (balanced.fresh (by simpa using emitted)).1
        refine ⟨_, unwrap l.anchor l.gen.reportBase, rfl, by rw [last, state], ?_, ?_⟩
        · rw [covered, empty, List.nil_append, List.flatten_singleton]
          exact tail
        · simp [covered, empty, packets]
    · intro idle
      rw [state] at idle
      cases idle
    · intro number
      have before := balanced.exact number
      have taken := mem_report_iff balanced holds senderSsrc mediaSsrc number
      have left : PendingNumber
          { l with
            gen := (l.gen.buildFeedback senderSsrc mediaSsrc).1
            anchor := some (unwrap l.anchor l.gen.reportBase + plan.length - 1)
            reports := l.reports ++ [numberFrom (unwrap l.anchor l.gen.reportBase)
              (feedbackOf l.gen senderSsrc mediaSsrc plan).packets] } number ↔
          ∃ sequence ∈ l.gen.pending, ¬(offset l.gen.reportBase sequence < plan.length) ∧
            unwrap l.anchor sequence = number := by
        simp only [PendingNumber, state, mem_eraseSpan]
        constructor
        · rintro ⟨sequence, ⟨member, past⟩, rfl⟩
          exact ⟨sequence, member, fun inside => past _ inside (sequenceAt_offset _ _).symm,
            (pendingNumber_after balanced holds member).symm⟩
        · rintro ⟨sequence, member, past, rfl⟩
          refine ⟨sequence, ⟨member, ?_⟩, pendingNumber_after balanced holds member⟩
          rintro j inside rfl
          exact past (by rwa [offset_sequenceAt (by omega)])
      rw [left, covered, List.flatten_append, List.flatten_singleton, List.mem_append, taken, before]
      constructor
      · rintro (older | ⟨sequence, member, value⟩)
        · exact Or.inl (Or.inl older)
        · by_cases inside : offset l.gen.reportBase sequence < plan.length
          · exact Or.inl (Or.inr ⟨sequence, member, inside, value⟩)
          · exact Or.inr ⟨sequence, member, inside, value⟩
      · rintro ((older | ⟨sequence, member, -, value⟩) | ⟨sequence, member, -, value⟩)
        · exact Or.inl older
        · exact Or.inr ⟨sequence, member, value⟩
        · exact Or.inr ⟨sequence, member, value⟩
  · have idle : l.gen.buildFeedback senderSsrc mediaSsrc = (l.gen, []) := by
      rw [TwccFeedbackGenerator.buildFeedback, if_pos (by
        by_contra filled
        exact nonempty (mem_entries_iff.mp (by simpa using filled)))]
    rw [Ledger.buildFeedback, idle]
    exact balanced

theorem LedgerReachable.balanced {l : Ledger} (reachable : LedgerReachable l) : Balanced l := by
  induction reachable with
  | start => exact balanced_start
  | onPacket sequence arrivalTimeUs _ window ih => exact balanced_onPacket ih _ _ window
  | buildFeedback senderSsrc mediaSsrc _ ih => exact balanced_buildFeedback ih _ _
  | @rehash l pending _ order ih =>
    have same : ∀ sequence, (sequence ∈ pending) = (sequence ∈ l.gen.pending) :=
      fun sequence => propext (AList.mem_of_perm order)
    constructor
    · have windowed := ih.windowed
      rw [Windowed] at windowed ⊢
      simpa only [Window, same] using windowed
    · exact ih.emitted
    · intro idle
      simpa only [same] using ih.fresh idle
    · intro number
      have before := ih.exact number
      simpa only [PendingNumber, covered, same] using before

/-! ## The books -/

/-- Numbers still pending lie past everything reported. -/
theorem Balanced.pending_notCovered {l : Ledger} (balanced : Balanced l) {number : Int}
    (pending : PendingNumber l number) (received : Bool) : (number, received) ∉ covered l := by
  intro member
  obtain ⟨sequence, inside, rfl⟩ := pending
  by_cases emitted : l.gen.hasEmitted = true
  · obtain ⟨value, start, anchor, last, run, next⟩ := balanced.emitted emitted
    have later := balanced.windowed
    rw [Windowed, if_pos emitted] at later
    have distance := later sequence inside
    obtain ⟨i, found⟩ := List.mem_iff_getElem?.mp member
    have place := run i _ found
    have short := (List.getElem?_eq_some_iff.mp found).1
    rw [anchor] at place
    simp only [unwrap, Serial.unwrapNear, last] at place
    omega
  · have empty := (balanced.fresh (by simpa using emitted)).1
    simp [covered, empty] at member

theorem Balanced.consecutive {l : Ledger} (balanced : Balanced l) :
    ∃ start, Consecutive Prod.fst start (covered l) := by
  by_cases emitted : l.gen.hasEmitted = true
  · obtain ⟨_, start, -, -, run, -⟩ := balanced.emitted emitted
    exact ⟨start, run⟩
  · refine ⟨0, ?_⟩
    rw [covered, (balanced.fresh (by simpa using emitted)).1]
    intro i entry found
    simp at found

/-- No two reports share a number. -/
theorem Balanced.report_unique {l : Ledger} (balanced : Balanced l) {i j : Nat}
    {first second : List (Int × Bool)} (foundFirst : l.reports[i]? = some first)
    (foundSecond : l.reports[j]? = some second) {number : Int} {a b : Bool}
    (inFirst : (number, a) ∈ first) (inSecond : (number, b) ∈ second) : i = j := by
  obtain ⟨start, run⟩ := balanced.consecutive
  have apart := (List.pairwise_flatten.mp run.pairwise).2
  rw [List.pairwise_iff_getElem] at apart
  obtain ⟨hi, rfl⟩ := List.getElem?_eq_some_iff.mp foundFirst
  obtain ⟨hj, rfl⟩ := List.getElem?_eq_some_iff.mp foundSecond
  rcases Nat.lt_trichotomy i j with before | same | after
  · exact absurd (apart i j hi hj before _ inFirst _ inSecond) (lt_irrefl _)
  · exact same
  · exact absurd (apart j i hj hi after _ inSecond _ inFirst) (lt_irrefl _)

/-- The call with something pending: its packet parses, follows on from the last
report, and takes at least one pending sequence. -/
theorem buildFeedback_progress {g : TwccFeedbackGenerator} (windowed : Windowed g)
    (nonempty : ∃ sequence, sequence ∈ g.pending) (senderSsrc mediaSsrc : BitVec 32) :
    (g.buildFeedback senderSsrc mediaSsrc).2 ≠ [] ∧
      (∃ sequence ∈ g.pending, sequence ∉ (g.buildFeedback senderSsrc mediaSsrc).1.pending) ∧
      (g.buildFeedback senderSsrc mediaSsrc).1.hasEmitted = true ∧
      ∃ feedback first last,
        parseTwccFeedback (g.buildFeedback senderSsrc mediaSsrc).2
          (g.buildFeedback senderSsrc mediaSsrc).2.length = .ok feedback ∧
        feedback.packets.head? = some first ∧ feedback.packets.getLast? = some last ∧
        (g.hasEmitted = true → first.sequence = g.lastEmittedSequence + 1) ∧
        last.sequence = (g.buildFeedback senderSsrc mediaSsrc).1.lastEmittedSequence := by
  obtain ⟨plan, holds⟩ := plan_exists windowed nonempty
  have short := holds.short
  obtain ⟨front, deltaUnits, shape⟩ := holds.endsReceived
  have positive : 0 < plan.length := by simp [shape]
  have read := parse_buildFeedback holds nonempty senderSsrc mediaSsrc
  have state := TwccRoundTrip.buildFeedback_of_plan holds nonempty senderSsrc mediaSsrc
  have count : (feedbackOf g senderSsrc mediaSsrc plan).packets.length = plan.length :=
    parsed_length _ _ _
  have place : ∀ i result, (feedbackOf g senderSsrc mediaSsrc plan).packets[i]? = some result →
      result.sequence = sequenceAt g.reportBase i := fun i result found =>
    (parsed_get _ _ _ i result found).1
  refine ⟨report_of_pending windowed nonempty _ _, ?_, by rw [state], feedbackOf g senderSsrc mediaSsrc plan,
    (feedbackOf g senderSsrc mediaSsrc plan).packets[0],
    (feedbackOf g senderSsrc mediaSsrc plan).packets[plan.length - 1], read, ?_, ?_, ?_, ?_⟩
  · -- the last entry of the report is received, and so was pending
    have listed : plan[plan.length - 1]? = some (some deltaUnits) := by simp [shape]
    have member := (holds.tracks.isSome_iff _ _ listed).mp rfl
    refine ⟨_, member, ?_⟩
    rw [state, mem_eraseSpan]
    rintro ⟨-, past⟩
    exact past (plan.length - 1) (by omega) rfl
  · rw [List.head?_eq_getElem?]
    exact List.getElem?_eq_getElem (by omega)
  · rw [List.getLast?_eq_getElem?]
    simp only [count]
    exact List.getElem?_eq_getElem (by omega)
  · intro emitted
    rw [place 0 _ (List.getElem?_eq_getElem (by omega)), sequenceAt_zero, reportBase, if_pos emitted]
  · rw [place (plan.length - 1) _ (List.getElem?_eq_getElem (by omega)), state]

theorem buildFeedback_size {g : TwccFeedbackGenerator} (windowed : Windowed g)
    (senderSsrc mediaSsrc : BitVec 32) :
    (g.buildFeedback senderSsrc mediaSsrc).2.length ≤ kMaxReportBytes ∧
      4 ∣ (g.buildFeedback senderSsrc mediaSsrc).2.length := by
  by_cases built : (g.buildFeedback senderSsrc mediaSsrc).2 = []
  · rw [built]
    simp
  · obtain ⟨nonempty, plan, holds⟩ := plan_of_report windowed senderSsrc mediaSsrc built
    rw [TwccRoundTrip.buildFeedback_of_plan holds nonempty]
    dsimp only
    rw [reportBytes_length]
    exact ⟨paddedSize_le holds, Dvd.intro_left _ rfl⟩

/-- The generator loses and repeats nothing. The covered numbers are consecutive;
an accepted number is received in exactly one report or still pending, and not
both; what is pending stays in the half space ahead of the last report; a call
with something pending reports some of it, right after the last report; and
every report has at most `kMaxReportBytes` bytes, in whole words. -/
theorem ledger_exact {l : Ledger} (reachable : LedgerReachable l) :
    (∃ start, Consecutive Prod.fst start (covered l)) ∧
      (∀ number, number ∈ l.accepted ↔ (number, true) ∈ covered l ∨ PendingNumber l number) ∧
      (∀ number, (number, true) ∈ covered l →
        ∃! i : Nat, ∃ report, l.reports[i]? = some report ∧ (number, true) ∈ report) ∧
      (∀ number, PendingNumber l number → ∀ received, (number, received) ∉ covered l) ∧
      (l.gen.hasEmitted = true → ∀ sequence ∈ l.gen.pending,
        0 < Serial.ahead sequence l.gen.lastEmittedSequence ∧
          Serial.ahead sequence l.gen.lastEmittedSequence ≤ 2 ^ 15 - 1) ∧
      ∀ senderSsrc mediaSsrc,
        ((∃ sequence, sequence ∈ l.gen.pending) →
          (l.gen.buildFeedback senderSsrc mediaSsrc).2 ≠ [] ∧
          (∃ sequence ∈ l.gen.pending,
            sequence ∉ (l.gen.buildFeedback senderSsrc mediaSsrc).1.pending) ∧
          (l.buildFeedback senderSsrc mediaSsrc).reports.length = l.reports.length + 1 ∧
          (l.gen.buildFeedback senderSsrc mediaSsrc).1.hasEmitted = true ∧
          ∃ feedback first last,
            parseTwccFeedback (l.gen.buildFeedback senderSsrc mediaSsrc).2
              (l.gen.buildFeedback senderSsrc mediaSsrc).2.length = .ok feedback ∧
            feedback.packets.head? = some first ∧ feedback.packets.getLast? = some last ∧
            (l.gen.hasEmitted = true → first.sequence = l.gen.lastEmittedSequence + 1) ∧
            last.sequence = (l.gen.buildFeedback senderSsrc mediaSsrc).1.lastEmittedSequence) ∧
        (l.gen.buildFeedback senderSsrc mediaSsrc).2.length ≤ 1100 ∧
        4 ∣ (l.gen.buildFeedback senderSsrc mediaSsrc).2.length := by
  have balanced := reachable.balanced
  refine ⟨balanced.consecutive, balanced.exact, ?_, fun number => balanced.pending_notCovered, ?_, ?_⟩
  · intro number member
    obtain ⟨report, listed, inside⟩ := List.mem_flatten.mp member
    obtain ⟨i, found⟩ := List.mem_iff_getElem?.mp listed
    refine ⟨i, ⟨report, found, inside⟩, ?_⟩
    rintro j ⟨other, foundOther, insideOther⟩
    exact balanced.report_unique foundOther found insideOther inside
  · intro emitted sequence member
    have later := balanced.windowed
    rw [Windowed, if_pos emitted] at later
    have high := Serial.two_mul_ahead_lt sequence l.gen.lastEmittedSequence
    norm_num at high
    exact ⟨later sequence member, by norm_num; omega⟩
  · intro senderSsrc mediaSsrc
    refine ⟨fun nonempty => ?_, buildFeedback_size balanced.windowed senderSsrc mediaSsrc⟩
    obtain ⟨built, taken, emitted, report⟩ :=
      buildFeedback_progress balanced.windowed nonempty senderSsrc mediaSsrc
    obtain ⟨plan, holds⟩ := plan_exists balanced.windowed nonempty
    refine ⟨built, taken, ?_, emitted, report⟩
    rw [buildFeedback_of_plan holds nonempty]
    simp

/-- One packet, its report, and a second packet further on. -/
def onePending : Ledger := ({} : Ledger).onPacket 65535 1000

def reportedOnce : Ledger := (onePending.buildFeedback 1 2).onPacket 2 5000

theorem pending_onePending (sequence : BitVec 16) :
    sequence ∈ onePending.gen.pending ↔ sequence = 65535 := by
  have accepts : Accepts ({} : Ledger).gen 65535 := by
    rintro ⟨emitted, -⟩
    cases emitted
  rw [onePending, Ledger.onPacket, if_pos accepts]
  simp [TwccFeedbackGenerator.onPacket, AList.mem_insert, -AList.insert_empty]

theorem reachable_onePending : LedgerReachable onePending := by
  refine .onPacket 65535 1000 .start fun _ => ⟨65535, fun sequence member => ?_⟩
  obtain rfl : sequence = 65535 := by
    simpa [TwccFeedbackGenerator.onPacket, -AList.insert_empty] using member
  decide

theorem reachable_reportedOnce : LedgerReachable reportedOnce := by
  refine .onPacket 2 5000 (.buildFeedback 1 2 reachable_onePending) fun idle => ?_
  have nonempty : ∃ sequence, sequence ∈ onePending.gen.pending :=
    ⟨65535, (pending_onePending 65535).mpr rfl⟩
  have balanced := reachable_onePending.balanced
  obtain ⟨plan, holds⟩ := plan_exists balanced.windowed nonempty
  have emitted := (buildFeedback_progress balanced.windowed nonempty 1 2).2.2.1
  rw [buildFeedback_of_plan holds nonempty, TwccFeedbackGenerator.onPacket] at idle
  split_ifs at idle <;> exact absurd emitted (by simpa using idle)

theorem ledger_exact_reportedOnce :
    (∃ start, Consecutive Prod.fst start (covered reportedOnce)) ∧
      ∀ number, PendingNumber reportedOnce number → ∀ received, (number, received) ∉ covered reportedOnce := by
  obtain ⟨spans, -, -, apart, -⟩ := ledger_exact reachable_reportedOnce
  exact ⟨spans, apart⟩

end Mello.Transport.TwccLedger
