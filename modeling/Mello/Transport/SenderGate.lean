import Mello.Transport.SenderChain

/-!
The gate and its request. Outside an outage the producer that closes the gate
asks for the IDR that opens it. During one it leaves that to the resume; but the
resume asks only when it finds the gate open, so a gate closed during the outage
stays closed without a request.
-/

namespace Mello.Transport.SenderGate
open Mello.Library RtpVideoSender State SenderChain

/-- The report that ends an outage. -/
def Resumes (s : State) (move : Step) : Prop :=
  move = .drainReport ∧ s.controller = true ∧ s.paused = true

/-- What any other step does to the gate, the pause and the request. -/
inductive GateMove (s t : State) (request : Prop) : Prop
  | still (gate : t.awaitingIdr = s.awaitingIdr) (paused : t.paused = s.paused)
      (producer : t.pausedForProducer = s.pausedForProducer) (silent : ¬request)
  | opens (gate : t.awaitingIdr = false) (paused : t.paused = s.paused)
      (producer : t.pausedForProducer = s.pausedForProducer) (silent : ¬request)
  | closes (before : s.awaitingIdr = false) (gate : t.awaitingIdr = true) (paused : t.paused = s.paused)
      (producer : t.pausedForProducer = s.pausedForProducer)
      (asks : request ↔ s.pausedForProducer = false)
  | pauses (gate : t.awaitingIdr = false) (paused : t.paused = true)
      (producer : t.pausedForProducer = true) (silent : ¬request)

theorem overflow_request (s : State) (unit : AccessUnit) :
    Event.localIdrNeeded ∈ (s.overflow unit).2.2 ↔
      s.awaitingIdr = false ∧ s.pausedForProducer = false := by
  rw [overflow_spec]
  cases s.awaitingIdr <;> cases s.pausedForProducer <;> simp

theorem gateMove_sendAccessUnit (s : State) (annexB : List Twcc.Byte) (captureTimestampUs : Nat)
    (nowUs : Int) (trackIsOpen : Bool) :
    let answer := s.sendAccessUnit annexB captureTimestampUs nowUs trackIsOpen
    GateMove s answer.1 (Event.localIdrNeeded ∈ answer.2.2) := by
  intro answer
  have cases := sendAccessUnit_cases s annexB captureTimestampUs nowUs trackIsOpen
  dsimp only at cases
  rcases cases with failed | ⟨delta, shut, refused⟩ | ⟨fits, refused⟩ | ⟨delta, gate, -, -, accepted⟩ |
    ⟨idr, -, accepted⟩
  · rw [show answer = _ from failed]
    exact .still rfl rfl rfl (by simp)
  · rw [show answer = _ from refused]
    exact .still rfl rfl rfl (by simp)
  · have request := overflow_request s.countOffered
      (s.unitOf annexB (AnnexB.inspectAnnexBAccessUnit annexB).isIdr captureTimestampUs nowUs)
    rw [← refused] at request
    have after := congrArg Prod.fst refused
    rw [overflow_spec] at after
    rw [show answer.1 = _ from after]
    cases shut : s.awaitingIdr with
    | true => exact .still shut.symm rfl rfl fun asked => by simp [shut, countOffered] at request; exact request asked
    | false => exact .closes shut rfl rfl rfl (request.trans (and_iff_right shut))
  · rw [show answer = _ from accepted]
    exact .still rfl rfl rfl (by simp)
  · rw [show answer = _ from accepted]
    obtain ⟨-, -, -, gate, paused, -, producer, -⟩ := pushIdr_spec s.countOffered
      (s.unitOf annexB (AnnexB.inspectAnnexBAccessUnit annexB).isIdr captureTimestampUs nowUs)
    exact .opens gate paused producer (by simp)

theorem gateMove_step {s t : State} {move : Step} {events : List Event} (other : ¬Resumes s move)
    (stepped : step s move = some (t, events)) : GateMove s t (Event.localIdrNeeded ∈ events) := by
  cases move with
  | sendAccessUnit annexB captureTimestampUs nowUs trackIsOpen =>
    obtain ⟨rfl, rfl⟩ := Prod.mk.inj (Option.some.inj stepped)
    exact gateMove_sendAccessUnit s annexB captureTimestampUs nowUs trackIsOpen
  | checkFeedbackTimeout nowUs =>
    obtain ⟨rfl, rfl⟩ := Prod.mk.inj (Option.some.inj stepped)
    rw [checkFeedbackTimeout]
    split_ifs
    · exact .still rfl rfl rfl (by simp)
    · exact .pauses rfl rfl rfl (by simp)
  | drainReport =>
    have drained : s.drainReport = (t, events) := Option.some.inj stepped
    rw [drainReport, if_neg fun both => other ⟨rfl, both⟩] at drained
    obtain ⟨rfl, rfl⟩ := Prod.mk.inj drained
    exact .still rfl rfl rfl (by simp)
  | packetizeNext outcome =>
    rw [step] at stepped
    split_ifs at stepped
    obtain ⟨-, gate, paused, producer, -, effect⟩ := packetizeNext_fields s outcome false
    rw [Option.some.inj stepped] at gate paused producer effect
    refine .still gate paused producer ?_
    rcases effect with none | ⟨unit, -, one⟩
    · rw [show events = _ from none]
      simp
    · rw [show events = _ from one]
      simp
  | sendMedia nowUs sent =>
    rw [step] at stepped
    split_ifs at stepped
    obtain ⟨rfl, rfl⟩ := Prod.mk.inj (Option.some.inj stepped)
    rw [sendMedia]
    split
    · exact .still rfl rfl rfl (by simp)
    · split_ifs <;> exact .still rfl rfl rfl (by simp)
  | sendOther nowUs sent =>
    rw [step] at stepped
    split_ifs at stepped
    obtain ⟨rfl, rfl⟩ := Prod.mk.inj (Option.some.inj stepped)
    exact .still rfl rfl rfl (by simp)
  | keepalive nowUs outcome sends =>
    rw [step] at stepped
    split_ifs at stepped
    obtain ⟨-, gate, paused, producer, -, effect⟩ := keepalive_spec s nowUs outcome sends
    rw [Option.some.inj stepped] at gate paused producer effect
    refine .still gate paused producer ?_
    rcases effect with none | ⟨unit, -, one⟩
    · rw [show events = _ from none]
      simp
    · rw [show events = _ from one]
      simp

theorem resumes_step {s t : State} {move : Step} {events : List Event} (resumes : Resumes s move)
    (stepped : step s move = some (t, events)) :
    t.awaitingIdr = true ∧ t.paused = false ∧ t.pausedForProducer = false ∧
      (Event.localIdrNeeded ∈ events ↔ s.awaitingIdr = false) := by
  obtain ⟨rfl, both⟩ := resumes
  have drained : s.drainReport = (t, events) := Option.some.inj stepped
  rw [drainReport, if_pos both] at drained
  obtain ⟨-, gate, paused, producer, -, -, -, request⟩ :=
    resumeAfterOutage_spec { s with firstUnfedSendUs := 0 }
  rw [drained] at gate paused producer request
  refine ⟨gate, paused, producer, ?_⟩
  rw [show events = _ from request]
  cases s.awaitingIdr <;> simp

/-! ## The request over a run -/

/-- The step, with one bit of history: an IDR was requested since the gate last closed. -/
def watch (w : State × Bool) (move : Step) : Option (State × Bool) :=
  (step w.1 move).map fun (t, events) =>
    let request := decide (Event.localIdrNeeded ∈ events)
    (t, if w.1.awaitingIdr = false ∧ t.awaitingIdr = true then request else w.2 || request)

/-- A closed gate has its request, unless media is paused. -/
def Requested (w : State × Bool) : Prop :=
  w.1.awaitingIdr = true → w.1.paused = false → w.2 = true

/-- A report that ends an outage finds the gate open. -/
def ResumesOpen (w : State × Bool) (move : Step) : Prop :=
  Resumes w.1 move → w.1.awaitingIdr = false

/-- The producer knows of the pause, and a gate closed in a pause has no request. -/
structure Quiet (w : State × Bool) : Prop where
  knows : w.1.pausedForProducer = w.1.paused
  silent : w.1.paused = true → w.1.awaitingIdr = true → w.2 = false

variable {w v : State × Bool} {move : Step}

theorem watch_cases (moved : watch w move = some v) :
    ∃ events, step w.1 move = some (v.1, events) ∧
      v.2 = if w.1.awaitingIdr = false ∧ v.1.awaitingIdr = true then decide (Event.localIdrNeeded ∈ events)
        else w.2 || decide (Event.localIdrNeeded ∈ events) := by
  obtain ⟨⟨t, events⟩, stepped, rfl⟩ := Option.map_eq_some_iff.mp moved
  exact ⟨events, stepped, rfl⟩

theorem quiet_watch (quiet : Quiet w) (moved : watch w move = some v) : Quiet v := by
  obtain ⟨events, stepped, bit⟩ := watch_cases moved
  by_cases resumes : Resumes w.1 move
  · obtain ⟨-, paused, producer, -⟩ := resumes_step resumes stepped
    exact ⟨by rw [paused, producer], fun still => by rw [paused] at still; cases still⟩
  · cases gateMove_step resumes stepped with
    | still gate paused producer silent =>
      refine ⟨by rw [paused, producer, quiet.knows], fun still shut => ?_⟩
      rw [paused] at still
      rw [gate] at shut
      simp [bit, gate, shut, silent, quiet.silent still shut]
    | opens gate paused producer silent =>
      exact ⟨by rw [paused, producer, quiet.knows], fun _ shut => by rw [gate] at shut; cases shut⟩
    | closes before gate paused producer asks =>
      refine ⟨by rw [paused, producer, quiet.knows], fun still _ => ?_⟩
      rw [paused, ← quiet.knows] at still
      simp [bit, before, gate, asks, still]
    | pauses gate paused producer silent =>
      exact ⟨by rw [paused, producer], fun _ shut => by rw [gate] at shut; cases shut⟩

theorem requested_watch (quiet : Quiet w) (requested : Requested w) (moved : watch w move = some v) :
    Requested v ↔ ResumesOpen w move := by
  obtain ⟨events, stepped, bit⟩ := watch_cases moved
  by_cases resumes : Resumes w.1 move
  · obtain ⟨gate, paused, -, asks⟩ := resumes_step resumes stepped
    rw [Requested, ResumesOpen, imp_iff_right gate, imp_iff_right paused, imp_iff_right resumes, bit]
    cases before : w.1.awaitingIdr with
    | true => simp [asks, before, quiet.silent resumes.2.2 before]
    | false => simp [asks, before, gate]
  · refine iff_of_true (fun shut running => ?_) fun again => absurd again resumes
    cases gateMove_step resumes stepped with
    | still gate paused producer silent =>
      rw [gate] at shut
      rw [paused] at running
      simp [bit, shut, requested shut running]
    | opens gate paused producer silent =>
      rw [gate] at shut
      cases shut
    | closes before gate paused producer asks =>
      rw [paused, ← quiet.knows] at running
      simp [bit, before, gate, asks, running]
    | pauses gate paused producer silent =>
      rw [paused] at running
      cases running

/-- Over a run every closed gate has its request exactly when every resume finds
the gate open. -/
theorem requested_always_iff (controller rtx : Bool) (rtpStartTimestamp : BitVec 32)
    (steps : List Step) :
    Runs.Always watch Requested (start controller rtx rtpStartTimestamp, false) steps ↔
      Runs.EachStep watch ResumesOpen (start controller rtx rtpStartTimestamp, false) steps := by
  apply Runs.always_iff_eachStep Quiet
  · exact fun _ _ _ quiet moved => quiet_watch quiet moved
  · exact fun _ _ _ quiet requested moved => requested_watch quiet requested moved
  · exact ⟨rfl, fun paused => by cases paused⟩
  · exact fun shut => by cases shut

/-- A timeout, then more deltas than the queue takes before the next keepalive,
then the report that ends the outage. -/
def closedInOutage : List Step :=
  [.sendOther 1 true, .checkFeedbackTimeout 1000002] ++
    (List.range 17).map (fun i => .sendAccessUnit [0, 0, 1, 0x41] (16000 * i) 1000100 true) ++ [.drainReport]

/-- After it the gate is closed, media runs, and nobody asked for an IDR. -/
theorem requested_fails_after_outage :
    ∃ w, Runs.run watch (start true false 0, false) closedInOutage = some w ∧
      w.1.awaitingIdr = true ∧ w.1.paused = false ∧ w.2 = false ∧ ¬Requested w := by
  have facts : (Runs.run watch (start true false 0, false) closedInOutage).map
      (fun w => (w.1.awaitingIdr, w.1.paused, w.2)) = some (true, false, false) := by decide +kernel
  obtain ⟨w, ran, same⟩ := Option.map_eq_some_iff.mp facts
  obtain ⟨shut, running, silent⟩ : _ ∧ _ ∧ _ := by simpa only [Prod.mk.injEq] using same
  refine ⟨w, ran, shut, running, silent, fun requested => ?_⟩
  rw [requested shut running] at silent
  cases silent

end Mello.Transport.SenderGate
