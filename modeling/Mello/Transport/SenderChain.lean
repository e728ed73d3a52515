import Mello.Library.Consecutive
import Mello.Library.Linked
import Mello.Transport.RtpVideoSender

/-!
The picture chain through the sender. Once a unit is dropped or refused, the
gate holds the deltas back until an IDR, so what the worker packetizes between
two IDRs is what the producer offered between them, without a loss. Only the
keepalive of an outage may break the chain, and the resume closes the gate.
-/

namespace Mello.Transport.SenderChain
open Mello.Library AnnexB RtpVideoSender State

/-! ## One call of the producer -/

/-- All that a call of `send_access_unit` can do. -/
theorem sendAccessUnit_cases (s : State) (annexB : List Twcc.Byte) (captureTimestampUs : Nat) (nowUs : Int)
    (trackIsOpen : Bool) :
    let unit := s.unitOf annexB (inspectAnnexBAccessUnit annexB).isIdr captureTimestampUs nowUs
    let answer := s.sendAccessUnit annexB captureTimestampUs nowUs trackIsOpen
    answer = (s, .failed, []) ∨
      (unit.isIdr = false ∧ s.awaitingIdr = true ∧
        answer = (s.countOffered, .backpressure, [.offered unit .backpressure])) ∨
      ((unit.isIdr = false → s.awaitingIdr = false) ∧ answer = s.countOffered.overflow unit) ∨
      (unit.isIdr = false ∧ s.awaitingIdr = false ∧
        (s.idrInSender = true ∨ s.accessUnitQueue.length < kMaxQueuedAccessUnits) ∧
        unit.bytes.length ≤ kMaxQueuedBytes - s.queuedBytesValue ∧
        answer = ((s.countOffered.pushDelta unit).stampCapture captureTimestampUs, .accepted,
          [.offered unit .accepted])) ∨
      (unit.isIdr = true ∧ unit.bytes.length ≤ kMaxQueuedBytes ∧
        answer = ((s.countOffered.pushIdr unit).stampCapture captureTimestampUs, .accepted,
          [.offered unit .accepted])) := by
  intro unit answer
  have definition : answer = s.sendAccessUnit annexB captureTimestampUs nowUs trackIsOpen := rfl
  rw [sendAccessUnit] at definition
  dsimp only at definition
  split_ifs at definition with closed late gate bound oversize kind
  · exact .inl definition
  · exact .inl definition
  · exact .inr (.inl ⟨gate.1, gate.2, definition⟩)
  · refine .inr (.inr (.inl ⟨fun delta => ?_, definition⟩))
    by_contra shut
    exact gate ⟨delta, Bool.eq_true_of_not_eq_false shut⟩
  · refine .inr (.inr (.inl ⟨fun delta => ?_, definition⟩))
    by_contra shut
    exact gate ⟨delta, Bool.eq_true_of_not_eq_false shut⟩
  · exact .inr (.inr (.inr (.inr ⟨kind, not_lt.mp oversize, definition⟩)))
  · have delta : unit.isIdr = false := by simpa using kind
    refine .inr (.inr (.inr (.inl ⟨delta, ?_, ?_, ?_, definition⟩)))
    · by_contra shut
      exact gate ⟨delta, Bool.eq_true_of_not_eq_false shut⟩
    · by_contra full
      rw [not_or, not_lt] at full
      exact bound ⟨delta, .inl ⟨Bool.eq_false_of_not_eq_true full.1, full.2⟩⟩
    · by_contra large
      exact bound ⟨delta, .inr (not_le.mp large)⟩

/-- A unit that does not fit leaves the queued IDRs and a closed gate; the
request goes with the closing, outside an outage. -/
theorem overflow_spec (s : State) (unit : AccessUnit) :
    s.overflow unit =
      ({ s.dropQueuedDeltas with awaitingIdr := true }, .backpressure,
        .offered unit .backpressure ::
          if s.awaitingIdr = true ∨ s.pausedForProducer = true then [] else [.localIdrNeeded]) := by
  rw [overflow, enterIdrGate]
  by_cases shut : s.awaitingIdr = true
  · have same : s.dropQueuedDeltas.awaitingIdr = true := shut
    rw [if_pos same, if_pos (.inl shut), ← shut]
    rfl
  · have same : ¬s.dropQueuedDeltas.awaitingIdr = true := shut
    rw [if_neg same]
    by_cases paused : s.pausedForProducer = true
    · have still : s.dropQueuedDeltas.pausedForProducer = true := paused
      rw [if_pos still, if_pos (.inr paused)]
    · have still : ¬s.dropQueuedDeltas.pausedForProducer = true := paused
      rw [if_neg still, if_neg (by rw [not_or]; exact ⟨shut, paused⟩)]

/-- An IDR goes behind the queue, or alone into it. -/
theorem pushIdr_spec (s : State) (unit : AccessUnit) :
    ∃ queue, (queue = s.accessUnitQueue ∨ queue = []) ∧
      (s.pushIdr unit).accessUnitQueue = queue ++ [unit] ∧ (s.pushIdr unit).awaitingIdr = false ∧
      (s.pushIdr unit).paused = s.paused ∧ (s.pushIdr unit).offeredUnits = s.offeredUnits ∧
      (s.pushIdr unit).pausedForProducer = s.pausedForProducer ∧
      (s.pushIdr unit).idrInSender = true ∧ (s.pushIdr unit).mediaPackets = s.mediaPackets := by
  rw [pushIdr]
  split_ifs
  · exact ⟨[], .inr rfl, rfl, rfl, rfl, rfl, rfl, rfl, rfl⟩
  · exact ⟨_, .inl rfl, rfl, rfl, rfl, rfl, rfl, rfl, rfl⟩

/-! ## The log of a run -/

def offeredIn (log : List Event) : List AccessUnit :=
  log.filterMap fun
    | .offered unit _ => some unit
    | _ => none

/-- The packetized units, and whether the keepalive took them. -/
def packetizedIn (log : List Event) : List (AccessUnit × Bool) :=
  log.filterMap fun
    | .packetized unit keepalive => some (unit, keepalive)
    | _ => none

@[simp] theorem offeredIn_append (log more : List Event) :
    offeredIn (log ++ more) = offeredIn log ++ offeredIn more := List.filterMap_append

@[simp] theorem packetizedIn_append (log more : List Event) :
    packetizedIn (log ++ more) = packetizedIn log ++ packetizedIn more := List.filterMap_append

/-! ## The invariant -/

def place (unit : AccessUnit) : Int := unit.number

/-- An IDR and a keepalive follow anything. Any other unit follows the one
offered right before it, and that one did not go out in a keepalive as a delta. -/
def Follows (previous : Option (AccessUnit × Bool)) (entry : AccessUnit × Bool) : Prop :=
  entry.1.isIdr = true ∨ entry.2 = true ∨
    match previous with
    | none => entry.1.number = 0
    | some (unit, keepalive) =>
      entry.1.number = unit.number + 1 ∧ (unit.isIdr = true ∨ keepalive = false)

/-- The packetized units, and behind them the queued ones. -/
def pipeline (packetized : List (AccessUnit × Bool)) (queue : List AccessUnit) :
    List (AccessUnit × Bool) := packetized ++ queue.map fun unit => (unit, false)

/-- The next unit offered may follow the pipeline even as a delta. -/
def Open (pipe : List (AccessUnit × Bool)) (next : Nat) : Prop :=
  ∀ unit : AccessUnit, unit.number = next → Follows pipe.getLast? (unit, false)

structure Intact (s : State) (offered : List AccessUnit) (packetized : List (AccessUnit × Bool)) : Prop where
  count : s.offeredUnits = offered.length
  numbered : Consecutive (place) 0 offered
  queued : ∀ unit ∈ s.accessUnitQueue, unit ∈ offered
  known : ∀ entry ∈ packetized, entry.1 ∈ offered
  gate : s.awaitingIdr = true → ∀ unit ∈ s.accessUnitQueue, unit.isIdr = true
  chained : Linked Follows none packetized
  waiting : s.paused = false → Linked Follows none (pipeline packetized s.accessUnitQueue)
  «open» : s.paused = false → s.awaitingIdr = false →
    Open (pipeline packetized s.accessUnitQueue) s.offeredUnits

variable {s t : State} {offered : List AccessUnit} {packetized : List (AccessUnit × Bool)}

theorem follows_idr {unit : AccessUnit} (idr : unit.isIdr = true) (keepalive : Bool)
    (previous : Option (AccessUnit × Bool)) : Follows previous (unit, keepalive) := .inl idr

theorem linked_idrs {queue : List AccessUnit} (idrs : ∀ unit ∈ queue, unit.isIdr = true)
    (chained : Linked Follows none packetized) : Linked Follows none (pipeline packetized queue) := by
  apply chained.append_of_free
  intro entry member other
  obtain ⟨unit, inside, rfl⟩ := List.mem_map.mp member
  exact follows_idr (idrs unit inside) false other

theorem open_of_last (front : List (AccessUnit × Bool)) (unit : AccessUnit) :
    Open (front ++ [(unit, false)]) (unit.number + 1) := by
  intro next number
  rw [List.getLast?_concat]
  exact .inr (.inr ⟨number, .inr rfl⟩)

theorem numbered_concat (intact : Intact s offered packetized) {unit : AccessUnit}
    (number : unit.number = s.offeredUnits) :
    Consecutive (place) 0 (offered ++ [unit]) := by
  refine intact.numbered.append ?_
  have start : (0 : Int) + offered.length = place unit := by rw [place, number, intact.count]; ring
  rw [start]
  exact @Consecutive.singleton _ place unit

/-- A unit refused behind a closed gate, with only IDRs left in the queue. -/
theorem Intact.refuse (intact : Intact s offered packetized) {unit : AccessUnit}
    (number : unit.number = s.offeredUnits) (count : t.offeredUnits = s.offeredUnits + 1)
    (sublist : t.accessUnitQueue ⊆ s.accessUnitQueue) (shut : t.awaitingIdr = true)
    (idrs : ∀ unit ∈ t.accessUnitQueue, unit.isIdr = true) :
    Intact t (offered ++ [unit]) packetized where
  count := by rw [count, intact.count, List.length_append, List.length_singleton]
  numbered := numbered_concat intact number
  queued := fun other member => List.mem_append_left _ (intact.queued other (sublist member))
  known := fun entry member => List.mem_append_left _ (intact.known entry member)
  gate := fun _ => idrs
  chained := intact.chained
  waiting := fun _ => linked_idrs idrs intact.chained
  «open» := fun _ gate => by rw [shut] at gate; cases gate

/-- A unit queued behind some of the others, or behind none of them. -/
theorem Intact.push (intact : Intact s offered packetized) {unit : AccessUnit}
    (number : unit.number = s.offeredUnits) (count : t.offeredUnits = s.offeredUnits + 1)
    {queue : List AccessUnit} (left : queue = s.accessUnitQueue ∨ queue = [])
    (pushed : t.accessUnitQueue = queue ++ [unit]) (gate : t.awaitingIdr = false)
    (paused : t.paused = s.paused)
    (follows : s.paused = false → Follows (pipeline packetized queue).getLast? (unit, false)) :
    Intact t (offered ++ [unit]) packetized := by
  have pipe : pipeline packetized t.accessUnitQueue = pipeline packetized queue ++ [(unit, false)] := by
    rw [pushed, pipeline, pipeline, List.map_append, List.append_assoc]
    rfl
  constructor
  · rw [count, intact.count, List.length_append, List.length_singleton]
  · exact numbered_concat intact number
  · intro other member
    rw [pushed] at member
    rcases List.mem_append.mp member with older | new
    · rcases left with rfl | rfl
      · exact List.mem_append_left _ (intact.queued other older)
      · cases older
    · exact List.mem_append_right _ new
  · exact fun entry member => List.mem_append_left _ (intact.known entry member)
  · intro shut
    rw [gate] at shut
    cases shut
  · exact intact.chained
  · intro running
    rw [paused] at running
    rw [pipe, Linked.concat_iff, Option.or_none]
    refine ⟨?_, follows running⟩
    rcases left with rfl | rfl
    · exact intact.waiting running
    · simpa [pipeline] using intact.chained
  · intro _ _
    rw [pipe, count, ← number]
    exact open_of_last _ unit

theorem intact_sendAccessUnit (intact : Intact s offered packetized) (annexB : List Twcc.Byte)
    (captureTimestampUs : Nat) (nowUs : Int) (trackIsOpen : Bool) :
    let answer := s.sendAccessUnit annexB captureTimestampUs nowUs trackIsOpen
    Intact answer.1 (offered ++ offeredIn answer.2.2) (packetized ++ packetizedIn answer.2.2) := by
  intro answer
  have cases := sendAccessUnit_cases s annexB captureTimestampUs nowUs trackIsOpen
  dsimp only at cases
  rcases cases with failed | ⟨delta, shut, refused⟩ | ⟨fits, refused⟩ | ⟨delta, gate, -, -, accepted⟩ |
    ⟨idr, -, accepted⟩
  · simpa [answer, failed, offeredIn, packetizedIn] using intact
  · rw [show answer = _ from refused]
    change Intact _ (offered ++ [_]) (packetized ++ [])
    rw [List.append_nil]
    exact intact.refuse rfl rfl (fun _ member => member) shut (intact.gate shut)
  · rw [overflow_spec] at refused
    have quiet : packetizedIn answer.2.2 = [] := by
      rw [show answer = _ from refused]
      dsimp only
      split_ifs <;> rfl
    have events : offeredIn answer.2.2 = [s.unitOf annexB (inspectAnnexBAccessUnit annexB).isIdr
        captureTimestampUs nowUs] := by
      rw [show answer = _ from refused]
      dsimp only
      split_ifs <;> rfl
    rw [events, quiet, List.append_nil, show answer = _ from refused]
    exact intact.refuse rfl rfl (List.filter_subset_self _) rfl
      fun unit member => (List.mem_filter.mp member).2
  · rw [show answer = _ from accepted]
    change Intact _ (offered ++ [_]) (packetized ++ [])
    rw [List.append_nil]
    exact intact.push rfl rfl (.inl rfl) rfl gate rfl fun running => intact.open running gate _ rfl
  · rw [show answer = _ from accepted]
    change Intact _ (offered ++ [_]) (packetized ++ [])
    rw [List.append_nil]
    obtain ⟨queue, left, pushed, gate, paused, count, -⟩ := pushIdr_spec s.countOffered
      (s.unitOf annexB (inspectAnnexBAccessUnit annexB).isIdr captureTimestampUs nowUs)
    exact intact.push rfl count left pushed gate paused fun _ => follows_idr idr _ _

/-! ## The worker -/

theorem Intact.pause (intact : Intact s offered packetized) (count : t.offeredUnits = s.offeredUnits)
    (sublist : t.accessUnitQueue ⊆ s.accessUnitQueue) (gate : t.awaitingIdr = true → s.awaitingIdr = true)
    (paused : t.paused = true) : Intact t offered packetized where
  count := by rw [count, intact.count]
  numbered := intact.numbered
  queued := fun unit member => intact.queued unit (sublist member)
  known := intact.known
  gate := fun shut unit member => intact.gate (gate shut) unit (sublist member)
  chained := intact.chained
  waiting := fun running => by rw [paused] at running; cases running
  «open» := fun running => by rw [paused] at running; cases running

/-- A keepalive packetizes a unit: it follows anything. -/
theorem Intact.keepalive (intact : Intact s offered packetized) (paused : s.paused = true)
    {unit : AccessUnit} (member : unit ∈ offered) : Intact s offered (packetized ++ [(unit, true)]) := by
  refine { intact with known := ?_, chained := ?_, waiting := ?_, «open» := ?_ }
  · intro entry inside
    rcases List.mem_append.mp inside with older | new
    · exact intact.known entry older
    · obtain rfl := List.mem_singleton.mp new
      exact member
  · exact Linked.concat_iff.mpr ⟨intact.chained, .inr (.inl rfl)⟩
  · intro running
    rw [paused] at running
    cases running
  · intro running
    rw [paused] at running
    cases running

/-- The resume leaves an empty queue behind a closed gate. -/
theorem Intact.resume (intact : Intact s offered packetized) (count : t.offeredUnits = s.offeredUnits)
    (empty : t.accessUnitQueue = []) (shut : t.awaitingIdr = true) : Intact t offered packetized where
  count := by rw [count, intact.count]
  numbered := intact.numbered
  queued := fun unit member => by rw [empty] at member; cases member
  known := intact.known
  gate := fun _ unit member => by rw [empty] at member; cases member
  chained := intact.chained
  waiting := fun _ => by rw [empty]; exact linked_idrs (by simp) intact.chained
  «open» := fun _ gate => by rw [shut] at gate; cases gate

theorem dropQueuedAccessUnits_false (s : State) :
    (s.dropQueuedAccessUnits false).accessUnitQueue = [] := by
  simp [dropQueuedAccessUnits]

/-- The gate is shut after a resume, and the request made unless it was shut before. -/
theorem resumeAfterOutage_spec (s : State) :
    s.resumeAfterOutage.1.accessUnitQueue = [] ∧ s.resumeAfterOutage.1.awaitingIdr = true ∧
      s.resumeAfterOutage.1.paused = false ∧ s.resumeAfterOutage.1.pausedForProducer = false ∧
      s.resumeAfterOutage.1.idrInSender = false ∧ s.resumeAfterOutage.1.mediaPackets = [] ∧
      s.resumeAfterOutage.1.offeredUnits = s.offeredUnits ∧
      s.resumeAfterOutage.2 = if s.awaitingIdr then [] else [.localIdrNeeded] := by
  have same : ({ { s with paused := false }.dropMediaPackets with
      pausedForProducer := false }.dropQueuedAccessUnits false).awaitingIdr = s.awaitingIdr := rfl
  rw [resumeAfterOutage, same]
  split_ifs with shut
  · exact ⟨dropQueuedAccessUnits_false _, shut, rfl, rfl, rfl, rfl, rfl, rfl⟩
  · exact ⟨dropQueuedAccessUnits_false _, rfl, rfl, rfl, rfl, rfl, rfl, rfl⟩

theorem intact_drainReport (intact : Intact s offered packetized) :
    Intact s.drainReport.1 (offered ++ offeredIn s.drainReport.2)
      (packetized ++ packetizedIn s.drainReport.2) := by
  rw [drainReport]
  split_ifs
  · obtain ⟨empty, shut, -, -, -, -, count, events⟩ :=
      resumeAfterOutage_spec { s with firstUnfedSendUs := 0 }
    have quiet : offeredIn (resumeAfterOutage { s with firstUnfedSendUs := 0 }).2 = [] ∧
        packetizedIn (resumeAfterOutage { s with firstUnfedSendUs := 0 }).2 = [] := by
      rw [events]
      split_ifs <;> exact ⟨rfl, rfl⟩
    rw [quiet.1, quiet.2, List.append_nil, List.append_nil]
    exact intact.resume count empty shut
  · change Intact _ (offered ++ []) (packetized ++ [])
    rw [List.append_nil, List.append_nil]
    exact { intact with }

/-- The worker takes the first unit of the queue. -/
theorem intact_packetizeNext (intact : Intact s offered packetized) (running : s.paused = false)
    (packets : List (Option (List Twcc.Byte))) :
    let answer := s.packetizeNext (.batch packets) false
    Intact answer.1 (offered ++ offeredIn answer.2) (packetized ++ packetizedIn answer.2) := by
  intro answer
  cases queue : s.accessUnitQueue with
  | nil =>
    have idle : answer = (s, []) := by simp only [answer, packetizeNext, queue]
    rw [idle]
    simpa [offeredIn, packetizedIn] using intact
  | cons unit rest =>
    simp only [answer, packetizeNext, queue]
    change Intact _ (offered ++ []) (packetized ++ [(unit, false)])
    rw [List.append_nil]
    have same : pipeline (packetized ++ [(unit, false)]) rest = pipeline packetized s.accessUnitQueue := by
      rw [queue, pipeline, pipeline, List.append_assoc]
      rfl
    have whole := intact.waiting running
    have before := whole
    rw [← same, pipeline, Linked.append_iff] at before
    refine { intact with queued := ?_, known := ?_, gate := ?_, chained := ?_, waiting := ?_, «open» := ?_ }
    · exact fun other member => intact.queued other (by rw [queue]; exact List.mem_cons_of_mem _ member)
    · intro entry member
      rcases List.mem_append.mp member with older | new
      · exact intact.known entry older
      · obtain rfl := List.mem_singleton.mp new
        exact intact.queued unit (by rw [queue]; exact List.mem_cons_self)
    · exact fun shut other member =>
        intact.gate shut other (by rw [queue]; exact List.mem_cons_of_mem _ member)
    · exact before.1
    · intro _
      change Linked Follows none (pipeline _ rest)
      rw [same]
      exact whole
    · intro _ gate
      change Open (pipeline _ rest) s.offeredUnits
      rw [same]
      exact intact.open running gate

theorem packetizeNext_fields (s : State) (outcome : Packetizing) (keepalive : Bool) :
    let answer := s.packetizeNext outcome keepalive
    answer.1.accessUnitQueue = s.accessUnitQueue.tail ∧ answer.1.awaitingIdr = s.awaitingIdr ∧
      answer.1.paused = s.paused ∧ answer.1.pausedForProducer = s.pausedForProducer ∧
      answer.1.offeredUnits = s.offeredUnits ∧
      (answer.2 = [] ∨ ∃ unit ∈ s.accessUnitQueue, answer.2 = [.packetized unit keepalive]) := by
  cases queue : s.accessUnitQueue with
  | nil =>
    rw [packetizeNext, queue]
    exact ⟨queue, rfl, rfl, rfl, rfl, .inl rfl⟩
  | cons unit rest =>
    rw [packetizeNext, queue]
    cases outcome with
    | batch packets => exact ⟨rfl, rfl, rfl, rfl, rfl, .inr ⟨unit, List.mem_cons_self, rfl⟩⟩
    | trackClosed => exact ⟨rfl, rfl, rfl, rfl, rfl, .inl rfl⟩
    | sendFrameThrows => exact ⟨rfl, rfl, rfl, rfl, rfl, .inl rfl⟩
    | noBatch => exact ⟨rfl, rfl, rfl, rfl, rfl, .inl rfl⟩

theorem sendAll_fields (nowUs : Int) (media : List MediaPacket) (sends : List Bool) (s : State) :
    (sendAll nowUs media sends s).accessUnitQueue = s.accessUnitQueue ∧
      (sendAll nowUs media sends s).awaitingIdr = s.awaitingIdr ∧
      (sendAll nowUs media sends s).paused = s.paused ∧
      (sendAll nowUs media sends s).pausedForProducer = s.pausedForProducer ∧
      (sendAll nowUs media sends s).offeredUnits = s.offeredUnits ∧
      (sendAll nowUs media sends s).mediaPackets = [] := by
  induction media generalizing sends s with
  | nil => exact ⟨rfl, rfl, rfl, rfl, rfl, rfl⟩
  | cons first rest ih =>
    rw [sendAll]
    split_ifs
    · exact ih sends.tail _
    · exact ih sends.tail _

/-- All that a keepalive does to the queue and the gate. -/
theorem keepalive_spec (s : State) (nowUs : Int) (outcome : Packetizing) (sends : List Bool) :
    let answer := s.keepalive nowUs outcome sends
    answer.1.accessUnitQueue ⊆ s.accessUnitQueue ∧ answer.1.awaitingIdr = s.awaitingIdr ∧
      answer.1.paused = s.paused ∧ answer.1.pausedForProducer = s.pausedForProducer ∧
      answer.1.offeredUnits = s.offeredUnits ∧
      (answer.2 = [] ∨ ∃ unit ∈ s.accessUnitQueue, answer.2 = [.packetized unit true]) := by
  intro answer
  have left : (s.dropQueuedAccessUnits true).accessUnitQueue ⊆ s.accessUnitQueue :=
    List.drop_subset _ _
  have definition : answer = s.keepalive nowUs outcome sends := rfl
  rw [State.keepalive] at definition
  dsimp only at definition
  split_ifs at definition with early rtx idle
  · rw [definition]
    exact ⟨left, rfl, rfl, rfl, rfl, .inl rfl⟩
  · rw [definition]
    exact ⟨left, rfl, rfl, rfl, rfl, .inl rfl⟩
  · rw [definition]
    exact ⟨left, rfl, rfl, rfl, rfl, .inl rfl⟩
  · set kept := ({ s.dropQueuedAccessUnits true with
      nextKeepaliveUs := nowUs + kKeepaliveIntervalUs }).dropMediaPackets with kept_def
    obtain ⟨queue, gate, paused, producer, count, events⟩ := packetizeNext_fields kept outcome true
    obtain ⟨queue', gate', paused', producer', count', -⟩ := sendAll_fields nowUs
      (kept.packetizeNext outcome true).1.mediaPackets sends (kept.packetizeNext outcome true).1
    rw [definition]
    refine ⟨?_, gate'.trans gate, paused'.trans paused, producer'.trans producer, count'.trans count, ?_⟩
    · intro unit member
      change unit ∈ State.accessUnitQueue (sendAll ..) at member
      rw [queue', queue] at member
      exact left (List.mem_of_mem_tail member)
    · exact events.imp_right fun ⟨unit, member, same⟩ => ⟨unit, left member, same⟩

/-! ## Runs -/

/-- The track is open at every step: what the worker takes comes out as packets. -/
def Delivers : Step → Prop
  | .packetizeNext outcome => ∃ packets, outcome = .batch packets
  | _ => True

theorem intact_step (intact : Intact s offered packetized) {move : Step} {t : State} {events : List Event}
    (delivers : Delivers move) (stepped : step s move = some (t, events)) :
    Intact t (offered ++ offeredIn events) (packetized ++ packetizedIn events) := by
  have still : ∀ {u : State}, u.accessUnitQueue = s.accessUnitQueue → u.awaitingIdr = s.awaitingIdr →
      u.paused = s.paused → u.offeredUnits = s.offeredUnits →
      Intact u (offered ++ offeredIn []) (packetized ++ packetizedIn []) := by
    intro u queue gate paused count
    change Intact u (offered ++ []) (packetized ++ [])
    rw [List.append_nil, List.append_nil]
    exact ⟨by rw [count, intact.count], intact.numbered, by rw [queue]; exact intact.queued, intact.known,
      by rw [gate, queue]; exact intact.gate, intact.chained, by rw [paused, queue]; exact intact.waiting,
      by rw [paused, gate, queue, count]; exact intact.open⟩
  cases move with
  | sendAccessUnit annexB captureTimestampUs nowUs trackIsOpen =>
    obtain ⟨rfl, rfl⟩ := Prod.mk.inj (Option.some.inj stepped)
    exact intact_sendAccessUnit intact annexB captureTimestampUs nowUs trackIsOpen
  | checkFeedbackTimeout nowUs =>
    obtain ⟨rfl, rfl⟩ := Prod.mk.inj (Option.some.inj stepped)
    rw [checkFeedbackTimeout]
    split_ifs
    · exact still rfl rfl rfl rfl
    · change Intact _ (offered ++ []) (packetized ++ [])
      rw [List.append_nil, List.append_nil]
      exact intact.pause rfl (fun _ member => member) (fun shut => by cases shut) rfl
  | drainReport =>
    have drained := intact_drainReport intact
    rwa [show s.drainReport = (t, events) from Option.some.inj stepped] at drained
  | packetizeNext outcome =>
    obtain ⟨packets, rfl⟩ := delivers
    rw [step] at stepped
    split_ifs at stepped with ready
    obtain same := Option.some.inj stepped
    have taken := intact_packetizeNext intact ready.1 packets
    dsimp only at taken
    rwa [same] at taken
  | sendMedia nowUs sent =>
    rw [step] at stepped
    split_ifs at stepped
    obtain ⟨rfl, rfl⟩ := Prod.mk.inj (Option.some.inj stepped)
    rw [sendMedia]
    split
    · exact still rfl rfl rfl rfl
    · split_ifs <;> exact still rfl rfl rfl rfl
  | sendOther nowUs sent =>
    rw [step] at stepped
    split_ifs at stepped
    obtain ⟨rfl, rfl⟩ := Prod.mk.inj (Option.some.inj stepped)
    exact still rfl rfl rfl rfl
  | keepalive nowUs outcome sends =>
    rw [step] at stepped
    split_ifs at stepped with paused
    obtain ⟨sublist, gate, same, -, count, effect⟩ := keepalive_spec s nowUs outcome sends
    rw [Option.some.inj stepped] at sublist gate same count effect
    have after := intact.pause (t := t) count sublist (fun shut => by rw [← gate]; exact shut)
      (same.trans paused)
    rcases effect with none | ⟨unit, member, one⟩
    · rw [show events = [] from none]
      simpa [offeredIn, packetizedIn] using after
    · rw [show events = _ from one]
      change Intact t (offered ++ []) (packetized ++ [(unit, true)])
      rw [List.append_nil]
      exact after.keepalive (same.trans paused) (intact.queued unit member)

/-- A sender before its first call. -/
def start (controller rtx : Bool) (rtpStartTimestamp : BitVec 32) : State :=
  { controller, rtx, rtpStartTimestamp }

theorem intact_start (controller rtx : Bool) (rtpStartTimestamp : BitVec 32) :
    Intact (start controller rtx rtpStartTimestamp) [] [] where
  count := rfl
  numbered := .nil
  queued := fun _ member => by cases member
  known := fun _ member => by cases member
  gate := fun _ _ member => by cases member
  chained := trivial
  waiting := fun _ => trivial
  «open» := fun _ _ _ number => .inr (.inr number)

theorem intact_run {controller rtx : Bool} {rtpStartTimestamp : BitVec 32} {steps : List Step}
    {log : List Event} (delivers : ∀ move ∈ steps, Delivers move)
    (ran : Runs.run (Runs.logged step) (start controller rtx rtpStartTimestamp, []) steps = some (s, log)) :
    Intact s (offeredIn log) (packetizedIn log) := by
  refine Runs.run_logged_invariant (fun s log => Intact s (offeredIn log) (packetizedIn log)) ?_
    (intact_start controller rtx rtpStartTimestamp) ran
  intro move member s t log events intact stepped
  rw [offeredIn_append, packetizedIn_append]
  exact intact_step intact (delivers move member) stepped

/-! ## The chain between two IDRs -/

/-- The number of the unit right after another one, or of the first unit. -/
def placeAfter : Option (AccessUnit × Bool) → Int
  | none => 0
  | some entry => place entry.1 + 1

theorem place_of_follows {previous : Option (AccessUnit × Bool)} {d : AccessUnit}
    (follows : Follows previous (d, false)) (delta : d.isIdr = false) :
    place d = placeAfter previous ∧
      ∀ unit keepalive, previous = some (unit, keepalive) → unit.isIdr = true ∨ keepalive = false := by
  rcases follows with idr | kept | number
  · rw [delta] at idr
    cases idr
  · cases kept
  · cases previous with
    | none =>
      have first : d.number = 0 := number
      exact ⟨by rw [place, placeAfter, first]; rfl, fun _ _ same => by cases same⟩
    | some entry =>
      have next : d.number = entry.1.number + 1 := number.1
      refine ⟨by rw [place, placeAfter, place, next]; rfl, fun unit keepalive same => ?_⟩
      obtain rfl := Option.some.inj same
      exact number.2

/-- Back from a delta that went out outside the keepalive to the last IDR, no
unit went out in a keepalive, and the numbers run on. -/
theorem consecutive_of_linked {previous : Option (AccessUnit × Bool)}
    {between : List (AccessUnit × Bool)} {d : AccessUnit}
    (linked : Linked Follows previous (between ++ [(d, false)])) (delta : d.isIdr = false)
    (deltas : ∀ entry ∈ between, entry.1.isIdr = false) :
    Consecutive place (placeAfter previous) (between.map Prod.fst ++ [d]) := by
  induction between using List.reverseRecOn generalizing d with
  | nil =>
    rw [← (place_of_follows linked.1 delta).1]
    exact Consecutive.singleton d
  | append_singleton front entry ih =>
    obtain ⟨unit, keepalive⟩ := entry
    obtain ⟨earlier, follows⟩ := Linked.concat_iff.mp linked
    rw [List.getLast?_concat, Option.some_or] at follows
    obtain ⟨number, fresh⟩ := place_of_follows follows delta
    have inner : unit.isIdr = false := deltas (unit, keepalive) (by simp)
    obtain rfl : keepalive = false := (fresh unit keepalive rfl).resolve_left (by simp [inner])
    have run := ih earlier inner fun other member => deltas other (List.mem_append_left _ member)
    rw [List.map_append, List.map_singleton]
    refine run.append ?_
    have here := run (front.map Prod.fst).length unit (by simp)
    have start : placeAfter previous + (front.map Prod.fst ++ [unit]).length = place d := by
      rw [number, placeAfter, List.length_append, List.length_singleton]
      push_cast
      omega
    rw [start]
    exact Consecutive.singleton d

/-- The chain is whole: whenever a delta is packetized outside the keepalive,
the units packetized since the last IDR are, in order, all the units offered
after that IDR and before the delta; without an IDR so far, all the units
offered before it. -/
theorem packetized_whole_chain {controller rtx : Bool} {rtpStartTimestamp : BitVec 32}
    {steps : List Step} {s : State} {log : List Event} (delivers : ∀ move ∈ steps, Delivers move)
    (ran : Runs.run (Runs.logged step) (start controller rtx rtpStartTimestamp, []) steps = some (s, log))
    {front between after : List (AccessUnit × Bool)} {d : AccessUnit}
    (packetized : packetizedIn log = front ++ between ++ (d, false) :: after) (delta : d.isIdr = false)
    (deltas : ∀ entry ∈ between, entry.1.isIdr = false) :
    (front = [] → ∃ newer, offeredIn log = between.map Prod.fst ++ d :: newer) ∧
      ∀ idr keepalive, front.getLast? = some (idr, keepalive) → idr.isIdr = true →
        ∃ older newer, offeredIn log = older ++ idr :: (between.map Prod.fst ++ d :: newer) := by
  have intact := intact_run delivers ran
  have known := intact.known
  have chained := intact.chained
  have shape : packetizedIn log = front ++ ((between ++ [(d, false)]) ++ after) := by
    rw [packetized]
    simp
  rw [shape, Linked.append_iff, Linked.append_iff, Option.or_none] at chained
  have run := consecutive_of_linked chained.2.1 delta deltas
  have inside : ∀ unit ∈ between.map Prod.fst ++ [d], unit ∈ offeredIn log := by
    intro unit member
    rcases List.mem_append.mp member with early | last
    · obtain ⟨entry, listed, rfl⟩ := List.mem_map.mp early
      exact known entry (by rw [packetized]; simp [listed])
    · obtain rfl := List.mem_singleton.mp last
      exact known (unit, false) (by rw [packetized]; simp)
  constructor
  · rintro rfl
    have taken := intact.numbered.infix_of_subset run inside
    refine ⟨(offeredIn log).drop (between.map Prod.fst ++ [d]).length, ?_⟩
    conv_lhs => rw [← List.take_append_drop (between.map Prod.fst ++ [d]).length (offeredIn log)]
    rw [List.drop_zero] at taken
    rw [taken, List.append_assoc]
    rfl
  · intro idr keepalive last isIdr
    rw [last] at run
    have lead : Consecutive place idr.number (idr :: (between.map Prod.fst ++ [d])) :=
      (@Consecutive.singleton _ place idr).append run
    have listed : idr ∈ offeredIn log :=
      known (idr, keepalive) (by rw [shape]; exact List.mem_append_left _ (List.mem_of_getLast? last))
    have taken := intact.numbered.infix_of_subset lead (by
      intro unit member
      rcases List.mem_cons.mp member with rfl | later
      · exact listed
      · exact inside unit later)
    refine ⟨(offeredIn log).take idr.number,
      ((offeredIn log).drop idr.number).drop (idr :: (between.map Prod.fst ++ [d])).length, ?_⟩
    conv_lhs => rw [← List.take_append_drop idr.number (offeredIn log),
      ← List.take_append_drop (idr :: (between.map Prod.fst ++ [d])).length
        ((offeredIn log).drop idr.number), taken]
    simp

/-- An IDR and two deltas through an idle sender. -/
def idrAndDeltas : List Step :=
  [.sendAccessUnit [0, 0, 1, 0x65] 0 1000 true, .packetizeNext (.batch [some [0x80, 96, 0, 1]]),
    .sendMedia 1100 true, .sendAccessUnit [0, 0, 1, 0x41] 16000 17000 true,
    .sendAccessUnit [0, 0, 1, 0x61] 32000 33000 true, .packetizeNext (.batch [some [0x80, 96, 0, 2]]),
    .sendMedia 33100 true, .packetizeNext (.batch [some [0x80, 96, 0, 3]])]

theorem packetized_whole_chain_idrAndDeltas :
    ∃ s log older newer, Runs.run (Runs.logged step) (start true false 0, []) idrAndDeltas = some (s, log) ∧
      offeredIn log = older ++ ⟨[0, 0, 1, 0x65], 0, true, 1000, 0⟩ ::
        (⟨[0, 0, 1, 0x41], 1440, false, 17000, 1⟩ ::
          ⟨[0, 0, 1, 0x61], 2880, false, 33000, 2⟩ :: newer) := by
  have ends : (Runs.run (Runs.logged step) (start true false 0, []) idrAndDeltas).map
      (fun after => packetizedIn after.2) =
      some [(⟨[0, 0, 1, 0x65], 0, true, 1000, 0⟩, false), (⟨[0, 0, 1, 0x41], 1440, false, 17000, 1⟩, false),
        (⟨[0, 0, 1, 0x61], 2880, false, 33000, 2⟩, false)] := by decide +kernel
  obtain ⟨⟨s, log⟩, ran, packetized⟩ := Option.map_eq_some_iff.mp ends
  have delivers : ∀ move ∈ idrAndDeltas, Delivers move := by
    intro move member
    simp only [idrAndDeltas, List.mem_cons, List.not_mem_nil, or_false] at member
    rcases member with rfl | rfl | rfl | rfl | rfl | rfl | rfl | rfl <;>
      first | trivial | exact ⟨_, rfl⟩
  have split : packetizedIn log = [(⟨[0, 0, 1, 0x65], 0, true, 1000, 0⟩, false)] ++
      [(⟨[0, 0, 1, 0x41], 1440, false, 17000, 1⟩, false)] ++
        (⟨[0, 0, 1, 0x61], 2880, false, 33000, 2⟩, false) :: [] := packetized
  obtain ⟨-, chain⟩ := packetized_whole_chain delivers ran split rfl (by simp)
  obtain ⟨older, newer, whole⟩ := chain _ _ rfl rfl
  exact ⟨s, log, older, newer, ran, whole⟩

end Mello.Transport.SenderChain
