import Mello.Transport.GoogCcHistory

/-!
The bytes in flight over whole runs. They are the bytes of the unreported
records, no saturating subtraction ever saturates, only a sent packet adds to
them, and no packet is handed to goog_cc in two feedbacks.
-/

namespace Mello.Transport.GoogCcAccounting
open Mello.Library Twcc GoogCc GoogCcController GoogCcHistory

/-! ## The log of a run -/

def sentIn (log : List Handed) : List SentPacket :=
  log.filterMap fun
    | .sentPacket packet => some packet
    | _ => none

/-- The packets of all feedbacks handed to goog_cc. -/
def matchedIn (log : List Handed) : List PacketResult :=
  log.flatMap fun
    | .transportPacketsFeedback report => report.packetFeedbacks
    | _ => []

@[simp] theorem sentIn_append (log more : List Handed) :
    sentIn (log ++ more) = sentIn log ++ sentIn more := List.filterMap_append

@[simp] theorem matchedIn_append (log more : List Handed) :
    matchedIn (log ++ more) = matchedIn log ++ matchedIn more := List.flatMap_append

/-- The packet behind a record. -/
def Sends (packet : SentPacket) (record : Record) : Prop :=
  packet.sequenceNumber = record.sequence ∧ packet.sendTime = record.sendTimeUs ∧
    packet.size = record.bytes ∧ packet.pacingInfo = record.pacingInfo

/-- The packet behind an entry of a feedback. -/
def Reports (packet : SentPacket) (result : PacketResult) : Prop :=
  packet.sequenceNumber = result.sequenceNumber ∧ packet.sendTime = result.sendTime ∧
    packet.size = result.size ∧ packet.pacingInfo = result.pacingInfo

/-- What holds between calls of the controller, of the packets it sent and of
those it matched so far. -/
structure Accounted (c : GoogCcController) (sent : List SentPacket) (matched : List PacketResult) :
    Prop where
  balanced : Balanced (c.history, c.flight)
  published : c.inFlightBytes = c.flight.inFlightBytes
  ordered : Ordered c.history c.newestSequence
  sentIncreasing : (sent.map SentPacket.sequenceNumber).Pairwise (· < ·)
  sentNewest : ∀ packet ∈ sent, packet.sequenceNumber ≤ c.newestSequence
  recorded : ∀ record ∈ c.history, ∃ packet ∈ sent, Sends packet record
  reports : ∀ result ∈ matched, ∃ packet ∈ sent, Reports packet result
  once : (matched.map PacketResult.sequenceNumber).Nodup
  settled : ∀ result ∈ matched, Settled c.history result.sequenceNumber

variable {c d : GoogCcController} {sent : List SentPacket} {matched : List PacketResult}

/-- A call that only lets records age and leave. -/
theorem Accounted.age (accounted : Accounted c sent matched) (balanced : Balanced (d.history, d.flight))
    (suffix : sequences d.history <:+ sequences c.history) (ages : Ages c.history d.history)
    (newest : d.newestSequence = c.newestSequence)
    (published : d.inFlightBytes = d.flight.inFlightBytes) : Accounted d sent matched := by
  constructor
  · exact balanced
  · exact published
  · rw [newest]
    exact accounted.ordered.of_suffix suffix
  · exact accounted.sentIncreasing
  · rw [newest]
    exact accounted.sentNewest
  · intro record member
    obtain ⟨older, inside, source⟩ := ages record member
    obtain ⟨packet, known, sends⟩ := accounted.recorded older inside
    refine ⟨packet, known, ?_⟩
    rcases source with rfl | rfl
    · exact sends
    · exact sends
  · exact accounted.reports
  · exact accounted.once
  · exact fun result member => ages.settled (accounted.settled result member)

theorem Accounted.settle (accounted : Accounted c sent matched)
    (settles : Settles (c.history, c.flight) (d.history, d.flight))
    (newest : d.newestSequence = c.newestSequence)
    (published : d.inFlightBytes = d.flight.inFlightBytes) : Accounted d sent matched :=
  accounted.age (settles.balanced accounted.balanced) settles.suffix settles.ages newest published

/-! ## The matching of a report -/

/-- A lookup that finds an unreported record. -/
theorem settled_set {history : List Record} {newestSequence : Int}
    (ordered : Ordered history newestSequence) {index : Nat} {record : Record}
    (found : history[index]? = some record) :
    Settled (history.set index record.markReported) record.sequence := by
  intro other member same
  obtain ⟨i, here⟩ := List.mem_iff_getElem?.mp member
  rw [List.getElem?_set] at here
  split_ifs at here with place inside
  · rw [← Option.some.inj here]
    rfl
  · exact absurd (ordered.index_unique found here same.symm) place

/-- Each entry comes from a record that was unreported, and is settled after. -/
theorem matchPackets_spec {newestSequence offsetUs newest : Int} {packets : List TwccPacketResult}
    {state final : Matching} (ran : matchPackets newestSequence offsetUs packets state = some final)
    (ordered : Ordered state.history newest)
    (once : (state.packetFeedbacks.map PacketResult.sequenceNumber).Nodup)
    (settled : ∀ result ∈ state.packetFeedbacks, Settled state.history result.sequenceNumber) :
    (final.packetFeedbacks.map PacketResult.sequenceNumber).Nodup ∧
      (∀ result ∈ final.packetFeedbacks, Settled final.history result.sequenceNumber) ∧
      ∀ result ∈ final.packetFeedbacks, result ∈ state.packetFeedbacks ∨
        ∃ record ∈ state.history, ∃ packet ∈ packets,
          record.reported = false ∧ result = resultOf offsetUs record packet := by
  induction packets generalizing state with
  | nil =>
    obtain rfl : state = final := Option.some.inj ran
    exact ⟨once, settled, fun result member => .inl member⟩
  | cons packet rest ih =>
    have widen : ∀ {result}, (∃ record ∈ state.history, ∃ packet ∈ rest,
        record.reported = false ∧ result = resultOf offsetUs record packet) →
        ∃ record ∈ state.history, ∃ other ∈ packet :: rest,
          record.reported = false ∧ result = resultOf offsetUs record other := by
      rintro result ⟨record, inside, other, listed, source⟩
      exact ⟨record, inside, other, List.mem_cons_of_mem _ listed, source⟩
    rw [matchPackets] at ran
    split at ran
    · cases ran
    · obtain ⟨nodup, after, source⟩ := ih ran ordered once settled
      exact ⟨nodup, after, fun result member => (source result member).imp_right widen⟩
    · rename_i index record found
      split_ifs at ran with reported
      · obtain ⟨nodup, after, source⟩ := ih ran ordered once settled
        exact ⟨nodup, after, fun result member => (source result member).imp_right widen⟩
      · have fresh : record.reported = false := by simpa using reported
        obtain ⟨place, same⟩ := of_find found
        have step := set_settle state.flight place fresh
        have inside : record ∈ state.history := List.mem_of_getElem? place
        obtain ⟨nodup, after, source⟩ := ih ran (ordered.of_suffix step.suffix) (by
          rw [List.map_append, List.nodup_append]
          refine ⟨once, List.nodup_singleton _, ?_⟩
          rintro a member b new rfl
          obtain ⟨result, known, number⟩ := List.mem_map.mp member
          obtain rfl : a = record.sequence := List.mem_singleton.mp new
          exact reported (settled result known record inside number.symm)) (by
          intro result member
          rcases List.mem_append.mp member with older | new
          · exact step.ages.settled (settled result older)
          · obtain rfl := List.mem_singleton.mp new
            exact settled_set ordered place)
        refine ⟨nodup, after, fun result member => ?_⟩
        rcases source result member with earlier | ⟨later, inLater, other, listed, unreported, rfl⟩
        · rcases List.mem_append.mp earlier with older | new
          · exact .inl older
          · exact .inr ⟨record, inside, packet, List.mem_cons_self, fresh, List.mem_singleton.mp new⟩
        · obtain ⟨older, inOlder, rfl | rfl⟩ := step.ages later inLater
          · exact .inr ⟨later, inOlder, other, List.mem_cons_of_mem _ listed, unreported, rfl⟩
          · cases unreported

/-- New entries of unreported records, settled by the call. -/
theorem Accounted.extend (accounted : Accounted c sent matched)
    (aged : Accounted d sent matched) (offsetUs : Int) {results : List PacketResult}
    (once : (results.map PacketResult.sequenceNumber).Nodup)
    (settled : ∀ result ∈ results, Settled d.history result.sequenceNumber)
    (source : ∀ result ∈ results, ∃ record ∈ c.history, ∃ packet,
      record.reported = false ∧ result = resultOf offsetUs record packet) :
    Accounted d sent (matched ++ results) := by
  refine { aged with reports := ?_, once := ?_, settled := ?_ }
  · intro result member
    rcases List.mem_append.mp member with older | new
    · exact accounted.reports result older
    · obtain ⟨record, inside, packet, -, rfl⟩ := source result new
      obtain ⟨sentPacket, known, sends⟩ := accounted.recorded record inside
      exact ⟨sentPacket, known, sends⟩
  · rw [List.map_append, List.nodup_append]
    refine ⟨accounted.once, once, ?_⟩
    rintro a older b new rfl
    obtain ⟨first, inFirst, rfl⟩ := List.mem_map.mp older
    obtain ⟨second, inSecond, same⟩ := List.mem_map.mp new
    obtain ⟨record, inside, packet, unreported, rfl⟩ := source second inSecond
    have reported := accounted.settled first inFirst record inside same
    rw [unreported] at reported
    cases reported
  · intro result member
    rcases List.mem_append.mp member with older | new
    · exact aged.settled result older
    · exact settled result new

/-! ## The calls -/

theorem newer_of_not_stale {packet : SentPacketInfo} (new : ¬c.Stale packet) :
    c.newestSequence < (c.recordOf packet).sequence := by
  by_contra behind
  refine new ⟨?_, not_lt.mp behind⟩
  by_contra first
  rw [recordOf, unwrapSequence, if_pos (not_le.mp first)] at behind
  dsimp only at behind
  omega

theorem unreportedBytes_push (history : List Record) (packet : SentPacketInfo) :
    unreportedBytes (history ++ [c.recordOf packet]) =
      unreportedBytes history + (c.recordOf packet).bytes := by
  rw [unreportedBytes_append, unreportedBytes_cons, if_neg (by simp [recordOf])]
  rfl

theorem accounted_onPacketSent (accounted : Accounted c sent matched) (packet : SentPacketInfo)
    (update : NetworkControlUpdate) :
    Accounted (c.onPacketSent packet update).1 (sent ++ sentIn (c.onPacketSent packet update).2)
      (matched ++ matchedIn (c.onPacketSent packet update).2) := by
  rw [onPacketSent]
  split_ifs with stale
  · simpa [sentIn, matchedIn] using accounted
  · set record := c.recordOf packet with record_def
    have newer : c.newestSequence < record.sequence := newer_of_not_stale stale
    have settles := evict_settles packet.sendTimeUs (c.history ++ [record])
      { c.flight with inFlightBytes := c.flight.inFlightBytes + record.bytes }
    -- the state between the push and the eviction
    have pushed : Balanced (c.history ++ [record],
        { c.flight with inFlightBytes := c.flight.inFlightBytes + record.bytes }) := by
      refine ⟨?_, accounted.balanced.exact⟩
      rw [record_def, unreportedBytes_push]
      exact congrArg (· + (c.recordOf packet).bytes) accounted.balanced.total
    have grown : Accounted
        { c with
          newestSequence := record.sequence
          history := c.history ++ [record]
          flight := { c.flight with inFlightBytes := c.flight.inFlightBytes + record.bytes }
          inFlightBytes := c.flight.inFlightBytes + record.bytes }
        (sent ++ [{
          sendTime := record.sendTimeUs
          size := record.bytes
          pacingInfo := record.pacingInfo
          sequenceNumber := record.sequence
          dataInFlight := (evict packet.sendTimeUs (c.history ++ [record])
            { c.flight with inFlightBytes := c.flight.inFlightBytes + record.bytes }).2.inFlightBytes }])
        matched := by
      constructor
      · exact pushed
      · rfl
      · exact accounted.ordered.push newer
      · rw [List.map_append, List.pairwise_append]
        refine ⟨accounted.sentIncreasing, List.pairwise_singleton _ _, ?_⟩
        intro a member b new
        obtain ⟨older, inside, rfl⟩ := List.mem_map.mp member
        obtain rfl := List.mem_singleton.mp new
        exact (accounted.sentNewest older inside).trans_lt newer
      · intro other member
        rcases List.mem_append.mp member with older | new
        · exact ((accounted.sentNewest other older).trans_lt newer).le
        · obtain rfl := List.mem_singleton.mp new
          exact le_rfl
      · intro other member
        rcases List.mem_append.mp member with older | new
        · obtain ⟨known, inside, sends⟩ := accounted.recorded other older
          exact ⟨known, List.mem_append_left _ inside, sends⟩
        · obtain rfl := List.mem_singleton.mp new
          exact ⟨_, List.mem_append_right _ List.mem_cons_self, rfl, rfl, rfl, rfl⟩
      · intro result member
        obtain ⟨known, inside, reports⟩ := accounted.reports result member
        exact ⟨known, List.mem_append_left _ inside, reports⟩
      · exact accounted.once
      · intro result member other inside same
        rcases List.mem_append.mp inside with older | new
        · exact accounted.settled result member other older same
        · obtain rfl := List.mem_singleton.mp new
          obtain ⟨known, within, reports⟩ := accounted.reports result member
          have old := accounted.sentNewest known within
          rw [reports.1, ← same] at old
          exact absurd newer (not_lt.mpr old)
    change Accounted _ (sent ++ [_]) (matched ++ [])
    rw [List.append_nil]
    exact grown.settle settles rfl rfl

/-- The reference time has no part in the scan for lost reports. -/
theorem dropLost_unwrapReferenceOffset (reference : BitVec 32) (packets : List TwccPacketResult) :
    ((c.unwrapReferenceOffset reference).dropLost packets).history = (c.dropLost packets).history ∧
      ((c.unwrapReferenceOffset reference).dropLost packets).flight = (c.dropLost packets).flight ∧
      ((c.unwrapReferenceOffset reference).dropLost packets).newestSequence = c.newestSequence ∧
      ((c.unwrapReferenceOffset reference).dropLost packets).referenceOffsetUs =
        (c.unwrapReferenceOffset reference).referenceOffsetUs := by
  rw [dropLost, dropLost]
  cases packets.head? <;> exact ⟨rfl, rfl, rfl, rfl⟩

/-- The matching loop of a report. -/
def matching (c : GoogCcController) (feedback : TwccFeedback) : Option Matching :=
  matchPackets c.newestSequence (c.unwrapReferenceOffset feedback.referenceTime64ms).referenceOffsetUs
    feedback.packets
    { history := (c.dropLost feedback.packets).history, flight := (c.dropLost feedback.packets).flight }

theorem onFeedback_spec (c : GoogCcController) (feedback : TwccFeedback) (nowUs : Int)
    (update : NetworkControlUpdate) :
    (c.onFeedback feedback nowUs update = none ∧ matching c feedback = none) ∨
      ∃ next count handed final,
        c.onFeedback feedback nowUs update = some (next, count, handed) ∧
        count = (matchedIn handed).length ∧ matching c feedback = some final ∧
        next.history = final.history ∧ next.flight = final.flight ∧
        next.inFlightBytes = final.flight.inFlightBytes ∧ next.newestSequence = c.newestSequence ∧
        sentIn handed = [] ∧ (matchedIn handed).Perm final.packetFeedbacks := by
  obtain ⟨history, flight, newest, offset⟩ :=
    dropLost_unwrapReferenceOffset (c := c) feedback.referenceTime64ms feedback.packets
  rw [onFeedback, matching]
  simp only [history, flight, newest, offset]
  split
  · rename_i fault
    exact .inl ⟨rfl, fault⟩
  · rename_i final matched
    right
    split_ifs with empty
    · refine ⟨_, _, _, _, rfl, rfl, matched, rfl, rfl, rfl, rfl, rfl, ?_⟩
      rw [List.isEmpty_iff] at empty
      simp [matchedIn, empty]
    · refine ⟨_, _, _, _, rfl, by simp [matchedIn], matched, rfl, rfl, rfl, rfl, rfl, ?_⟩
      simpa [matchedIn] using List.perm_insertionSort _ _

theorem of_onFeedback {feedback : TwccFeedback} {nowUs : Int} {update : NetworkControlUpdate}
    {next : GoogCcController} {count : Nat} {handed : List Handed}
    (ran : c.onFeedback feedback nowUs update = some (next, count, handed)) :
    ∃ final, matching c feedback = some final ∧ next.history = final.history ∧
      next.flight = final.flight ∧ next.inFlightBytes = final.flight.inFlightBytes ∧
      next.newestSequence = c.newestSequence ∧ sentIn handed = [] ∧
      (matchedIn handed).Perm final.packetFeedbacks := by
  rcases onFeedback_spec c feedback nowUs update with
    ⟨fault, -⟩ | ⟨after, size, out, final, same, -, rest⟩
  · rw [fault] at ran
    cases ran
  · obtain ⟨rfl, -, rfl⟩ : after = next ∧ _ ∧ out = handed := by simpa [same] using ran
    exact ⟨final, rest⟩

theorem accounted_onFeedback (accounted : Accounted c sent matched) {feedback : TwccFeedback}
    {nowUs : Int} {update : NetworkControlUpdate} {next : GoogCcController} {count : Nat}
    {handed : List Handed} (ran : c.onFeedback feedback nowUs update = some (next, count, handed)) :
    Accounted next (sent ++ sentIn handed) (matched ++ matchedIn handed) := by
  obtain ⟨final, matching, history, flight, bytes, newest, quiet, same⟩ := of_onFeedback ran
  have dropped := dropLost_settles c feedback.packets
  have settles := dropped.trans (matchPackets_settles matching)
  have ordered := accounted.ordered.of_suffix dropped.suffix
  obtain ⟨once, settled, source⟩ := matchPackets_spec matching ordered List.nodup_nil (by simp)
  rw [← history, ← flight] at settles
  have aged := accounted.settle settles newest (by rw [bytes, flight])
  rw [quiet, List.append_nil]
  refine accounted.extend aged (c.unwrapReferenceOffset feedback.referenceTime64ms).referenceOffsetUs
    ((same.map _).nodup_iff.mpr once) ?_ ?_
  · intro result member
    rw [history]
    exact settled result (same.mem_iff.mp member)
  · intro result member
    obtain ⟨record, inside, packet, -, unreported, value⟩ :=
      (source result (same.mem_iff.mp member)).resolve_left (by simp)
    -- a record unreported after the scan was so before
    obtain ⟨older, before, rfl | rfl⟩ := dropped.ages record inside
    · exact ⟨record, before, packet, unreported, value⟩
    · cases unreported

theorem accounted_onProcessInterval (accounted : Accounted c sent matched) (nowUs : Int)
    (pacerQueueBytes : Nat) (update : NetworkControlUpdate) :
    Accounted (c.onProcessInterval nowUs pacerQueueBytes update).1 sent matched :=
  accounted.settle (evict_settles nowUs c.history c.flight) rfl rfl

theorem accounted_onRouteChange (accounted : Accounted c sent matched) (nowUs : Int)
    (update : NetworkControlUpdate) : Accounted (c.onRouteChange nowUs update).1 sent matched := by
  have same : sequences (c.history.map Record.markReported) = sequences c.history := by
    rw [sequences, List.map_map]
    rfl
  refine accounted.age ?_ (by rw [onRouteChange, apply, same]) ?_ rfl rfl
  · refine ⟨?_, accounted.balanced.exact⟩
    change 0 = unreportedBytes (c.history.map Record.markReported)
    simp [unreportedBytes, List.filter_map, Function.comp_def]
  · intro record member
    obtain ⟨older, inside, rfl⟩ := List.mem_map.mp member
    exact ⟨older, inside, .inr rfl⟩

theorem accounted_step (accounted : Accounted c sent matched) {call : Call} {next : GoogCcController}
    {handed : List Handed} (stepped : step c call = some (next, handed)) :
    Accounted next (sent ++ sentIn handed) (matched ++ matchedIn handed) := by
  cases call with
  | onPacketSent packet update =>
    obtain ⟨rfl, rfl⟩ := Prod.mk.inj (Option.some.inj stepped)
    exact accounted_onPacketSent accounted packet update
  | onFeedback feedback nowUs update =>
    obtain ⟨⟨after, count, out⟩, ran, same⟩ := Option.map_eq_some_iff.mp stepped
    obtain ⟨rfl, rfl⟩ := Prod.mk.inj same
    exact accounted_onFeedback accounted ran
  | onProcessInterval nowUs pacerQueueBytes update =>
    obtain ⟨rfl, rfl⟩ := Prod.mk.inj (Option.some.inj stepped)
    simpa [onProcessInterval, sentIn, matchedIn] using
      accounted_onProcessInterval accounted nowUs pacerQueueBytes update
  | onRouteChange nowUs update =>
    obtain ⟨rfl, rfl⟩ := Prod.mk.inj (Option.some.inj stepped)
    simpa [onRouteChange, sentIn, matchedIn] using accounted_onRouteChange accounted nowUs update

theorem accounted_make (startBps minBps maxBps : Nat) (update : NetworkControlUpdate) :
    Accounted ((make startBps minBps maxBps).apply update) [] [] := by
  constructor <;> simp [make, apply]
  · exact ⟨rfl, by simp⟩
  · exact ⟨List.Pairwise.nil, by simp [sequences]⟩

theorem accounted_run {startBps minBps maxBps : Nat} {update : NetworkControlUpdate} {calls : List Call}
    {log : List Handed}
    (ran : Runs.run (Runs.logged step) ((make startBps minBps maxBps).apply update, []) calls =
      some (c, log)) : Accounted c (sentIn log) (matchedIn log) := by
  refine Runs.run_logged_invariant (fun c log => Accounted c (sentIn log) (matchedIn log)) ?_
    (accounted_make startBps minBps maxBps update) ran
  intro call _ c next log handed accounted stepped
  rw [sentIn_append, matchedIn_append]
  exact accounted_step accounted stepped

/-- No call but `on_packet_sent` adds bytes. -/
theorem step_inFlightBytes_le {call : Call} {next : GoogCcController} {handed : List Handed}
    (stepped : step c call = some (next, handed)) (other : ∀ packet update, call ≠ .onPacketSent packet update) :
    next.flight.inFlightBytes ≤ c.flight.inFlightBytes := by
  cases call with
  | onPacketSent packet update => exact absurd rfl (other packet update)
  | onFeedback feedback nowUs update =>
    obtain ⟨⟨after, count, out⟩, ran, same⟩ := Option.map_eq_some_iff.mp stepped
    obtain ⟨rfl, rfl⟩ := Prod.mk.inj same
    obtain ⟨final, matching, -, flight, -⟩ := of_onFeedback ran
    rw [flight]
    have settles := (dropLost_settles c feedback.packets).trans (matchPackets_settles matching)
    exact Settles.inFlightBytes_le settles
  | onProcessInterval nowUs pacerQueueBytes update =>
    obtain ⟨rfl, rfl⟩ := Prod.mk.inj (Option.some.inj stepped)
    exact (evict_settles nowUs c.history c.flight).inFlightBytes_le
  | onRouteChange nowUs update =>
    obtain ⟨rfl, rfl⟩ := Prod.mk.inj (Option.some.inj stepped)
    exact Nat.zero_le _

/-- Over every run the bytes in flight are the bytes of the unreported records,
each subtraction takes what is there, only a sent packet adds to them, and the
entries of all feedbacks are of different sent packets. -/
theorem bytesInFlight_exact {startBps minBps maxBps : Nat} {update : NetworkControlUpdate}
    {calls : List Call} {c : GoogCcController} {log : List Handed}
    (ran : Runs.run (Runs.logged step) ((make startBps minBps maxBps).apply update, []) calls =
      some (c, log)) :
    c.flight.inFlightBytes = ((c.history.filter fun record => !record.reported).map Record.bytes).sum ∧
      c.inFlightBytes = c.flight.inFlightBytes ∧
      (∀ operands ∈ c.flight.releases, operands.2 ≤ operands.1) ∧
      (∀ call next handed, step c call = some (next, handed) →
        (∀ packet update, call ≠ .onPacketSent packet update) →
        next.flight.inFlightBytes ≤ c.flight.inFlightBytes) ∧
      ((sentIn log).map SentPacket.sequenceNumber).Pairwise (· < ·) ∧
      ((matchedIn log).map PacketResult.sequenceNumber).Nodup ∧
      ∀ result ∈ matchedIn log, ∃ packet ∈ sentIn log, Reports packet result := by
  have accounted := accounted_run ran
  exact ⟨accounted.balanced.total, accounted.published, accounted.balanced.exact,
    fun _ _ _ stepped other => step_inFlightBytes_le stepped other, accounted.sentIncreasing,
    accounted.once, accounted.reports⟩

/-- Two packets, and a report of the first one twice. -/
def reportedTwice : List Call :=
  [.onPacketSent ⟨0, 1000, 100, -1, -1, -1⟩ {}, .onPacketSent ⟨1, 2000, 200, -1, -1, -1⟩ {},
    .onFeedback ⟨1, 2, 0, 0, [⟨0, true, 5000⟩]⟩ 9000 {}, .onFeedback ⟨1, 2, 0, 0, [⟨0, true, 5000⟩]⟩ 9500 {}]

theorem bytesInFlight_exact_reportedTwice :
    ∃ c log, Runs.run (Runs.logged step) ((make 1000 300 5000).apply {}, []) reportedTwice =
        some (c, log) ∧ c.inFlightBytes = 238 ∧
      c.flight.inFlightBytes = ((c.history.filter fun record => !record.reported).map Record.bytes).sum ∧
      ((matchedIn log).map PacketResult.sequenceNumber).Nodup := by
  have ends : ((Runs.run (Runs.logged step) ((make 1000 300 5000).apply {}, []) reportedTwice).map
      fun s => s.1.inFlightBytes) = some 238 := by decide +kernel
  obtain ⟨⟨c, log⟩, ran, bytes⟩ := Option.map_eq_some_iff.mp ends
  obtain ⟨total, -, -, -, -, once, -⟩ := bytesInFlight_exact ran
  exact ⟨c, log, ran, bytes, total, once⟩

end Mello.Transport.GoogCcAccounting
