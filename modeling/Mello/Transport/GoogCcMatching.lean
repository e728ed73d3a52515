import Mello.Library.Consecutive
import Mello.Transport.GoogCcAccounting

/-!
Which feedback entries find their record. The lookup indexes the history by the
distance from its front, so it finds every record exactly while the sequences of
the history have no gap. A gap opens when a stamped packet is not sent and the
next one is, and it stays until the records before it are evicted.
-/

namespace Mello.Transport.GoogCcMatching
open Mello.Library Twcc GoogCc GoogCcController GoogCcHistory GoogCcAccounting

/-- The lookup of every record of the history returns that record. -/
def Matched (history : List Record) : Prop :=
  ∀ i record, history[i]? = some record → find history record.sequence = .found i record

def Gapless (history : List Record) : Prop := ∃ start, Consecutive id start (sequences history)

theorem consecutive_sequences {start : Int} {history : List Record} :
    Consecutive id start (sequences history) ↔ Consecutive Record.sequence start history :=
  Consecutive.map_iff

theorem Gapless.of_suffix {history later : List Record} (gapless : Gapless history)
    (suffix : sequences later <:+ sequences history) : Gapless later := by
  obtain ⟨start, run⟩ := gapless
  exact run.of_suffix suffix

/-- The lookup in a history without a gap. -/
theorem find_of_consecutive {history : List Record} {start : Int}
    (run : Consecutive Record.sequence start history) (sequence : Int) :
    (∃ i record, history[i]? = some record ∧ record.sequence = sequence ∧
      find history sequence = .found i record) ∨
    ((∀ record ∈ history, record.sequence ≠ sequence) ∧ find history sequence = .absent) := by
  cases shape : history with
  | nil => exact .inr ⟨by simp, rfl⟩
  | cons front rest =>
    rw [← shape]
    have length : history.length = rest.length + 1 := by rw [shape, List.length_cons]
    have head : history.head? = some front := by rw [shape, List.head?_cons]
    have last : history.getLast? = some history[rest.length] := by
      rw [List.getLast?_eq_getElem?, List.getElem?_eq_getElem (by omega)]
      simp only [length, Nat.add_sub_cancel]
    have first : front.sequence = start := by simpa using run 0 front (by rw [← List.head?_eq_getElem?, head])
    have final := run _ _ (List.getElem?_eq_getElem (l := history) (i := rest.length) (by omega))
    rw [find, head, last]
    dsimp only
    by_cases outside : sequence < front.sequence ∨ history[rest.length].sequence < sequence
    · right
      refine ⟨fun record member same => ?_, by rw [if_pos outside]⟩
      obtain ⟨i, found⟩ := List.mem_iff_getElem?.mp member
      have place := run i record found
      have inside := (List.getElem?_eq_some_iff.mp found).1
      omega
    · left
      have inside : (sequence - front.sequence).toNat < history.length := by omega
      have found := List.getElem?_eq_getElem inside
      have place := run _ _ found
      have same : history[(sequence - front.sequence).toNat].sequence = sequence := by omega
      exact ⟨_, _, found, same, by rw [if_neg outside, found]; dsimp only; rw [if_pos same]⟩

theorem matched_iff_gapless {history : List Record} {newestSequence : Int}
    (ordered : Ordered history newestSequence) : Matched history ↔ Gapless history := by
  constructor
  · intro finds
    cases shape : history with
    | nil => exact ⟨0, .nil⟩
    | cons front rest =>
      rw [← shape]
      refine ⟨front.sequence, consecutive_sequences.mpr fun i record found => ?_⟩
      have lookup := finds i record found
      have head : history.head? = some front := by rw [shape, List.head?_cons]
      rw [find, head] at lookup
      split at lookup
      · rename_i first back same last
        obtain rfl : front = first := Option.some.inj same
        split_ifs at lookup with outside
        dsimp only at lookup
        split at lookup
        · cases lookup
        · split_ifs at lookup
          obtain ⟨index, -⟩ := Lookup.found.inj lookup
          omega
      · cases lookup
  · rintro ⟨start, run⟩ i record found
    rcases find_of_consecutive (consecutive_sequences.mp run) record.sequence with
      ⟨j, other, here, same, lookup⟩ | ⟨none, -⟩
    · obtain rfl := ordered.index_unique found here same.symm
      obtain rfl : record = other := Option.some.inj (found.symm.trans here)
      exact lookup
    · exact absurd rfl (none record (List.mem_of_getElem? found))

/-! ## The count of a report -/

/-- A report covers a record: the record is not before the report's first
sequence, and an entry of the report carries its sequence number. -/
def Covers (c : GoogCcController) (feedback : TwccFeedback) (record : Record) : Prop :=
  ∃ front, feedback.packets.head? = some front ∧
    unwrapSequence c.newestSequence front.sequence ≤ record.sequence ∧
    ∃ packet ∈ feedback.packets, packet.sequence = BitVec.ofInt 16 record.sequence

theorem unwrapSequence_of_covers {c : GoogCcController} {feedback : TwccFeedback} {record : Record}
    (covers : Covers c feedback record) (newest : record.sequence ≤ c.newestSequence) :
    ∃ packet ∈ feedback.packets,
      unwrapSequence c.newestSequence packet.sequence = record.sequence := by
  obtain ⟨front, -, first, packet, member, same⟩ := covers
  refine ⟨packet, member, ?_⟩
  by_cases early : c.newestSequence < 0
  · rw [unwrapSequence, if_pos early] at first
    omega
  · rw [unwrapSequence, if_neg early] at first ⊢
    have low := Serial.le_two_mul_ahead front.sequence (BitVec.ofInt 16 c.newestSequence)
    have distance := Serial.unwrapNear_sub_anchor c.newestSequence front.sequence
    rw [same]
    apply Serial.unwrapNear_ofInt <;> norm_num at low ⊢ <;> omega

theorem scanLost_keeps {first : Int} {record : Record} (later : first ≤ record.sequence)
    (history : List Record) (flight : Flight) (member : record ∈ history) :
    record ∈ (scanLost first history flight).1 := by
  induction history generalizing flight with
  | nil => exact member
  | cons other rest ih =>
    rw [scanLost]
    split_ifs with past reported
    · exact member
    all_goals
      rcases List.mem_cons.mp member with rfl | inside
      · exact absurd later past
      · exact List.mem_cons_of_mem _ (ih _ inside)

/-- The scan for lost reports leaves the records that the report covers. -/
theorem dropLost_keeps {c : GoogCcController} {feedback : TwccFeedback} {record : Record}
    (member : record ∈ c.history) (covers : Covers c feedback record) :
    record ∈ (c.dropLost feedback.packets).history := by
  obtain ⟨front, head, first, -⟩ := covers
  rw [dropLost, head]
  dsimp only
  rw [← List.take_append_drop (scanStart c.history c.scanFrom) c.history, List.mem_append] at member
  rw [List.mem_append]
  exact member.imp_right (scanLost_keeps first _ _)

/-- Without a gap no lookup leaves the history, and each unreported record that
an entry names is matched. -/
theorem matchPackets_of_gapless {newestSequence offsetUs newest : Int} (packets : List TwccPacketResult)
    {state : Matching} (ordered : Ordered state.history newest) (gapless : Gapless state.history) :
    ∃ final, matchPackets newestSequence offsetUs packets state = some final ∧
      (∀ result ∈ state.packetFeedbacks, result ∈ final.packetFeedbacks) ∧
      ∀ record ∈ state.history, record.reported = false →
        (∃ packet ∈ packets, unwrapSequence newestSequence packet.sequence = record.sequence) →
        ∃ result ∈ final.packetFeedbacks, result.sequenceNumber = record.sequence := by
  induction packets generalizing state with
  | nil => exact ⟨state, rfl, fun _ member => member, by simp⟩
  | cons packet rest ih =>
    obtain ⟨start, run⟩ := gapless
    rw [matchPackets]
    rcases find_of_consecutive (consecutive_sequences.mp run)
      (unwrapSequence newestSequence packet.sequence) with
      ⟨i, found, here, same, lookup⟩ | ⟨none, lookup⟩
    · rw [lookup]
      dsimp only
      split_ifs with reported
      · obtain ⟨final, ran, keeps, counts⟩ := ih ordered ⟨start, run⟩
        refine ⟨final, ran, keeps, ?_⟩
        rintro record member unreported ⟨other, listed, names⟩
        rcases List.mem_cons.mp listed with rfl | later
        · obtain ⟨j, there⟩ := List.mem_iff_getElem?.mp member
          obtain rfl := ordered.index_unique here there (same.trans names)
          obtain rfl : found = record := Option.some.inj (here.symm.trans there)
          rw [reported] at unreported
          cases unreported
        · exact counts record member unreported ⟨other, later, names⟩
      · have fresh : found.reported = false := by simpa using reported
        have step := set_settle state.flight here fresh
        obtain ⟨final, ran, keeps, counts⟩ := @ih {
            history := state.history.set i found.markReported
            flight := state.flight.release found.bytes
            packetFeedbacks := state.packetFeedbacks ++ [resultOf offsetUs found packet] }
          (ordered.of_suffix step.suffix) (Gapless.of_suffix ⟨start, run⟩ step.suffix)
        refine ⟨final, ran, fun result member => keeps result (List.mem_append_left _ member), ?_⟩
        rintro record member unreported ⟨other, listed, names⟩
        obtain ⟨j, there⟩ := List.mem_iff_getElem?.mp member
        by_cases place : i = j
        · obtain rfl : found = record := Option.some.inj (by rw [← here, place, there])
          exact ⟨_, keeps _ (List.mem_append_right _ List.mem_cons_self), rfl⟩
        · have later : other ∈ rest := by
            refine (List.mem_cons.mp listed).resolve_left fun equal => place ?_
            exact ordered.index_unique here there (by rw [same, ← names, equal])
          refine counts record ?_ unreported ⟨other, later, names⟩
          exact List.mem_of_getElem? (by rw [List.getElem?_set_ne place, there])
    · rw [lookup]
      obtain ⟨final, ran, keeps, counts⟩ := ih ordered ⟨start, run⟩
      refine ⟨final, ran, keeps, ?_⟩
      rintro record member unreported ⟨other, listed, names⟩
      rcases List.mem_cons.mp listed with rfl | later
      · exact absurd names.symm (none record member)
      · exact counts record member unreported ⟨other, later, names⟩

/-- Every record is found, and a report counts each unreported record it covers. -/
structure Counts (c : GoogCcController) : Prop where
  finds : Matched c.history
  counts : ∀ feedback nowUs update, ∃ next count handed,
    c.onFeedback feedback nowUs update = some (next, count, handed) ∧ count = (matchedIn handed).length ∧
    ∀ record ∈ c.history, record.reported = false → Covers c feedback record →
      ∃ result ∈ matchedIn handed, result.sequenceNumber = record.sequence

theorem counts_iff_gapless {c : GoogCcController} (ordered : Ordered c.history c.newestSequence) :
    Counts c ↔ Gapless c.history := by
  constructor
  · intro counts
    exact (matched_iff_gapless ordered).mp counts.finds
  · intro gapless
    refine ⟨(matched_iff_gapless ordered).mpr gapless, fun feedback nowUs update => ?_⟩
    have dropped := (dropLost_settles c feedback.packets).suffix
    obtain ⟨final, ran, -, counts⟩ := @matchPackets_of_gapless c.newestSequence
      (c.unwrapReferenceOffset feedback.referenceTime64ms).referenceOffsetUs _ feedback.packets
      { history := (c.dropLost feedback.packets).history
        flight := (c.dropLost feedback.packets).flight }
      (ordered.of_suffix dropped) (gapless.of_suffix dropped)
    rcases onFeedback_spec c feedback nowUs update with
      ⟨-, fault⟩ | ⟨next, count, handed, other, accepts, size, matched, -, -, -, -, -, same⟩
    · rw [matching, ran] at fault
      cases fault
    · obtain rfl : final = other := Option.some.inj (ran.symm.trans matched)
      refine ⟨next, count, handed, accepts, size, fun record member unreported covers => ?_⟩
      obtain ⟨result, inside, number⟩ := counts record (dropLost_keeps member covers) unreported
        (unwrapSequence_of_covers covers (ordered.le_newest member))
      exact ⟨result, same.mem_iff.mpr inside, number⟩

/-! ## The condition of a call -/

/-- A sent packet opens no gap: it is stale, its sequence follows on from the
newest one, or every older record is over the limit or too old to stay. -/
def OpensNoGap (c : GoogCcController) : Call → Prop
  | .onPacketSent packet _ =>
    c.Stale packet ∨ (c.recordOf packet).sequence = c.newestSequence + 1 ∨
      ∀ record ∈ c.history.drop (c.history.length + 1 - kMaxHistoryPackets), Old packet.sendTimeUs record
  | _ => True

def next (c : GoogCcController) (call : Call) : Option GoogCcController := (step c call).map Prod.fst

theorem gapless_push {history : List Record} {newestSequence : Int}
    (ordered : Ordered history newestSequence) (nonempty : history ≠ []) (gapless : Gapless history)
    (record : Record) :
    Gapless (history ++ [record]) ↔ record.sequence = newestSequence + 1 := by
  obtain ⟨start, run⟩ := gapless
  rw [consecutive_sequences] at run
  have positive := List.length_pos_iff.mpr nonempty
  have final := List.getElem?_eq_getElem (l := history) (i := history.length - 1) (by omega)
  have place := run _ _ final
  have newest : history[history.length - 1].sequence = newestSequence := by
    apply ordered.last
    rw [sequences, List.getLast?_map, List.getLast?_eq_getElem?, final]
    rfl
  constructor
  · rintro ⟨first, whole⟩
    rw [consecutive_sequences] at whole
    have before := whole (history.length - 1) history[history.length - 1] (by
      rw [List.getElem?_append_left (by omega), final])
    have after := whole history.length record (by simp)
    omega
  · intro follows
    refine ⟨start, consecutive_sequences.mpr (run.append ?_)⟩
    have number : record.sequence = start + history.length := by omega
    rw [← number]
    exact Consecutive.singleton record

theorem gapless_of_length_le_one {history : List Record} (short : history.length ≤ 1) :
    Gapless history := by
  match history with
  | [] => exact ⟨0, .nil⟩
  | [record] => exact ⟨record.sequence, @Consecutive.singleton _ id _⟩

/-- After a push and an eviction the history has no gap exactly when the record
follows on, or nothing is left before it. -/
theorem gapless_evict {history : List Record} {newestSequence : Int}
    (ordered : Ordered history newestSequence)
    (gapless : Gapless history) (record : Record) (nowUs : Int) (flight : Flight) :
    Gapless (evict nowUs (history ++ [record]) flight).1 ↔
      record.sequence = newestSequence + 1 ∨
        ∀ older ∈ history.drop (history.length + 1 - kMaxHistoryPackets), Old nowUs older := by
  obtain ⟨count, dropped, gone, kept⟩ := evict_drop nowUs (history ++ [record]) flight
  rw [dropped]
  rw [List.length_append, List.length_singleton] at gone kept
  by_cases all : history.length ≤ count
  · -- nothing is left before the new record
    have short : ((history ++ [record]).drop count).length ≤ 1 := by
      rw [List.length_drop, List.length_append, List.length_singleton]
      omega
    refine ⟨fun _ => .inr ?_, fun _ => gapless_of_length_le_one short⟩
    intro older member
    obtain ⟨i, found⟩ := List.mem_iff_getElem?.mp member
    rw [List.getElem?_drop] at found
    have inside := (List.getElem?_eq_some_iff.mp found).1
    refine (gone _ older (by rw [List.getElem?_append_left inside, found]) (by omega)).resolve_left ?_
    omega
  · rw [not_le] at all
    have suffix : sequences (history.drop count) <:+ sequences history := by
      rw [sequences, List.map_drop]
      exact List.drop_suffix _ _
    rw [List.drop_append_of_le_length all.le, gapless_push (ordered.of_suffix suffix) (by simpa using all)
      (gapless.of_suffix suffix)]
    refine ⟨.inl, fun follows => follows.resolve_right fun aged => ?_⟩
    -- the record the eviction stopped at would have to be old
    obtain ⟨limit, young⟩ := kept history[count] (by
      rw [List.getElem?_append_left all, List.getElem?_eq_getElem all])
    refine young (aged _ (List.mem_iff_getElem?.mpr
      ⟨count - (history.length + 1 - kMaxHistoryPackets), ?_⟩))
    rw [List.getElem?_drop, Nat.add_sub_of_le (by omega), List.getElem?_eq_getElem all]

/-- One call from a history without a gap: the history has none after it exactly
when the call opens none. -/
theorem gapless_next {c d : GoogCcController} {call : Call} (ordered : Ordered c.history c.newestSequence)
    (gapless : Gapless c.history) (stepped : next c call = some d) :
    Gapless d.history ↔ OpensNoGap c call := by
  obtain ⟨⟨after, handed⟩, moved, rfl⟩ := Option.map_eq_some_iff.mp stepped
  cases call with
  | onPacketSent packet update =>
    obtain ⟨rfl, rfl⟩ := Prod.mk.inj (Option.some.inj moved)
    change Gapless (c.onPacketSent packet update).1.history ↔ _
    rw [OpensNoGap, GoogCcController.onPacketSent]
    split_ifs with stale
    · exact iff_of_true gapless (.inl stale)
    · rw [or_iff_right stale]
      exact gapless_evict ordered gapless (c.recordOf packet) packet.sendTimeUs _
  | onFeedback feedback nowUs update =>
    obtain ⟨⟨other, count, out⟩, ran, same⟩ := Option.map_eq_some_iff.mp moved
    obtain ⟨rfl, rfl⟩ := Prod.mk.inj same
    obtain ⟨final, matching, history, -⟩ := of_onFeedback ran
    have settles := (dropLost_settles c feedback.packets).trans (matchPackets_settles matching)
    rw [← history] at settles
    exact iff_of_true (gapless.of_suffix (Settles.suffix settles)) trivial
  | onProcessInterval nowUs pacerQueueBytes update =>
    obtain ⟨rfl, rfl⟩ := Prod.mk.inj (Option.some.inj moved)
    exact iff_of_true (gapless.of_suffix (evict_settles nowUs c.history c.flight).suffix) trivial
  | onRouteChange nowUs update =>
    obtain ⟨rfl, rfl⟩ := Prod.mk.inj (Option.some.inj moved)
    have same : sequences (c.history.map Record.markReported) = sequences c.history := by
      rw [sequences, List.map_map]
      rfl
    exact iff_of_true (gapless.of_suffix (by exact same ▸ List.suffix_rfl)) trivial

/-- The invariant of the accounting, of a controller alone. -/
def Reached (c : GoogCcController) : Prop := ∃ sent matched, Accounted c sent matched

theorem reached_next {c d : GoogCcController} {call : Call} (reached : Reached c)
    (stepped : next c call = some d) : Reached d := by
  obtain ⟨sent, matched, accounted⟩ := reached
  obtain ⟨⟨after, handed⟩, moved, rfl⟩ := Option.map_eq_some_iff.mp stepped
  exact ⟨_, _, accounted_step accounted moved⟩

/-- A run matches every feedback entry in every state exactly when no call of it
opens a gap in the history. -/
theorem counts_always_iff (startBps minBps maxBps : Nat) (update : NetworkControlUpdate)
    (calls : List Call) :
    Runs.Always next Counts ((make startBps minBps maxBps).apply update) calls ↔
      Runs.EachStep next OpensNoGap ((make startBps minBps maxBps).apply update) calls := by
  have start := accounted_make startBps minBps maxBps update
  apply Runs.always_iff_eachStep Reached
  · exact fun _ _ _ => reached_next
  · rintro c call d ⟨sent, matched, accounted⟩ counts stepped
    obtain ⟨after, later, kept⟩ := reached_next ⟨sent, matched, accounted⟩ stepped
    rw [counts_iff_gapless kept.ordered]
    exact gapless_next accounted.ordered ((counts_iff_gapless accounted.ordered).mp counts) stepped
  · exact ⟨[], [], start⟩
  · rw [counts_iff_gapless start.ordered]
    exact ⟨0, .nil⟩

/-- Three packets sent; the one stamped 1 failed on its way out. -/
def skipsOne : List Call :=
  [.onPacketSent ⟨0, 1000, 100, -1, -1, -1⟩ {}, .onPacketSent ⟨2, 1002, 100, -1, -1, -1⟩ {},
    .onPacketSent ⟨3, 1003, 100, -1, -1, -1⟩ {}]

/-- The record of packet 2 is held and unreported, its lookup finds nothing, and
a report of 0 to 2 counts one packet of the two it covers. -/
theorem counts_fails_after_gap :
    ∃ c, Runs.run next ((make 1000 300 5000).apply {}) skipsOne = some c ∧
      (c.history.map fun record => (record.sequence, record.reported)) =
        [(0, false), (2, false), (3, false)] ∧
      find c.history 2 = .absent ∧
      (c.onFeedback ⟨1, 2, 0, 0, [⟨0, true, 5000⟩, ⟨1, false, 0⟩, ⟨2, true, 5250⟩]⟩ 9000 {}).map
        (fun result => result.2.1) = some 1 ∧
      ¬Counts c := by
  have facts : (Runs.run next ((make 1000 300 5000).apply {}) skipsOne).map (fun c =>
      ((c.history.map fun record => (record.sequence, record.reported)),
        find c.history 2,
        (c.onFeedback ⟨1, 2, 0, 0, [⟨0, true, 5000⟩, ⟨1, false, 0⟩, ⟨2, true, 5250⟩]⟩ 9000 {}).map
          (fun result => result.2.1))) =
      some ([(0, false), (2, false), (3, false)], .absent, some 1) := by decide +kernel
  obtain ⟨c, ran, same⟩ := Option.map_eq_some_iff.mp facts
  obtain ⟨records, lookup, count⟩ : _ ∧ _ ∧ _ := by simpa only [Prod.mk.injEq] using same
  refine ⟨c, ran, records, lookup, count, fun counts => ?_⟩
  have second : (c.history.map fun record => (record.sequence, record.reported))[1]? = some (2, false) := by
    rw [records]
    rfl
  rw [List.getElem?_map] at second
  obtain ⟨record, found, fields⟩ := Option.map_eq_some_iff.mp second
  have finds := counts.finds 1 record found
  rw [(Prod.mk.inj fields).1, lookup] at finds
  cases finds

end Mello.Transport.GoogCcMatching
