import Mello.Transport.TwccReport

/-!
Round trip of a whole report. For every reachable generator the packet of
`build_feedback` parses, its entries run on from the last report, an entry is
received exactly when its sequence was pending, and every parsed arrival is the
true one rounded down to 250 us, on the 24-bit reference clock.
-/

namespace Mello.Transport.TwccRoundTrip
open Mello.Library Twcc TwccChunks TwccPlan TwccReport TwccFeedbackGenerator

/-! ## Reachable generators -/

/-- Before the first report the pending sequences lie within less than half the
sequence space of each other. -/
def FirstWindow (g : TwccFeedbackGenerator) : Prop :=
  g.hasEmitted = false → ∃ start, Window g.pending start

/-- Any sequence of calls. The unordered map may change its iteration order
between two calls. -/
inductive Reachable : TwccFeedbackGenerator → Prop
  | start : Reachable {}
  | onPacket {g : TwccFeedbackGenerator} (twccSequence : BitVec 16) (arrivalTimeUs : Int) :
      Reachable g → FirstWindow (g.onPacket twccSequence arrivalTimeUs) →
      Reachable (g.onPacket twccSequence arrivalTimeUs)
  | buildFeedback {g : TwccFeedbackGenerator} (senderSsrc mediaSsrc : BitVec 32) :
      Reachable g → Reachable (g.buildFeedback senderSsrc mediaSsrc).1
  | rehash {g : TwccFeedbackGenerator} {pending : Pending} :
      Reachable g → pending.entries.Perm g.pending.entries → Reachable { g with pending }

theorem windowed_onPacket {g : TwccFeedbackGenerator} (windowed : Windowed g)
    (twccSequence : BitVec 16) (arrivalTimeUs : Int)
    (window : FirstWindow (g.onPacket twccSequence arrivalTimeUs)) :
    Windowed (g.onPacket twccSequence arrivalTimeUs) := by
  by_cases emitted : g.hasEmitted = true
  · rw [onPacket]
    split_ifs with behind
    · exact windowed
    · rw [Windowed, if_pos emitted] at windowed ⊢
      intro sequence member
      rcases (AList.mem_insert _).mp member with rfl | older
      · by_contra late
        exact behind ⟨emitted, not_lt.mp late⟩
      · exact windowed sequence older
  · have flag : (g.onPacket twccSequence arrivalTimeUs).hasEmitted = false := by
      rw [onPacket]
      split_ifs <;> simpa using emitted
    rw [Windowed, if_neg (by simp [flag])]
    exact window flag

theorem mem_eraseSpan {base sequence : BitVec 16} (pending : Pending) (emitCount : Nat) :
    sequence ∈ eraseSpan pending base emitCount ↔
      sequence ∈ pending ∧ ∀ j < emitCount, sequence ≠ sequenceAt base j := by
  induction emitCount with
  | zero => simp [eraseSpan]
  | succ n ih =>
    rw [eraseSpan, List.range_succ, List.foldl_append, List.foldl_cons, List.foldl_nil,
      AList.mem_erase, ← eraseSpan, ih]
    constructor
    · rintro ⟨last, member, earlier⟩
      refine ⟨member, fun j inside => ?_⟩
      rcases Nat.lt_succ_iff_lt_or_eq.mp inside with before | rfl
      · exact earlier j before
      · exact last
    · rintro ⟨member, all⟩
      exact ⟨all n (Nat.lt_succ_self n), member, fun j inside => all j (Nat.lt_succ_of_lt inside)⟩

theorem mem_entries_iff {pending : Pending} :
    pending.entries.isEmpty = false ↔ ∃ sequence, sequence ∈ pending := by
  rw [List.isEmpty_eq_false_iff_exists_mem]
  constructor
  · rintro ⟨entry, member⟩
    exact ⟨entry.1, List.mem_map_of_mem member⟩
  · rintro ⟨sequence, member⟩
    obtain ⟨entry, inside, -⟩ := List.mem_map.mp member
    exact ⟨entry, inside⟩

/-- The state after a report, and its bytes, in terms of the plan. -/
theorem buildFeedback_of_plan {g : TwccFeedbackGenerator} {plan : List Entry} (holds : Plan g plan)
    (nonempty : ∃ sequence, sequence ∈ g.pending) (senderSsrc mediaSsrc : BitVec 32) :
    g.buildFeedback senderSsrc mediaSsrc =
      ({ lastEmittedSequence := sequenceAt g.reportBase (plan.length - 1)
         hasEmitted := true
         feedbackPacketCount := g.feedbackPacketCount + 1
         pending := eraseSpan g.pending g.reportBase plan.length },
        reportBytes senderSsrc mediaSsrc g.reportBase plan.length g.referenceUnits
          g.feedbackPacketCount (encodeStatusChunks (plan.map symbolOf)) (plan.flatMap fieldOf)) := by
  obtain ⟨front, deltaUnits, rfl⟩ := holds.endsReceived
  have positive : ¬(g.reportWalk.emitCount = 0) := by
    rw [holds.emitCount]
    simp
  rw [buildFeedback, if_neg (by rw [mem_entries_iff.mpr nonempty]; simp), if_neg positive,
    holds.symbols, holds.deltas, holds.emitCount]

theorem windowed_buildFeedback {g : TwccFeedbackGenerator} (windowed : Windowed g)
    (senderSsrc mediaSsrc : BitVec 32) :
    Windowed (g.buildFeedback senderSsrc mediaSsrc).1 := by
  by_cases nonempty : ∃ sequence, sequence ∈ g.pending
  · obtain ⟨plan, holds⟩ := plan_exists windowed nonempty
    have short := holds.short
    obtain ⟨front, deltaUnits, shape⟩ := holds.endsReceived
    have positive : 0 < plan.length := by simp [shape]
    rw [buildFeedback_of_plan holds nonempty, Windowed, if_pos rfl]
    intro sequence member
    obtain ⟨inside, past⟩ := (mem_eraseSpan _ _).mp member
    have near := window_reportBase windowed sequence inside
    have far : plan.length ≤ offset g.reportBase sequence := by
      by_contra within
      exact past _ (not_le.mp within) (sequenceAt_offset _ _).symm
    rw [ahead_eq_offset_sub near (by rw [offset_sequenceAt (by omega)]; omega),
      offset_sequenceAt (by omega)]
    omega
  · rw [buildFeedback, if_pos (by
      by_contra filled
      exact nonempty (mem_entries_iff.mp (by simpa using filled)))]
    exact windowed

theorem Reachable.windowed {g : TwccFeedbackGenerator} (reachable : Reachable g) : Windowed g := by
  induction reachable with
  | start => exact ⟨0, fun sequence member => absurd member (AList.notMem_empty sequence)⟩
  | onPacket twccSequence arrivalTimeUs _ window ih => exact windowed_onPacket ih _ _ window
  | buildFeedback senderSsrc mediaSsrc _ ih => exact windowed_buildFeedback ih _ _
  | rehash _ order ih =>
    rw [Windowed] at ih ⊢
    have same : ∀ sequence, (sequence ∈ _) = (sequence ∈ _) :=
      fun sequence => propext (AList.mem_of_perm order)
    simpa only [Window, same] using ih

/-! ## The packet -/

theorem extract_append_24 (v : BitVec 24) :
    v.extractLsb' 16 8 ++ v.extractLsb' 8 8 ++ v.extractLsb' 0 8 = v := by
  rw [BitVec.extractLsb'_append_extractLsb'_eq_extractLsb' (by rfl),
    BitVec.extractLsb'_append_extractLsb'_eq_extractLsb' (by rfl)]
  exact BitVec.extractLsb'_eq_self

theorem extract_append_32 (v : BitVec 32) :
    v.extractLsb' 24 8 ++ v.extractLsb' 16 8 ++ v.extractLsb' 8 8 ++ v.extractLsb' 0 8 = v := by
  rw [BitVec.extractLsb'_append_extractLsb'_eq_extractLsb' (by rfl),
    BitVec.extractLsb'_append_extractLsb'_eq_extractLsb' (by rfl),
    BitVec.extractLsb'_append_extractLsb'_eq_extractLsb' (by rfl)]
  exact BitVec.extractLsb'_eq_self

theorem readU24_of_drop {data rest : List Byte} {i : Nat} {v : BitVec 24} (here : data.drop i = u24Bytes v ++ rest) :
    readU24 data i = .ok v := by
  have second : data.drop (i + 1) = v.extractLsb' 8 8 :: (v.extractLsb' 0 8 :: rest) := drop_succ_of_drop here
  have third : data.drop (i + 2) = v.extractLsb' 0 8 :: rest := drop_succ_of_drop second
  simp only [readU24, byteAt_of_drop here, byteAt_of_drop second, byteAt_of_drop third]
  exact congrArg Except.ok (extract_append_24 v)

theorem readU32_of_drop {data rest : List Byte} {i : Nat} {v : BitVec 32} (here : data.drop i = u32Bytes v ++ rest) :
    readU32 data i = .ok v := by
  have second : data.drop (i + 1) = v.extractLsb' 16 8 :: v.extractLsb' 8 8 :: v.extractLsb' 0 8 :: rest :=
    drop_succ_of_drop here
  have third : data.drop (i + 2) = v.extractLsb' 8 8 :: v.extractLsb' 0 8 :: rest := drop_succ_of_drop second
  have fourth : data.drop (i + 3) = v.extractLsb' 0 8 :: rest := drop_succ_of_drop third
  simp only [readU32, byteAt_of_drop here, byteAt_of_drop second, byteAt_of_drop third, byteAt_of_drop fourth]
  exact congrArg Except.ok (extract_append_32 v)

/-- The padded size: a multiple of 4, at most 3 bytes over the body. -/
def paddedSize (chunks deltas : List Byte) : Nat := (20 + chunks.length + deltas.length + 3) / 4 * 4

theorem reportBytes_length (senderSsrc mediaSsrc : BitVec 32) (base : BitVec 16) (emitCount : Nat)
    (referenceUnits : Int) (count : Byte) (chunks deltas : List Byte) :
    (reportBytes senderSsrc mediaSsrc base emitCount referenceUnits count chunks deltas).length =
      paddedSize chunks deltas := by
  simp only [reportBytes, paddedSize, List.length_append, List.length_replicate, u16Bytes, u24Bytes,
    u32Bytes, List.length_cons, List.length_nil]
  omega

theorem parse_reportBytes (senderSsrc mediaSsrc : BitVec 32) (base : BitVec 16)
    (referenceUnits : Int) (count : Byte) (plan : List Entry)
    (fits : ∀ deltaUnits, some deltaUnits ∈ plan → Fits16 deltaUnits)
    (short : plan.length < 2 ^ 16)
    (bounded : paddedSize (encodeStatusChunks (plan.map symbolOf)) (plan.flatMap fieldOf) < 2 ^ 16) :
    parseTwccFeedback
        (reportBytes senderSsrc mediaSsrc base plan.length referenceUnits count
          (encodeStatusChunks (plan.map symbolOf)) (plan.flatMap fieldOf))
        (paddedSize (encodeStatusChunks (plan.map symbolOf)) (plan.flatMap fieldOf)) =
      .ok {
        senderSsrc, mediaSsrc
        referenceTime64ms := (BitVec.ofInt 24 referenceUnits).setWidth 32
        feedbackPacketCount := count
        packets := parsed base ((BitVec.ofInt 24 referenceUnits).toNat * kReferenceTimeUnitUs) plan } := by
  set chunks := encodeStatusChunks (plan.map symbolOf) with chunks_def
  set deltas := plan.flatMap fieldOf with deltas_def
  set data := reportBytes senderSsrc mediaSsrc base plan.length referenceUnits count chunks deltas
    with data_def
  have least : 20 ≤ paddedSize chunks deltas := by rw [paddedSize]; omega
  have whole : paddedSize chunks deltas / 4 * 4 = paddedSize chunks deltas := by
    rw [paddedSize]
    omega
  -- The fields stand one behind the other, and the chunks behind the last one.
  have start : data.drop 0 = [0x80 ||| kTwccFeedbackFmt, kRtcpRtpfb] ++ (u16Bytes (BitVec.ofNat 16 (paddedSize chunks deltas / 4 - 1)) ++
      (u32Bytes senderSsrc ++ (u32Bytes mediaSsrc ++ (u16Bytes base ++ (u16Bytes (BitVec.ofNat 16 plan.length) ++
        (u24Bytes (BitVec.ofInt 24 referenceUnits) ++ ([count] ++ (chunks ++ (deltas ++
          List.replicate (paddedSize chunks deltas - (20 + chunks.length + deltas.length)) 0))))))))) := by
    rw [data_def, reportBytes]
    simp only [List.append_assoc]
    rfl
  have afterType := drop_add_of_drop start
  have afterWords := drop_add_of_drop afterType
  have afterSender := drop_add_of_drop afterWords
  have afterMedia := drop_add_of_drop afterSender
  have afterBase := drop_add_of_drop afterMedia
  have afterStatuses := drop_add_of_drop afterBase
  have afterReference := drop_add_of_drop afterStatuses
  have body : data.drop 20 = _ := drop_add_of_drop afterReference
  have first : byteAt data 0 = .ok (0x80 ||| kTwccFeedbackFmt) := byteAt_of_drop start
  have second : byteAt data 1 = .ok kRtcpRtpfb := byteAt_of_drop (drop_succ_of_drop start)
  have words : readU16 data 2 = .ok (BitVec.ofNat 16 (paddedSize chunks deltas / 4 - 1)) := readU16_of_drop afterType
  have sender : readU32 data 4 = .ok senderSsrc := readU32_of_drop afterWords
  have media : readU32 data 8 = .ok mediaSsrc := readU32_of_drop afterSender
  have origin : readU16 data 12 = .ok base := readU16_of_drop afterMedia
  have statuses : readU16 data 14 = .ok (BitVec.ofNat 16 plan.length) := readU16_of_drop afterBase
  have reference : readU24 data 16 = .ok (BitVec.ofInt 24 referenceUnits) := readU24_of_drop afterStatuses
  have counter : byteAt data 19 = .ok count := byteAt_of_drop afterReference
  have size : ((BitVec.ofNat 16 (paddedSize chunks deltas / 4 - 1)).toNat + 1) * 4 =
      paddedSize chunks deltas := by
    rw [BitVec.toNat_ofNat, Nat.mod_eq_of_lt (by omega)]
    omega
  have total : (BitVec.ofNat 16 plan.length).toNat = plan.length := by
    rw [BitVec.toNat_ofNat, Nat.mod_eq_of_lt short]
  have encoded : chunks = encodeStatusChunksFrom plan.length (plan.map symbolOf) := by
    rw [chunks_def, encodeStatusChunks, List.length_map]
  have symbolsRead : readStatusChunks data (paddedSize chunks deltas) plan.length plan.length [] 20 =
      .ok (plan.map symbolOf, 20 + chunks.length) := by
    have valid : ∀ symbol ∈ plan.map symbolOf, IsSymbol symbol := by
      intro symbol member
      obtain ⟨entry, -, rfl⟩ := List.mem_map.mp member
      exact isSymbol_symbolOf entry
    have read := @readStatusChunks_encode data _ (paddedSize chunks deltas) plan.length
      plan.length 20 (plan.map symbolOf) [] valid (by rw [List.length_map]) (by rw [List.length_map])
      (by rw [body, encoded])
      (by rw [← encoded, paddedSize]; omega)
    simpa [← encoded] using read
  have deltasRead := @readDeltas_plan data _ (paddedSize chunks deltas) _ plan base
    ((BitVec.ofInt 24 referenceUnits).toNat * kReferenceTimeUnitUs) fits (drop_add_of_drop body)
    (by rw [← deltas_def, paddedSize]; omega)
  unfold parseTwccFeedback
  rw [if_neg (by omega)]
  simp only [first, second, words, sender, media, origin, statuses, reference, counter, ok_bind, total,
    size, symbolsRead, deltasRead]
  rw [if_neg (by decide), if_neg (by omega)]
  rfl

/-- Header, chunks and deltas stay under the limit, and with them the padding. -/
theorem paddedSize_le {g : TwccFeedbackGenerator} {plan : List Entry} (holds : Plan g plan) :
    paddedSize (encodeStatusChunks (plan.map symbolOf)) (plan.flatMap fieldOf) ≤ kMaxReportBytes := by
  rw [paddedSize]
  rcases holds.sized with ⟨gap, deltaUnits, shape⟩ | counted
  · have short := holds.short
    have chunks := encodeStatusChunksFrom_gap_length (gap + 1) gap (symbolOf (some deltaUnits))
      (isSymbol_symbolOf _) (by rw [symbolOf]; split_ifs <;> decide)
    have field := fieldOf_length deltaUnits
    have width : (fieldOf (some deltaUnits)).length ≤ 2 := by
      rw [field]
      split_ifs <;> omega
    have encoded : encodeStatusChunks (plan.map symbolOf) = encodeStatusChunksFrom (gap + 1)
        (List.replicate gap kNotReceived ++ [symbolOf (some deltaUnits)]) := by
      rw [encodeStatusChunks, shape]
      simp [symbolOf]
    have bytes : plan.flatMap fieldOf = fieldOf (some deltaUnits) := by
      simp [shape, fieldOf]
    rw [shape] at short
    rw [encoded, bytes, kMaxReportBytes]
    simp only [List.length_append, List.length_replicate, List.length_singleton] at short
    omega
  · have chunks := encodeStatusChunks_length (plan.map symbolOf) (by
      intro symbol member
      obtain ⟨entry, -, rfl⟩ := List.mem_map.mp member
      exact isSymbol_symbolOf entry)
    rw [List.length_map] at chunks
    rw [kMaxReportBytes] at counted ⊢
    omega

/-- Where a report has to start: right after the last reported sequence, or at
the oldest pending one. -/
def StartsAt (g : TwccFeedbackGenerator) (start : BitVec 16) : Prop :=
  if g.hasEmitted then start = g.lastEmittedSequence + 1
  else start ∈ g.pending ∧ ∀ sequence ∈ g.pending, 0 ≤ Serial.ahead sequence start

theorem startsAt_reportBase {g : TwccFeedbackGenerator} (windowed : Windowed g)
    (nonempty : ∃ sequence, sequence ∈ g.pending) : StartsAt g g.reportBase := by
  have window := window_reportBase windowed
  rw [StartsAt]
  split_ifs with emitted
  · rw [reportBase, if_pos emitted]
  · refine ⟨?_, fun sequence member => ?_⟩
    · rw [Windowed, if_neg emitted] at windowed
      obtain ⟨start, near⟩ := windowed
      obtain ⟨some, member⟩ := nonempty
      rw [AList.mem_keys] at member ⊢
      rw [reportBase, if_neg emitted]
      cases keys : g.pending.keys with
      | nil => simp [keys] at member
      | cons first rest =>
        have found := (@oldestOf_spec start first (first :: rest) (by
          intro key within
          apply near key
          rw [AList.mem_keys, keys]
          simpa using within)).1
        rw [List.headD_cons]
        simpa using found
    · have origin : offset g.reportBase g.reportBase = 0 := by simp [offset]
      rw [ahead_eq_offset_sub (window sequence member) (by rw [origin]; decide), origin]
      omega

/-- A call that builds a packet had something pending, and a plan for it. -/
theorem plan_of_report {g : TwccFeedbackGenerator} (windowed : Windowed g)
    (senderSsrc mediaSsrc : BitVec 32) (built : (g.buildFeedback senderSsrc mediaSsrc).2 ≠ []) :
    (∃ sequence, sequence ∈ g.pending) ∧ ∃ plan, Plan g plan := by
  have nonempty : ∃ sequence, sequence ∈ g.pending := by
    apply mem_entries_iff.mp
    by_contra empty
    rw [buildFeedback, if_pos (by simpa using empty)] at built
    exact built rfl
  exact ⟨nonempty, plan_exists windowed nonempty⟩

/-- A call with something pending builds a packet. -/
theorem report_of_pending {g : TwccFeedbackGenerator} (windowed : Windowed g)
    (nonempty : ∃ sequence, sequence ∈ g.pending) (senderSsrc mediaSsrc : BitVec 32) :
    (g.buildFeedback senderSsrc mediaSsrc).2 ≠ [] := by
  obtain ⟨plan, holds⟩ := plan_exists windowed nonempty
  rw [buildFeedback_of_plan holds nonempty]
  simp [reportBytes]

/-- The feedback a plan parses to. -/
def feedbackOf (g : TwccFeedbackGenerator) (senderSsrc mediaSsrc : BitVec 32) (plan : List Entry) :
    TwccFeedback where
  senderSsrc := senderSsrc
  mediaSsrc := mediaSsrc
  referenceTime64ms := (BitVec.ofInt 24 g.referenceUnits).setWidth 32
  feedbackPacketCount := g.feedbackPacketCount
  packets := parsed g.reportBase
    ((BitVec.ofInt 24 g.referenceUnits).toNat * kReferenceTimeUnitUs) plan

theorem parse_buildFeedback {g : TwccFeedbackGenerator} {plan : List Entry} (holds : Plan g plan)
    (nonempty : ∃ sequence, sequence ∈ g.pending) (senderSsrc mediaSsrc : BitVec 32) :
    parseTwccFeedback (g.buildFeedback senderSsrc mediaSsrc).2
        (g.buildFeedback senderSsrc mediaSsrc).2.length =
      .ok (feedbackOf g senderSsrc mediaSsrc plan) := by
  have bound := paddedSize_le holds
  have short := holds.short
  rw [buildFeedback_of_plan holds nonempty]
  dsimp only
  rw [reportBytes_length]
  exact parse_reportBytes senderSsrc mediaSsrc g.reportBase g.referenceUnits g.feedbackPacketCount
    plan holds.tracks.fits (by omega) (by rw [kMaxReportBytes] at bound; omega)

/-- Round trip: the packet parses; its entries are consecutive from the start of
the report; an entry is received exactly when its sequence was pending; and one
number of wraps of the 24-bit reference puts every parsed arrival less than
250 us under the recorded one. -/
theorem buildFeedback_roundTrip {g : TwccFeedbackGenerator} (reachable : Reachable g)
    (senderSsrc mediaSsrc : BitVec 32) (built : (g.buildFeedback senderSsrc mediaSsrc).2 ≠ []) :
    ∃ feedback start,
      parseTwccFeedback (g.buildFeedback senderSsrc mediaSsrc).2
        (g.buildFeedback senderSsrc mediaSsrc).2.length = .ok feedback ∧
      feedback.senderSsrc = senderSsrc ∧ feedback.mediaSsrc = mediaSsrc ∧
      feedback.packets ≠ [] ∧ StartsAt g start ∧
      (∀ i result, feedback.packets[i]? = some result →
        result.sequence = start + BitVec.ofNat 16 i ∧
        (result.received = true ↔ result.sequence ∈ g.pending)) ∧
      ∃ wraps : Int, ∀ result ∈ feedback.packets, result.received = true →
        ∃ arrival, g.pending.lookup result.sequence = some arrival ∧
          0 ≤ arrival.atUs - (result.arrivalTimeUs + wraps * (2 ^ 24 * 64000)) ∧
          arrival.atUs - (result.arrivalTimeUs + wraps * (2 ^ 24 * 64000)) < 250 := by
  have windowed := reachable.windowed
  obtain ⟨nonempty, plan, holds⟩ := plan_of_report windowed senderSsrc mediaSsrc built
  refine ⟨feedbackOf g senderSsrc mediaSsrc plan, g.reportBase,
    parse_buildFeedback holds nonempty senderSsrc mediaSsrc, rfl, rfl, ?_,
    startsAt_reportBase windowed nonempty, ?_, g.referenceUnits / 2 ^ 24, ?_⟩
  · obtain ⟨front, deltaUnits, shape⟩ := holds.endsReceived
    rw [← List.length_pos_iff, feedbackOf, parsed_length, shape]
    simp
  · intro i result found
    obtain ⟨place, entry, listed, received⟩ := parsed_get _ _ _ i result found
    refine ⟨place, ?_⟩
    rw [received, place]
    exact holds.tracks.isSome_iff i entry listed
  · intro result member received
    obtain ⟨i, found⟩ := List.mem_iff_getElem?.mp member
    obtain ⟨arrival, present, low, high⟩ :=
      holds.tracks.parsed_arrival _ i result found received
    refine ⟨arrival, present, ?_⟩
    -- the wire keeps the reference modulo its 24 bits
    have wrapped : ((BitVec.ofInt 24 g.referenceUnits).toNat : Int) = g.referenceUnits % 2 ^ 24 := by
      rw [BitVec.toNat_ofInt]
      norm_num
      exact Int.emod_nonneg _ (by norm_num)
    rw [wrapped, kReferenceTimeUnitUs] at low high
    rw [kDeltaUnitUs] at high
    omega

/-- Two packets across the wrap, the later sequence first on the clock. -/
def acrossWrap : TwccFeedbackGenerator :=
  (({} : TwccFeedbackGenerator).onPacket 65535 1000).onPacket 1 (-70000)

theorem pending_acrossWrap (sequence : BitVec 16) :
    sequence ∈ acrossWrap.pending ↔ sequence = 1 ∨ sequence = 65535 := by
  rw [acrossWrap, onPacket, if_neg (by rintro ⟨emitted, -⟩; cases emitted), AList.mem_insert]
  simp [onPacket, AList.mem_insert, -AList.insert_empty]

theorem reachable_acrossWrap : Reachable acrossWrap := by
  refine .onPacket 1 (-70000) (.onPacket 65535 1000 .start ?_) ?_
  · intro _
    refine ⟨65535, fun sequence member => ?_⟩
    obtain rfl : sequence = 65535 := by simpa [onPacket, -AList.insert_empty] using member
    decide
  · intro _
    refine ⟨65535, fun sequence member => ?_⟩
    rcases (pending_acrossWrap sequence).mp member with rfl | rfl <;> decide

theorem buildFeedback_roundTrip_acrossWrap :
    ∃ feedback start,
      parseTwccFeedback (acrossWrap.buildFeedback 1 2).2 (acrossWrap.buildFeedback 1 2).2.length =
        .ok feedback ∧ feedback.packets ≠ [] ∧ StartsAt acrossWrap start := by
  obtain ⟨feedback, start, accepts, -, -, nonempty, starts, -⟩ :=
    buildFeedback_roundTrip reachable_acrossWrap 1 2
      (report_of_pending reachable_acrossWrap.windowed ⟨1, (pending_acrossWrap 1).mpr (.inl rfl)⟩ 1 2)
  exact ⟨feedback, start, accepts, nonempty, starts⟩

end Mello.Transport.TwccRoundTrip
