import Mello.Transport.UlpfecGroup

/-!
Repair of one loss of a group. The payload, the timestamp and the length come
back exactly; the marker does when the packets of its timestamp tell it.
-/

namespace Mello.Transport.UlpfecRepair
open Mello.Library Parity Twcc TwccChunks TwccReport Ulpfec UlpfecGenerator UlpfecRecovery UlpfecGroup

/-- The receiver lost one member of a group and holds the others and the parity
packet. The blocks before it are of other groups. -/
structure Lost (r : UlpfecRecovery) (group : Group) (parityPacket : List Byte)
    (front : List MediaPacket) (lost : MediaPacket) (back : List MediaPacket) : Prop where
  members : group.packets = front ++ lost :: back
  missing : r.media.lookup lost.sequence = none
  held : ∀ packet ∈ front ++ back, r.media.lookup packet.sequence = some packet.bytes
  parity : ∃ before block after, r.fec = before ++ block :: after ∧
    fecBlockOf parityPacket = .ok (r.mediaSsrc, block) ∧ ∀ other ∈ before, other.covers lost.sequence = false

/-- A buffered packet of the lost packet's timestamp with a greater sequence,
compared without regard to the wrap. -/
def Outnumbered (r : UlpfecRecovery) (lost : MediaPacket) : Prop :=
  ∃ sequence data pkt, (sequence, data) ∈ r.media ∧ parseRtp data = .ok pkt ∧
    pkt.timestamp = lost.timestamp ∧ lost.sequence < sequence

/-- When the marker can be told: on the last member from the block, inside a
frame from a greater sequence of the frame, and at the end of a frame from
another member of it and no greater sequence. -/
def MarkerKept (r : UlpfecRecovery) (front : List MediaPacket) (lost : MediaPacket)
    (back : List MediaPacket) : Prop :=
  back = [] ∨
    (lost.marker = false ∧ Outnumbered r lost) ∨
    (lost.marker = true ∧ (∃ packet ∈ front, packet.timestamp = lost.timestamp) ∧ ¬Outnumbered r lost)

/-! ## The members of the block -/

theorem members_blockOf (group : Group) : (blockOf group).members = List.range group.packets.length := by
  have all : ∀ n : Fin 17, ((List.range 16).filter fun i => maskOf n.val &&& maskBit i ≠ 0) = List.range n.val := by
    decide +kernel
  exact all ⟨group.packets.length, Nat.lt_succ_of_le group.small⟩

theorem sequenceAt_blockOf {group : Group} {i : Nat} {packet : MediaPacket}
    (member : group.packets[i]? = some packet) : (blockOf group).sequenceAt i = packet.sequence :=
  (group.numbered i packet member).symm

theorem covers_blockOf {group : Group} {i : Nat} {packet : MediaPacket}
    (member : group.packets[i]? = some packet) : (blockOf group).covers packet.sequence = true := by
  have inside : i < group.packets.length := (List.getElem?_eq_some_iff.mp member).1
  have small : group.packets.length ≤ 16 := group.small
  have index : packet.sequence - (blockOf group).snBase = BitVec.ofNat 16 i := by
    rw [group.numbered i packet member]
    exact add_sub_cancel_left group.base _
  have value : (BitVec.ofNat 16 i).toInt = i := by
    rw [BitVec.toInt_ofNat']
    exact Int.bmod_eq_of_le_mul_two (by norm_num; omega) (by norm_num; omega)
  unfold FecBlock.covers
  rw [index, value, decide_eq_true_iff]
  exact ⟨by omega, by omega, (maskOf_and_maskBit small (by omega)).mpr inside⟩

/-- The indices of a list around one of its items. -/
theorem range_split {α : Type*} (front back : List α) (item : α) :
    List.range (front ++ item :: back).length =
      List.range front.length ++ front.length :: (List.range back.length).map (front.length + 1 + ·) := by
  rw [List.length_append, List.length_cons, List.range_add, List.range_succ_eq_map, List.map_cons, List.map_map]
  congr 2
  apply List.map_congr_left
  intro i _
  change front.length + (i + 1) = front.length + 1 + i
  omega

theorem map_range_eq {α β : Type*} (items : List α) (f : Nat → β) (g : α → β)
    (same : ∀ i item, items[i]? = some item → f i = g item) :
    (List.range items.length).map f = items.map g := by
  apply List.ext_getElem
  · simp
  · intro i _ inside
    rw [List.length_map] at inside
    simp [same i items[i] (List.getElem?_eq_getElem inside)]

section Loss

variable {r : UlpfecRecovery} {group : Group} {parityPacket : List Byte}
variable {front back : List MediaPacket} {lost : MediaPacket}

theorem member_lost (loss : Lost r group parityPacket front lost back) :
    group.packets[front.length]? = some lost := by
  rw [loss.members, List.getElem?_append_right le_rfl, Nat.sub_self]
  rfl

theorem member_front (loss : Lost r group parityPacket front lost back) {i : Nat} {packet : MediaPacket}
    (member : front[i]? = some packet) : group.packets[i]? = some packet := by
  rw [loss.members, List.getElem?_append_left (List.getElem?_eq_some_iff.mp member).1, member]

theorem member_back (loss : Lost r group parityPacket front lost back) {i : Nat} {packet : MediaPacket}
    (member : back[i]? = some packet) : group.packets[front.length + 1 + i]? = some packet := by
  rw [loss.members, List.append_cons, List.getElem?_append_right (by simp)]
  simpa using member

theorem missing_blockOf (loss : Lost r group parityPacket front lost back) :
    r.missing (blockOf group) = [front.length] := by
  unfold missing
  rw [members_blockOf, loss.members, range_split, List.filter_append, List.filter_cons]
  have held : ∀ (i : Nat) (packet : MediaPacket), group.packets[i]? = some packet → packet ∈ front ++ back →
      (r.media.lookup ((blockOf group).sequenceAt i)).isNone = false := by
    intro i packet member other
    rw [sequenceAt_blockOf member, loss.held packet other]
    rfl
  have early : (List.range front.length).filter
      (fun i => (r.media.lookup ((blockOf group).sequenceAt i)).isNone) = [] := by
    rw [List.filter_eq_nil_iff]
    intro i inside
    have member := List.getElem?_eq_getElem (List.mem_range.mp inside)
    rw [held i _ (member_front loss member) (List.mem_append_left _ (List.getElem_mem _))]
    exact Bool.false_ne_true
  have late : ((List.range back.length).map (front.length + 1 + ·)).filter
      (fun i => (r.media.lookup ((blockOf group).sequenceAt i)).isNone) = [] := by
    rw [List.filter_eq_nil_iff]
    intro i inside
    obtain ⟨j, small, rfl⟩ := List.mem_map.mp inside
    have member := List.getElem?_eq_getElem (List.mem_range.mp small)
    rw [held _ _ (member_back loss member) (List.mem_append_right _ (List.getElem_mem _))]
    exact Bool.false_ne_true
  rw [early, late, sequenceAt_blockOf (member_lost loss), loss.missing]
  rfl

/-- The other members, parsed. -/
def present (front back : List MediaPacket) : List (BitVec 16 × ParsedRtp) :=
  (front ++ back).map fun packet => (packet.sequence, packet.parsed)

theorem parseRtp_bytes (packet : MediaPacket) : parseRtp packet.bytes = .ok packet.parsed :=
  parseRtp_rtpHeader packet.marker (by decide) _ _ _ _

theorem others_blockOf (loss : Lost r group parityPacket front lost back) :
    ((blockOf group).members.filter fun i => i ≠ front.length) =
      List.range front.length ++ (List.range back.length).map (front.length + 1 + ·) := by
  rw [members_blockOf, loss.members, range_split, List.filter_append, List.filter_cons_of_neg (by simp)]
  congr 1
  · rw [List.filter_eq_self]
    intro i inside
    simpa using (List.mem_range.mp inside).ne
  · rw [List.filter_eq_self]
    intro i inside
    obtain ⟨j, small, rfl⟩ := List.mem_map.mp inside
    simp only [decide_eq_true_eq]
    omega

theorem parsedAt_held (loss : Lost r group parityPacket front lost back) {i : Nat} {packet : MediaPacket}
    (member : group.packets[i]? = some packet) (other : packet ∈ front ++ back) :
    ((r.parsedAt ((blockOf group).sequenceAt i)).map fun pkt => ((blockOf group).sequenceAt i, pkt)) =
      .ok (packet.sequence, packet.parsed) := by
  unfold parsedAt
  rw [sequenceAt_blockOf member, loss.held packet other]
  change (parseRtp packet.bytes).map _ = _
  rw [parseRtp_bytes]
  rfl

/-- What the receiver reads of each other member, by its index. -/
def readBack (group : Group) (i : Nat) : BitVec 16 × ParsedRtp :=
  match group.packets[i]? with
  | some packet => (packet.sequence, packet.parsed)
  | none => (0, ⟨0, 0, 0, false, []⟩)

theorem readBack_of_member {i : Nat} {packet : MediaPacket} (member : group.packets[i]? = some packet) :
    readBack group i = (packet.sequence, packet.parsed) := by
  rw [readBack, member]

theorem parsed_others (loss : Lost r group parityPacket front lost back) :
    ((blockOf group).members.filter fun i => i ≠ front.length).mapM (fun i =>
        (r.parsedAt ((blockOf group).sequenceAt i)).map fun pkt => ((blockOf group).sequenceAt i, pkt)) =
      .ok (present front back) := by
  rw [others_blockOf loss, mapM_ok _ (readBack group)]
  · congr 1
    unfold present
    rw [List.map_append, List.map_append, List.map_map]
    congr 1
    · apply map_range_eq
      intro i packet member
      exact readBack_of_member (member_front loss member)
    · apply map_range_eq
      intro i packet member
      exact readBack_of_member (member_back loss member)
  · intro i inside
    rcases List.mem_append.mp inside with early | late
    · have member := List.getElem?_eq_getElem (List.mem_range.mp early)
      rw [readBack_of_member (member_front loss member)]
      exact parsedAt_held loss (member_front loss member) (List.mem_append_left _ (List.getElem_mem _))
    · obtain ⟨j, small, rfl⟩ := List.mem_map.mp late
      have member := List.getElem?_eq_getElem (List.mem_range.mp small)
      rw [readBack_of_member (member_back loss member)]
      exact parsedAt_held loss (member_back loss member) (List.mem_append_right _ (List.getElem_mem _))

/-! ## The marker -/

theorem mem_of_lookup {key : BitVec 16} {data : List Byte} {media : List (BitVec 16 × List Byte)}
    (found : media.lookup key = some data) : (key, data) ∈ media := by
  obtain ⟨before, after, split, -⟩ := List.lookup_eq_some_iff.mp found
  rw [split]
  exact List.mem_append_right _ List.mem_cons_self

theorem any_outnumbers : (r.media.any fun entry =>
    match parseRtp entry.2 with
    | .ok pkt => pkt.timestamp == lost.timestamp && decide (lost.sequence < entry.1)
    | .error _ => false) = true ↔ Outnumbered r lost := by
  rw [List.any_eq_true]
  constructor
  · rintro ⟨entry, inside, test⟩
    cases parse : parseRtp entry.2 with
    | error fault => simp [parse] at test
    | ok pkt =>
      rw [parse] at test
      simp only [Bool.and_eq_true, beq_iff_eq, decide_eq_true_eq] at test
      exact ⟨entry.1, entry.2, pkt, inside, parse, test.1, test.2⟩
  · rintro ⟨sequence, data, pkt, inside, parse, same, greater⟩
    refine ⟨(sequence, data), inside, ?_⟩
    rw [parse]
    simp [same, greater]

/-- A greater sequence of the group is in the buffer, so the two searches for a
greater sequence are one. -/
theorem inferMarker_iff (loss : Lost r group parityPacket front lost back) :
    r.inferMarker lost.sequence lost.timestamp (present front back) = true ↔
      (∃ packet ∈ front ++ back, packet.timestamp = lost.timestamp) ∧ ¬Outnumbered r lost := by
  have shares : ((present front back).any fun other => other.2.timestamp == lost.timestamp) = true ↔
      ∃ packet ∈ front ++ back, packet.timestamp = lost.timestamp := by
    unfold present
    rw [List.any_map, List.any_eq_true]
    simp [MediaPacket.parsed]
  have higher : ((present front back).any fun other =>
      other.2.timestamp == lost.timestamp && decide (lost.sequence < other.1)) = true → Outnumbered r lost := by
    unfold present
    rw [List.any_map, List.any_eq_true]
    rintro ⟨packet, inside, test⟩
    simp only [Function.comp_apply, Bool.and_eq_true, beq_iff_eq, decide_eq_true_eq] at test
    exact ⟨packet.sequence, packet.bytes, packet.parsed, mem_of_lookup (loss.held packet inside),
      parseRtp_bytes packet, test.1, test.2⟩
  unfold inferMarker
  simp only [Bool.and_eq_true, Bool.not_eq_true', ← Bool.not_eq_true, shares]
  constructor
  · rintro ⟨⟨shared, -⟩, none⟩
    exact ⟨shared, fun found => none (any_outnumbers.mpr found)⟩
  · rintro ⟨shared, none⟩
    exact ⟨⟨shared, fun found => none (higher found)⟩, fun found => none (any_outnumbers.mp found)⟩

/-- The marker that the repaired packet gets. -/
def repairedMarker (r : UlpfecRecovery) (front : List MediaPacket) (lost : MediaPacket)
    (back : List MediaPacket) : Bool :=
  if back = [] then lost.marker else r.inferMarker lost.sequence lost.timestamp (present front back)

theorem repairedMarker_eq_iff (loss : Lost r group parityPacket front lost back) :
    repairedMarker r front lost back = lost.marker ↔ MarkerKept r front lost back := by
  unfold repairedMarker MarkerKept
  by_cases last : back = []
  · simp [last]
  · have told := inferMarker_iff loss
    have marked := group.marked front lost back loss.members last
    rw [if_neg last]
    cases marker : lost.marker with
    | false =>
      rw [marker] at marked
      have later : ∃ packet ∈ back, packet.timestamp = lost.timestamp := by
        by_contra none
        push Not at none
        exact Bool.false_ne_true (marked.mpr none)
      obtain ⟨packet, inside, same⟩ := later
      have shared : ∃ packet ∈ front ++ back, packet.timestamp = lost.timestamp :=
        ⟨packet, List.mem_append_right _ inside, same⟩
      rw [← Bool.not_eq_true, told, and_iff_right shared, not_not]
      simp [last]
    | true =>
      have none := marked.mp marker
      have shared : (∃ packet ∈ front ++ back, packet.timestamp = lost.timestamp) ↔
          ∃ packet ∈ front, packet.timestamp = lost.timestamp := by
        constructor
        · rintro ⟨packet, inside, same⟩
          rcases List.mem_append.mp inside with early | late
          · exact ⟨packet, early, same⟩
          · exact absurd same (none packet late)
        · rintro ⟨packet, inside, same⟩
          exact ⟨packet, List.mem_append_left _ inside, same⟩
      rw [told, shared]
      simp [last]

/-! ## The repaired packet -/

/-- The bytes that the receiver gives for the lost packet. The length is the XOR
of 16-bit lengths. -/
theorem rebuild_lost (loss : Lost r group parityPacket front lost back) :
    ∃ payload : List Byte, payload.take lost.payload.length = lost.payload ∧
      lost.payload.length ≤ payload.length ∧
      r.rebuild lost.sequence (blockOf group) front.length (present front back) =
        .repaired (rtpHeader (repairedMarker r front lost back) kMediaPayloadType lost.sequence lost.timestamp
          r.mediaSsrc ++ payload.take (lost.payload.length % 2 ^ 16)) := by
  have timestamp : (present front back).foldl (fun timestamp other => timestamp ^^^ other.2.timestamp)
      (blockOf group).tsRecovery = lost.timestamp := by
    have whole : (blockOf group).tsRecovery =
        (front ++ lost :: back).foldl (fun sum packet => sum ^^^ packet.timestamp) 0 := by
      rw [← loss.members]
      rfl
    unfold present
    rw [List.foldl_map, whole]
    exact rebuild_word MediaPacket.timestamp front back lost
  have length : (present front back).foldl (fun length other => length ^^^ BitVec.ofNat 16 other.2.payload.length)
      (blockOf group).lengthRecovery = BitVec.ofNat 16 lost.payload.length := by
    have whole : (blockOf group).lengthRecovery =
        (front ++ lost :: back).foldl (fun sum packet => sum ^^^ BitVec.ofNat 16 packet.payload.length) 0 := by
      rw [← loss.members]
      rfl
    unfold present
    rw [List.foldl_map, whole]
    exact rebuild_word (fun packet => BitVec.ofNat 16 packet.payload.length) front back lost
  have strings : gather (fun other => other.2.payload) (present front back) (blockOf group).recoveryPayload =
      gather MediaPacket.payload (front ++ back) (gather MediaPacket.payload (front ++ lost :: back) []) := by
    have whole : (blockOf group).recoveryPayload = gather MediaPacket.payload (front ++ lost :: back) [] := by
      rw [← loss.members]
      rfl
    unfold present
    rw [gather, List.foldl_map, whole]
    rfl
  have payload := rebuild_string MediaPacket.payload front back lost
  have enough : lost.payload.length ≤
      (gather MediaPacket.payload (front ++ back) (gather MediaPacket.payload (front ++ lost :: back) [])).length := by
    have cut := congrArg List.length payload
    rw [List.length_take] at cut
    omega
  have marker : (if some front.length = (blockOf group).members.getLast? then (blockOf group).marker
      else r.inferMarker lost.sequence lost.timestamp (present front back)) = repairedMarker r front lost back := by
    unfold repairedMarker
    have count : group.packets.length = front.length + back.length + 1 := by
      rw [loss.members, List.length_append, List.length_cons]
      omega
    rw [members_blockOf, count, List.range_succ, List.getLast?_concat]
    by_cases last : back = []
    · have whole : (blockOf group).marker = ((front ++ lost :: back).getLast (by simp)).marker := by
        simp only [← loss.members]
        rfl
      rw [if_pos last, if_pos (by rw [last]; rfl), whole]
      simp [last]
    · have more := List.length_pos_iff.mpr last
      have apart : ¬some front.length = some (front.length + back.length) := by
        rw [Option.some.injEq]
        omega
      rw [if_neg last, if_neg apart]
  refine ⟨_, payload, enough, ?_⟩
  unfold rebuild
  simp only [timestamp, length, strings, marker, BitVec.toNat_ofNat]
  rw [if_neg (by have := Nat.mod_le lost.payload.length (2 ^ 16); omega)]
  rfl

theorem rtpHeader_marker {marker other : Bool} {sequence : BitVec 16} {timestamp ssrc : BitVec 32} :
    rtpHeader marker kMediaPayloadType sequence timestamp ssrc =
      rtpHeader other kMediaPayloadType sequence timestamp ssrc ↔ marker = other := by
  constructor
  · intro same
    unfold rtpHeader at same
    have second := (List.cons.inj (List.cons.inj same).2).1
    revert second
    cases marker <;> cases other <;> decide
  · intro same
    rw [same]

theorem take_mod_eq_iff {payload cut : List Byte} (take : payload.take cut.length = cut) (w : Nat) :
    payload.take (cut.length % w) = cut ↔ cut.length % w = cut.length := by
  constructor
  · intro same
    have size := congrArg List.length same
    have below := Nat.mod_le cut.length w
    rw [List.length_take] at size
    omega
  · intro same
    rw [same, take]

/-- One attempt on the block of the group. -/
theorem attempt_lost (loss : Lost r group parityPacket front lost back) (ssrc : r.mediaSsrc = group.ssrc) :
    ∃ packet, r.attempt lost.sequence (blockOf group) = .repaired packet ∧
      (packet = lost.bytes ↔ lost.payload.length < 2 ^ 16 ∧ MarkerKept r front lost back) := by
  obtain ⟨payload, take, enough, rebuilt⟩ := rebuild_lost loss
  refine ⟨rtpHeader (repairedMarker r front lost back) kMediaPayloadType lost.sequence lost.timestamp
    r.mediaSsrc ++ payload.take (lost.payload.length % 2 ^ 16), ?_, ?_⟩
  · unfold attempt
    rw [covers_blockOf (member_lost loss), if_neg (by simp), missing_blockOf loss]
    simp only
    rw [if_neg (by simp [sequenceAt_blockOf (member_lost loss)]), parsed_others loss]
    exact rebuilt
  · have own : lost.ssrc = group.ssrc := group.oneSsrc lost (loss.members ▸ List.mem_append_right _ List.mem_cons_self)
    unfold MediaPacket.bytes
    rw [ssrc, own, ← repairedMarker_eq_iff loss]
    rw [← Nat.mod_eq_iff_lt (show 2 ^ 16 ≠ 0 by decide), ← take_mod_eq_iff take]
    constructor
    · intro same
      obtain ⟨header, rest⟩ := List.append_inj same rfl
      exact ⟨rest, rtpHeader_marker.mp header⟩
    · rintro ⟨rest, marker⟩
      rw [rest, marker]

theorem attemptAll_skip {sequence : BitVec 16} {before : List FecBlock} (block : FecBlock) (after : List FecBlock)
    (apart : ∀ other ∈ before, other.covers sequence = false) :
    r.attemptAll sequence (before ++ block :: after) = r.attemptAll sequence (block :: after) := by
  induction before with
  | nil => rfl
  | cons other before ih =>
    have skipped : r.attempt sequence other = .skip := by
      unfold attempt
      rw [if_pos (apart other List.mem_cons_self)]
    rw [List.cons_append, attemptAll, skipped]
    exact ih fun other member => apart other (List.mem_cons_of_mem _ member)

end Loss

/-- The parity packet that the generator builds after the packets of a group. -/
def parityOf (g : UlpfecGenerator) (group : Group) (rtpTimestamp : BitVec 32) : List Byte :=
  ((group.packets.foldl (fun g packet => g.addPacket packet.bytes) g).buildPacket group.ssrc rtpTimestamp).1

theorem fecBlockOf_parityOf {g : UlpfecGenerator} {group : Group} (start : g.count = 0) (idle : g.ready = false)
    (sized : max 1 g.groupSize = group.packets.length) (rtpTimestamp : BitVec 32) :
    fecBlockOf (parityOf g group rtpTimestamp) = .ok (group.ssrc, blockOf group) := by
  have gathering : Gathering group.base [] g :=
    ⟨fun some => absurd rfl some, fun some => absurd rfl some, fun some => absurd rfl some, start, idle⟩
  have complete := complete_fold group.packets gathering group.nonempty (by simpa using sized)
    (by simpa using show _ ≤ 16 from group.small) group.numbered
  exact fecBlockOf_buildPacket complete rtpTimestamp

/-- A lost member comes back exactly when its sequence was never repaired before,
its payload length fits the 16-bit field, and its marker can be told. -/
theorem recover_exact_iff (g : UlpfecGenerator) (start : g.count = 0) (idle : g.ready = false)
    (group : Group) (sized : max 1 g.groupSize = group.packets.length) (rtpTimestamp : BitVec 32)
    (r : UlpfecRecovery) (front : List MediaPacket) (lost : MediaPacket) (back : List MediaPacket)
    (loss : Lost r group (parityOf g group rtpTimestamp) front lost back) :
    (r.recover lost.sequence).1 = some lost.bytes ↔
      lost.sequence ∉ r.recoveredSequences ∧ lost.payload.length < 2 ^ 16 ∧ MarkerKept r front lost back := by
  obtain ⟨before, block, after, blocks, read, apart⟩ := loss.parity
  rw [fecBlockOf_parityOf start idle sized] at read
  obtain ⟨ssrc, rfl⟩ := Prod.mk.inj (Except.ok.inj read)
  obtain ⟨packet, attempted, same⟩ := attempt_lost loss ssrc.symm
  unfold recover
  by_cases again : lost.sequence ∈ r.recoveredSequences
  · rw [if_pos again]
    simp [again]
  · rw [if_neg again, blocks, attemptAll_skip _ _ apart, attemptAll, attempted]
    change some packet = some lost.bytes ↔ _
    rw [Option.some.injEq, same, and_iff_right again]

/-! ## A receiver with an empty buffer -/

/-- It got these media packets, and then the parity packet. -/
def received (packets : List MediaPacket) (parityPacket : List Byte) : UlpfecRecovery :=
  (packets.foldl (fun r packet => r.addMediaPacket packet.bytes) ({} : UlpfecRecovery)).addFecPacket parityPacket

theorem lookup_map_bytes {packets : List MediaPacket} (distinct : (packets.map MediaPacket.sequence).Nodup)
    {packet : MediaPacket} (member : packet ∈ packets) :
    (packets.map fun packet => (packet.sequence, packet.bytes)).lookup packet.sequence = some packet.bytes := by
  induction packets with
  | nil => cases member
  | cons first rest ih =>
    rw [List.map_cons, List.nodup_cons] at distinct
    rw [List.map_cons]
    rcases List.mem_cons.mp member with rfl | later
    · exact List.lookup_cons_self
    · have apart : packet.sequence ≠ first.sequence := by
        intro same
        exact distinct.1 (same ▸ List.mem_map_of_mem later)
      rw [List.lookup_cons, beq_eq_false_iff_ne.mpr apart]
      exact ih distinct.2 later

theorem lookup_map_none {packets : List MediaPacket} {sequence : BitVec 16}
    (absent : sequence ∉ packets.map MediaPacket.sequence) :
    (packets.map fun packet => (packet.sequence, packet.bytes)).lookup sequence = none := by
  rw [List.lookup_eq_none_iff]
  intro entry member
  obtain ⟨packet, inside, rfl⟩ := List.mem_map.mp member
  rw [bne_iff_ne]
  intro same
  exact absent (same ▸ List.mem_map_of_mem inside)

/-- Packets that fit the buffer are all in it. -/
theorem media_fold (packets : List MediaPacket) (distinct : (packets.map MediaPacket.sequence).Nodup)
    (fit : packets.length ≤ kMaxMediaPackets) :
    packets.foldl (fun r packet => r.addMediaPacket packet.bytes) ({} : UlpfecRecovery) =
      { media := packets.map fun packet => (packet.sequence, packet.bytes) } := by
  induction packets using List.reverseRecOn with
  | nil => rfl
  | append_singleton packets packet ih =>
    rw [List.map_append, List.nodup_append] at distinct
    rw [List.length_append, List.length_singleton] at fit
    have absent : packet.sequence ∉ packets.map MediaPacket.sequence := by
      intro member
      exact distinct.2.2 _ member _ (List.mem_singleton_self _) rfl
    rw [List.foldl_append, ih distinct.1 (by omega), List.foldl_cons, List.foldl_nil]
    unfold addMediaPacket
    rw [parseRtp_bytes]
    change rememberMedia _ packet.sequence packet.bytes = _
    unfold rememberMedia
    simp only [lookup_map_none absent, Option.isSome_none, Bool.false_eq_true, if_false]
    rw [Nat.sub_eq_zero_of_le (by simpa using fit), List.drop_zero, List.map_append]
    rfl

theorem distinct_sequences (group : Group) : (group.packets.map MediaPacket.sequence).Nodup := by
  have small : group.packets.length ≤ 16 := group.small
  rw [← map_range_eq group.packets (fun i => (blockOf group).sequenceAt i) MediaPacket.sequence
    fun i packet member => sequenceAt_blockOf member]
  apply List.Nodup.map_on _ List.nodup_range
  intro i first j second same
  have words := congrArg BitVec.toNat (add_left_cancel same)
  rw [List.mem_range] at first second
  rw [BitVec.toNat_ofNat, BitVec.toNat_ofNat, Nat.mod_eq_of_lt (by omega), Nat.mod_eq_of_lt (by omega)] at words
  exact words

theorem lost_received {g : UlpfecGenerator} {group : Group} (start : g.count = 0) (idle : g.ready = false)
    (sized : max 1 g.groupSize = group.packets.length) (rtpTimestamp : BitVec 32)
    (front : List MediaPacket) (lost : MediaPacket) (back : List MediaPacket)
    (members : group.packets = front ++ lost :: back) :
    Lost (received (front ++ back) (parityOf g group rtpTimestamp)) group (parityOf g group rtpTimestamp)
      front lost back := by
  have distinct := distinct_sequences group
  have small : group.packets.length ≤ 16 := group.small
  rw [members] at distinct small
  rw [List.map_append, List.map_cons, List.nodup_middle, List.nodup_cons, ← List.map_append] at distinct
  rw [List.length_append, List.length_cons] at small
  have state : received (front ++ back) (parityOf g group rtpTimestamp) =
      { media := (front ++ back).map fun packet => (packet.sequence, packet.bytes)
        fec := [blockOf group], mediaSsrc := group.ssrc } := by
    have room : (front ++ back).length ≤ kMaxMediaPackets := by
      rw [List.length_append]
      unfold kMaxMediaPackets kMaxFecGroupSize
      omega
    unfold received addFecPacket
    rw [media_fold _ distinct.2 room, fecBlockOf_parityOf start idle sized]
    rfl
  rw [state]
  exact {
    members := members
    missing := lookup_map_none distinct.1
    held := fun packet member => lookup_map_bytes distinct.2 member
    parity := ⟨[], blockOf group, [], rfl, fecBlockOf_parityOf start idle sized _, fun _ none => nomatch none⟩ }

def packetAt (sequence : BitVec 16) (timestamp : BitVec 32) (marker : Bool) (payload : List Byte) : MediaPacket :=
  { sequence, timestamp, ssrc := 7, marker, payload }

/-- A frame of two packets and a frame of one, across the wrap. -/
def twoFrames : Group where
  base := 65534
  ssrc := 7
  packets := [packetAt 65534 10 false [1, 2, 3], packetAt 65535 10 true [4], packetAt 0 20 true [5, 6]]
  nonempty := by simp
  small := by decide
  numbered := by
    intro i packet member
    rcases i with _ | _ | _ | i <;> simp at member <;> subst member <;> rfl
  oneSsrc := by decide
  marked := by
    intro front packet back split more
    rcases front with _ | ⟨_, _ | ⟨_, _ | ⟨_, front⟩⟩⟩ <;> simp at split
    · obtain ⟨rfl, rfl⟩ := split
      decide
    · obtain ⟨-, rfl, rfl⟩ := split
      decide
    · exact absurd split.2.2.2.symm (by simpa using more)

theorem recover_exact_twoFrames :
    ((received twoFrames.packets.tail (parityOf (make 3) twoFrames 0)).recover 65534).1 =
      some (packetAt 65534 10 false [1, 2, 3]).bytes := by
  have loss : Lost (received twoFrames.packets.tail (parityOf (make 3) twoFrames 0)) twoFrames
      (parityOf (make 3) twoFrames 0) [] (packetAt 65534 10 false [1, 2, 3]) twoFrames.packets.tail :=
    lost_received rfl rfl rfl 0 [] _ _ rfl
  have next := mem_of_lookup (loss.held (packetAt 65535 10 true [4]) (by decide))
  apply (recover_exact_iff (make 3) rfl rfl twoFrames rfl 0 _ _ _ _ loss).mpr
  refine ⟨by decide +kernel, by decide, .inr (.inl ⟨rfl, ?_⟩)⟩
  exact ⟨65535, _, _, next, parseRtp_bytes _, rfl, by decide⟩

/-- Three frames of one packet each. -/
def loneFrames : Group where
  base := 65534
  ssrc := 7
  packets := [packetAt 65534 10 true [1], packetAt 65535 20 true [2], packetAt 0 30 true [3]]
  nonempty := by simp
  small := by decide
  numbered := by
    intro i packet member
    rcases i with _ | _ | _ | i <;> simp at member <;> subst member <;> rfl
  oneSsrc := by decide
  marked := by
    intro front packet back split more
    rcases front with _ | ⟨_, _ | ⟨_, _ | ⟨_, front⟩⟩⟩ <;> simp at split
    · obtain ⟨rfl, rfl⟩ := split
      decide
    · obtain ⟨-, rfl, rfl⟩ := split
      decide
    · exact absurd split.2.2.2.symm (by simpa using more)

/-- No other packet tells that the middle frame ended: it comes back without
its marker. -/
theorem recover_loses_marker :
    Lost (received [packetAt 65534 10 true [1], packetAt 0 30 true [3]] (parityOf (make 3) loneFrames 0)) loneFrames
        (parityOf (make 3) loneFrames 0) [packetAt 65534 10 true [1]] (packetAt 65535 20 true [2]) [packetAt 0 30 true [3]] ∧
      ((received [packetAt 65534 10 true [1], packetAt 0 30 true [3]] (parityOf (make 3) loneFrames 0)).recover 65535).1 =
        some (packetAt 65535 20 false [2]).bytes ∧
      (packetAt 65535 20 false [2]).bytes ≠ (packetAt 65535 20 true [2]).bytes :=
  ⟨lost_received rfl rfl rfl 0 [packetAt 65534 10 true [1]] _ _ rfl, by decide +kernel, by decide +kernel⟩

end Mello.Transport.UlpfecRepair
