import Mello.Transport.TwccRoundTrip
import Mello.Transport.Ulpfec

/-!
A protected group: the media packets as the sender builds them, and the block
that the receiver reads off the parity packet of the group.
-/

namespace Mello.Transport.UlpfecGroup
open Mello.Library Parity Twcc TwccChunks TwccReport TwccRoundTrip Ulpfec UlpfecGenerator UlpfecRecovery

structure MediaPacket where
  sequence : BitVec 16
  timestamp : BitVec 32
  ssrc : BitVec 32
  marker : Bool
  payload : List Byte
  deriving DecidableEq, Repr

namespace MediaPacket

def bytes (packet : MediaPacket) : List Byte :=
  rtpHeader packet.marker kMediaPayloadType packet.sequence packet.timestamp packet.ssrc ++ packet.payload

def parsed (packet : MediaPacket) : ParsedRtp where
  sequence := packet.sequence
  timestamp := packet.timestamp
  payloadType := kMediaPayloadType
  marker := packet.marker
  payload := packet.payload

end MediaPacket

/-- One group in order: consecutive sequences, one SSRC, and the marker on the
last packet of each timestamp. The last packet may stop inside its frame. -/
structure Group where
  base : BitVec 16
  ssrc : BitVec 32
  packets : List MediaPacket
  nonempty : packets ≠ []
  small : packets.length ≤ kMaxFecGroupSize
  numbered : ∀ i packet, packets[i]? = some packet → packet.sequence = base + BitVec.ofNat 16 i
  oneSsrc : ∀ packet ∈ packets, packet.ssrc = ssrc
  marked : ∀ front packet back, packets = front ++ packet :: back → back ≠ [] →
    (packet.marker = true ↔ ∀ later ∈ back, later.timestamp ≠ packet.timestamp)

/-! ## Headers -/

theorem markerByte_fields (marker : Bool) {payloadType : Byte} (low : payloadType < 0x80) :
    (markerByte marker payloadType &&& 0x7f = payloadType) ∧
      (markerByte marker payloadType &&& 0x80 ≠ 0 ↔ marker = true) := by
  revert payloadType
  cases marker <;> decide +kernel

theorem rtpHeader_length (marker : Bool) (payloadType : Byte) (sequence : BitVec 16) (timestamp ssrc : BitVec 32) :
    (rtpHeader marker payloadType sequence timestamp ssrc).length = 12 := rfl

/-- A header and any payload are a packet, whatever the payload type. -/
theorem parseRtp_header (marker : Bool) (payloadType : Byte) (sequence : BitVec 16) (timestamp ssrc : BitVec 32)
    (rest : List Byte) :
    parseRtp (rtpHeader marker payloadType sequence timestamp ssrc ++ rest) =
      .ok {
        sequence, timestamp, payloadType := markerByte marker payloadType &&& 0x7f
        marker := markerByte marker payloadType &&& 0x80 ≠ 0, payload := rest } := by
  have long : ¬(rtpHeader marker payloadType sequence timestamp ssrc ++ rest).length < 12 := by
    rw [List.length_append, rtpHeader_length]
    omega
  unfold parseRtp
  rw [if_neg long]
  simp only [pure_bind, byteAt, readU16, readU32, rtpHeader, u16Bytes, u32Bytes, List.cons_append, List.nil_append,
    List.getElem?_cons_zero, List.getElem?_cons_succ, ok_bind, extract_append_16, extract_append_32]
  rw [if_neg (by decide), if_neg (by simp), if_neg (by decide)]
  rw [if_neg (by simp)]
  rfl

theorem parseRtp_rtpHeader (marker : Bool) {payloadType : Byte} (low : payloadType < 0x80)
    (sequence : BitVec 16) (timestamp ssrc : BitVec 32) (rest : List Byte) :
    parseRtp (rtpHeader marker payloadType sequence timestamp ssrc ++ rest) =
      .ok { sequence, timestamp, payloadType, marker, payload := rest } := by
  obtain ⟨type, top⟩ := markerByte_fields marker low
  have flag : decide (markerByte marker payloadType &&& 0x80 ≠ 0) = marker := by
    rw [Bool.eq_iff_iff, decide_eq_true_iff, top]
  rw [parseRtp_header, type, flag]

/-! ## The generator over a group -/

/-- The mask of the first `n` members. -/
def maskOf : Nat → BitVec 16
  | 0 => 0
  | n + 1 => maskOf n ||| maskBit n

theorem maskOf_and_maskBit {n i : Nat} (small : n ≤ 16) (index : i < 16) :
    maskOf n &&& maskBit i ≠ 0 ↔ i < n := by
  have all : ∀ n : Fin 17, ∀ i : Fin 16, maskOf n.val &&& maskBit i.val ≠ 0 ↔ i.val < n.val := by decide +kernel
  exact all ⟨n, by omega⟩ ⟨i, index⟩

/-- The parity over the packets gathered so far. -/
structure Sums (base : BitVec 16) (done : List MediaPacket) (g : UlpfecGenerator) : Prop where
  snBase : g.snBase = base
  mask : g.mask = maskOf done.length
  tsRecovery : g.tsRecovery = done.foldl (fun sum packet => sum ^^^ packet.timestamp) 0
  lengthRecovery :
    g.lengthRecovery = done.foldl (fun sum packet => sum ^^^ BitVec.ofNat 16 packet.payload.length) 0
  parity : g.parity = gather MediaPacket.payload done []
  contiguous : g.contiguous = true

/-- Between two packets of a group: the sums, and where the last packet was. -/
structure Gathering (base : BitVec 16) (done : List MediaPacket) (g : UlpfecGenerator) : Prop where
  sums : done ≠ [] → Sums base done g
  lastSeq : done ≠ [] → g.lastSeq + 1 = base + BitVec.ofNat 16 done.length
  lastMarker : done ≠ [] → done.getLast?.map MediaPacket.marker = some g.lastMarker
  count : g.count = done.length
  idle : g.ready = false

theorem sums_begin {base : BitVec 16} {done : List MediaPacket} {g : UlpfecGenerator}
    (gathering : Gathering base done g) {sequence : BitVec 16}
    (next : sequence = base + BitVec.ofNat 16 done.length) :
    Sums base done (g.begin sequence) ∧ (g.begin sequence).count = g.count ∧
      (g.begin sequence).groupSize = g.groupSize ∧ (g.begin sequence).ready = g.ready := by
  unfold UlpfecGenerator.begin
  by_cases first : done = []
  · rw [if_pos (by rw [gathering.count, first]; rfl)]
    have same : sequence = base := by
      rw [next, first]
      exact BitVec.add_zero base
    rw [first, same]
    exact ⟨⟨rfl, rfl, rfl, rfl, rfl, rfl⟩, rfl, rfl, rfl⟩
  · have later : g.count ≠ 0 := by
      rw [gathering.count]
      exact mt List.length_eq_zero_iff.mp first
    rw [if_neg later, if_neg (not_not.mpr (next.trans (gathering.lastSeq first).symm))]
    exact ⟨gathering.sums first, rfl, rfl, rfl⟩

/-- One packet more: its bit and its words join the sums. -/
def joined (g : UlpfecGenerator) (n : Nat) (packet : MediaPacket) : UlpfecGenerator :=
  { g with
    mask := g.mask ||| maskBit n
    tsRecovery := g.tsRecovery ^^^ packet.timestamp
    lengthRecovery := g.lengthRecovery ^^^ BitVec.ofNat 16 packet.payload.length
    parity := xorInto g.parity packet.payload
    lastSeq := packet.sequence
    lastMarker := packet.marker
    count := g.count + 1 }

theorem sums_joined {base : BitVec 16} {done : List MediaPacket} {g : UlpfecGenerator}
    (sums : Sums base done g) (packet : MediaPacket) :
    Sums base (done ++ [packet]) (joined g done.length packet) where
  snBase := sums.snBase
  mask := by
    rw [List.length_append]
    change g.mask ||| _ = maskOf done.length ||| _
    rw [sums.mask]
  tsRecovery := by
    rw [List.foldl_append, ← sums.tsRecovery]
    rfl
  lengthRecovery := by
    rw [List.foldl_append, ← sums.lengthRecovery]
    rfl
  parity := by
    unfold gather
    rw [List.foldl_append]
    change xorInto g.parity packet.payload = xorInto (gather MediaPacket.payload done []) packet.payload
    rw [sums.parity]
  contiguous := sums.contiguous

theorem addPacket_bytes {base : BitVec 16} {done : List MediaPacket} {g : UlpfecGenerator}
    (gathering : Gathering base done g) {packet : MediaPacket} (room : done.length < 16)
    (next : packet.sequence = base + BitVec.ofNat 16 done.length) :
    g.addPacket packet.bytes =
      if g.groupSize ≤ done.length + 1 then
        { joined (g.begin packet.sequence) done.length packet with ready := true, count := 0 }
      else joined (g.begin packet.sequence) done.length packet := by
  obtain ⟨sums, count, size, -⟩ := sums_begin gathering next
  have index : (packet.sequence - (g.begin packet.sequence).snBase).toNat = done.length := by
    rw [sums.snBase, next]
    exact offset_sequenceAt (by omega)
  unfold addPacket MediaPacket.bytes
  rw [parseRtp_rtpHeader packet.marker (by decide)]
  change (if g.ready = true then g else g.gatherPacket packet.parsed) = _
  rw [if_neg (by rw [gathering.idle]; simp)]
  unfold gatherPacket
  change (if _ then _ else _) = _
  simp only [MediaPacket.parsed, index, room, if_true, count, size, gathering.count, joined]

theorem gathering_addPacket {base : BitVec 16} {done : List MediaPacket} {g : UlpfecGenerator}
    (gathering : Gathering base done g) {packet : MediaPacket} (room : done.length < 16)
    (open' : done.length + 1 < g.groupSize) (next : packet.sequence = base + BitVec.ofNat 16 done.length) :
    Gathering base (done ++ [packet]) (g.addPacket packet.bytes) ∧
      (g.addPacket packet.bytes).groupSize = g.groupSize := by
  obtain ⟨sums, count, size, ready⟩ := sums_begin gathering next
  rw [addPacket_bytes gathering room next, if_neg (by omega)]
  refine ⟨⟨fun _ => sums_joined sums packet, ?_, ?_, ?_, ready.trans gathering.idle⟩, size⟩
  · intro _
    rw [List.length_append, List.length_singleton, BitVec.ofNat_add, ← BitVec.add_assoc, ← next]
    rfl
  · intro _
    rw [List.getLast?_concat]
    rfl
  · change (g.begin packet.sequence).count + 1 = _
    rw [count, gathering.count, List.length_append, List.length_singleton]

/-- A group that is complete: what the parity packet is built from. -/
structure Complete (base : BitVec 16) (packets : List MediaPacket) (g : UlpfecGenerator) : Prop where
  sums : Sums base packets g
  lastMarker : packets.getLast?.map MediaPacket.marker = some g.lastMarker
  ready : g.ready = true

theorem complete_addPacket {base : BitVec 16} {done : List MediaPacket} {g : UlpfecGenerator}
    (gathering : Gathering base done g) {packet : MediaPacket} (room : done.length < 16)
    (last : g.groupSize ≤ done.length + 1) (next : packet.sequence = base + BitVec.ofNat 16 done.length) :
    Complete base (done ++ [packet]) (g.addPacket packet.bytes) := by
  obtain ⟨sums, -, -, -⟩ := sums_begin gathering next
  have all := sums_joined sums packet
  rw [addPacket_bytes gathering room next, if_pos last]
  refine ⟨⟨all.snBase, all.mask, all.tsRecovery, all.lengthRecovery, all.parity, all.contiguous⟩, ?_, rfl⟩
  rw [List.getLast?_concat]
  rfl

/-- The rest of a group, from any packet of it on. -/
theorem complete_fold {base : BitVec 16} (rest : List MediaPacket) {done : List MediaPacket} {g : UlpfecGenerator}
    (gathering : Gathering base done g) (remaining : rest ≠ [])
    (sized : max 1 g.groupSize = done.length + rest.length) (small : done.length + rest.length ≤ 16)
    (numbered : ∀ i packet, (done ++ rest)[i]? = some packet → packet.sequence = base + BitVec.ofNat 16 i) :
    Complete base (done ++ rest) (rest.foldl (fun g packet => g.addPacket packet.bytes) g) := by
  induction rest generalizing done g with
  | nil => exact absurd rfl remaining
  | cons packet rest ih =>
    rw [List.length_cons] at sized small
    have next : packet.sequence = base + BitVec.ofNat 16 done.length := by
      apply numbered
      rw [List.getElem?_append_right le_rfl, Nat.sub_self]
      rfl
    rw [List.foldl_cons, List.append_cons]
    by_cases last : rest = []
    · rw [last]
      rw [last, List.length_nil] at sized
      rw [List.append_nil]
      exact complete_addPacket gathering (by omega) (by omega) next
    · have more : 0 < rest.length := List.length_pos_iff.mpr last
      obtain ⟨grown, size⟩ := gathering_addPacket gathering (by omega) (by omega) next
      apply ih grown last
      · rw [size, sized, List.length_append, List.length_singleton]
        omega
      · rw [List.length_append, List.length_singleton]
        omega
      · rwa [← List.append_cons]

/-! ## The block of the parity packet -/

/-- The block of a group. The marker is that of its last packet. -/
def blockOf (group : Group) : FecBlock where
  snBase := group.base
  mask := maskOf group.packets.length
  tsRecovery := group.packets.foldl (fun sum packet => sum ^^^ packet.timestamp) 0
  lengthRecovery := group.packets.foldl (fun sum packet => sum ^^^ BitVec.ofNat 16 packet.payload.length) 0
  ptRecovery := kMediaPayloadType
  marker := (group.packets.getLast group.nonempty).marker
  recoveryPayload := gather MediaPacket.payload group.packets []

/-- The receiver reads back each field of the two headers. -/
theorem fecBlockOf_bytes (last marker : Bool) (sequence snBase lengthRecovery mask : BitVec 16)
    (timestamp ssrc tsRecovery : BitVec 32) (recoveryPayload : List Byte) :
    fecBlockOf (rtpHeader last kUlpfecPayloadType sequence timestamp ssrc ++
        (0 :: markerByte marker kMediaPayloadType :: (u16Bytes snBase ++ (u32Bytes tsRecovery ++
          (u16Bytes lengthRecovery ++ (u16Bytes mask ++ recoveryPayload)))))) =
      .ok (ssrc - 1, { snBase, mask, tsRecovery, lengthRecovery, ptRecovery := kMediaPayloadType, marker, recoveryPayload }) := by
  obtain ⟨type, top⟩ := markerByte_fields marker (show kMediaPayloadType < 0x80 by decide)
  have flag : decide (markerByte marker kMediaPayloadType &&& 0x80 ≠ 0) = marker := by
    rw [Bool.eq_iff_iff, decide_eq_true_iff, top]
  unfold fecBlockOf
  rw [if_neg (by simp [rtpHeader, u16Bytes, u32Bytes]), parseRtp_rtpHeader last (by decide)]
  simp only [ok_bind]
  rw [if_neg (by simp [u16Bytes, u32Bytes])]
  simp only [pure_bind, byteAt, readU16, readU32, rtpHeader, u16Bytes, u32Bytes, List.cons_append, List.nil_append,
    List.getElem?_cons_zero, List.getElem?_cons_succ, ok_bind, extract_append_16, extract_append_32, type, flag]
  rfl

theorem fecBlockOf_buildPacket {group : Group} {g : UlpfecGenerator}
    (complete : Complete group.base group.packets g) (rtpTimestamp : BitVec 32) :
    fecBlockOf (g.buildPacket group.ssrc rtpTimestamp).1 = .ok (group.ssrc, blockOf group) := by
  have marker : g.lastMarker = (group.packets.getLast group.nonempty).marker := by
    have last := complete.lastMarker
    rw [List.getLast?_eq_some_getLast group.nonempty] at last
    exact (Option.some.inj last).symm
  unfold buildPacket
  rw [if_neg (by rw [complete.ready]; simp), if_neg (by rw [complete.sums.contiguous]; simp)]
  rw [complete.sums.snBase, complete.sums.mask, complete.sums.tsRecovery, complete.sums.lengthRecovery,
    complete.sums.parity, marker]
  rw [fecBlockOf_bytes, add_sub_cancel_right]
  rfl

end Mello.Transport.UlpfecGroup
