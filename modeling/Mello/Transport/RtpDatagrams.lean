import Mello.Transport.RtpH264Receiver
import Mello.Transport.TwccRoundTrip

/-!
What the receiver's parser accepts: the datagrams laid out as an RTP header with
its sources, one extension, a payload and padding, and nothing else. It reads
back the fields they were laid out from.
-/

namespace Mello.Transport.RtpDatagrams
open Twcc TwccChunks TwccRoundTrip H264Packetization RtpH264Receiver

/-- A datagram, part by part. -/
structure Datagram where
  first : Byte
  second : Byte
  sequence : BitVec 16
  timestamp : BitVec 32
  ssrc : BitVec 32
  sources : List Byte
  extension : List Byte
  payload : List Byte
  padding : List Byte

namespace Datagram

def head (d : Datagram) : List Byte :=
  d.first :: d.second :: (u16Bytes d.sequence ++ (u32Bytes d.timestamp ++ u32Bytes d.ssrc))

def bytes (d : Datagram) : List Byte := d.head ++ (d.sources ++ (d.extension ++ (d.payload ++ d.padding)))

/-- An extension is four bytes and as many words as the last two of them say. -/
def IsExtension (extension : List Byte) : Prop :=
  ∃ profile words body, extension = u16Bytes profile ++ (u16Bytes words ++ body) ∧ body.length = words.toNat * 4

/-- The lengths are what the flags and counts say. -/
structure Valid (d : Datagram) : Prop where
  version : d.first >>> 6 = 2
  sources : d.sources.length = (d.first &&& 0x0f).toNat * 4
  extension : if d.first &&& 0x10 = 0 then d.extension = [] else IsExtension d.extension
  padding : if d.first &&& 0x20 = 0 then d.padding = []
    else d.padding ≠ [] ∧ (d.padding.getLastD 0).toNat = d.padding.length

def parsed (d : Datagram) : ParsedRtpPacket where
  payloadType := d.second &&& 0x7f
  marker := d.second &&& 0x80 ≠ 0
  sequence := d.sequence
  timestamp := d.timestamp
  ssrc := d.ssrc
  payload := d.payload

end Datagram

theorem u32Bytes_append (a b c d : Byte) : u32Bytes (a ++ b ++ c ++ d) = [a, b, c, d] := by
  unfold u32Bytes
  rw [BitVec.extractLsb'_append_eq_of_le (by decide), BitVec.extractLsb'_append_eq_of_le (by decide),
    BitVec.extractLsb'_append_eq_of_le (by decide), BitVec.extractLsb'_append_eq_of_le (by decide),
    BitVec.extractLsb'_append_eq_of_le (by decide), BitVec.extractLsb'_append_eq_right,
    BitVec.extractLsb'_append_eq_of_le (by decide), BitVec.extractLsb'_append_eq_right, BitVec.extractLsb'_append_eq_right]
  exact congrArg (· :: [b, c, d]) BitVec.extractLsb'_eq_self

/-! ## Where the header ends -/

section Header

variable {data : List Byte} {first : Byte} {start stop : ℕ}

/-- The header ends behind the sources and the extension. -/
theorem headerSize_parts {head rest : List Byte} (twelve : head.length = 12) (ended : headerSize (head ++ rest) first = some start) :
    ∃ sources extension later, rest = sources ++ (extension ++ later) ∧ sources.length = (first &&& 0x0f).toNat * 4 ∧
      (if first &&& 0x10 = 0 then extension = [] else Datagram.IsExtension extension) ∧
      start = 12 + (sources.length + extension.length) := by
  unfold headerSize at ended
  dsimp only at ended
  generalize (first &&& 0x0f).toNat * 4 = count at ended ⊢
  rw [List.length_append, twelve] at ended
  split_ifs at ended with short plain
  · obtain rfl := Option.some.inj ended
    refine ⟨rest.take count, [], rest.drop count, ?_, ?_, ?_, ?_⟩
    · exact (List.take_append_drop count rest).symm
    · exact List.length_take_of_le (by omega)
    · rw [if_pos plain]
    · rw [List.length_take_of_le (by omega)]
      rfl
  · have behind : (head ++ rest).drop (12 + count) = rest.drop count := by
      rw [List.drop_append, twelve, List.drop_eq_nil_of_le (by omega)]
      simp
    rw [behind] at ended
    split at ended
    · rename_i p1 p0 high low body shape
      split_ifs at ended with large
      obtain rfl := Option.some.inj ended
      have room : (high ++ low).toNat * 4 ≤ body.length := by omega
      refine ⟨rest.take count, p1 :: p0 :: high :: low :: body.take ((high ++ low).toNat * 4),
        body.drop ((high ++ low).toNat * 4), ?_, ?_, ?_, ?_⟩
      · rw [List.cons_append, List.cons_append, List.cons_append, List.cons_append, List.take_append_drop, ← shape]
        exact (List.take_append_drop count rest).symm
      · exact List.length_take_of_le (by omega)
      · rw [if_neg plain]
        refine ⟨p1 ++ p0, high ++ low, body.take ((high ++ low).toNat * 4), ?_, List.length_take_of_le room⟩
        rw [u16Bytes_append, u16Bytes_append]
        rfl
      · rw [List.length_take_of_le (by omega)]
        simp only [List.length_cons, List.length_take_of_le room]
        omega
    · cases ended

theorem headerSize_of_parts {head sources extension later : List Byte} (twelve : head.length = 12)
    (count : sources.length = (first &&& 0x0f).toNat * 4)
    (extended : if first &&& 0x10 = 0 then extension = [] else Datagram.IsExtension extension) :
    headerSize (head ++ (sources ++ (extension ++ later))) first = some (12 + (sources.length + extension.length)) := by
  unfold headerSize
  dsimp only
  rw [← count, List.length_append, List.length_append, twelve, if_neg (by omega)]
  split_ifs at extended ⊢ with plain
  · rw [extended]
    rfl
  · obtain ⟨profile, words, body, rfl, long⟩ := extended
    have behind : (head ++ (sources ++ (u16Bytes profile ++ (u16Bytes words ++ body) ++ later))).drop (12 + sources.length) =
        u16Bytes profile ++ (u16Bytes words ++ (body ++ later)) := by
      rw [← twelve, List.drop_append, List.drop_eq_nil_of_le (by omega), List.nil_append, Nat.add_sub_cancel_left,
        List.drop_left, List.append_assoc, List.append_assoc]
    rw [behind]
    unfold u16Bytes
    simp only [List.cons_append, List.nil_append, extract_append_16, List.length_append, List.length_cons]
    rw [if_neg (by omega), long]
    congr 1
    omega

/-- The payload ends before the padding. -/
theorem payloadEnd_parts {front behind : List Byte} (long : front.length = start)
    (ended : payloadEnd (front ++ behind) first start = some stop) :
    ∃ payload padding, behind = payload ++ padding ∧
      (if first &&& 0x20 = 0 then padding = []
        else padding ≠ [] ∧ (padding.getLastD 0).toNat = padding.length) ∧ stop = front.length + payload.length := by
  unfold payloadEnd at ended
  dsimp only at ended
  split_ifs at ended with plain bad
  · obtain rfl := Option.some.inj ended
    exact ⟨behind, [], (List.append_nil _).symm, by rw [if_pos plain], List.length_append⟩
  · obtain rfl := Option.some.inj ended
    rw [not_or] at bad
    generalize last_eq : ((front ++ behind).getLastD 0).toNat = count at bad ⊢
    rw [List.length_append, long, Nat.add_sub_cancel_left] at bad
    obtain ⟨positive, fits⟩ := bad
    have some : behind.drop (behind.length - count) ≠ [] := by
      apply List.ne_nil_of_length_pos
      rw [List.length_drop]
      omega
    refine ⟨behind.take (behind.length - count), behind.drop (behind.length - count),
      (List.take_append_drop _ _).symm, ?_, ?_⟩
    · rw [if_neg plain]
      refine ⟨some, ?_⟩
      have same : (behind.drop (behind.length - count)).getLastD 0 = (front ++ behind).getLastD 0 := by
        conv_rhs => rw [← List.take_append_drop (behind.length - count) behind, ← List.append_assoc]
        rw [List.getLastD_eq_getLast?, List.getLastD_eq_getLast?, List.getLast?_append_of_ne_nil _ some]
      rw [same, last_eq, List.length_drop]
      omega
    · rw [List.length_append, List.length_take]
      omega

theorem payloadEnd_of_parts {front payload padding : List Byte}
    (padded : if first &&& 0x20 = 0 then padding = []
      else padding ≠ [] ∧ (padding.getLastD 0).toNat = padding.length) :
    payloadEnd (front ++ (payload ++ padding)) first front.length = some (front.length + payload.length) := by
  unfold payloadEnd
  dsimp only
  split_ifs at padded ⊢ with plain bad
  · rw [padded, List.append_nil, List.length_append]
  · obtain ⟨some, last⟩ := padded
    have same : (front ++ (payload ++ padding)).getLastD 0 = padding.getLastD 0 := by
      rw [← List.append_assoc, List.getLastD_eq_getLast?, List.getLastD_eq_getLast?, List.getLast?_append_of_ne_nil _ some]
    have positive := List.length_pos_of_ne_nil some
    rw [same, last, List.length_append, List.length_append] at bad
    omega
  · obtain ⟨some, last⟩ := padded
    have same : (front ++ (payload ++ padding)).getLastD 0 = padding.getLastD 0 := by
      rw [← List.append_assoc, List.getLastD_eq_getLast?, List.getLastD_eq_getLast?, List.getLast?_append_of_ne_nil _ some]
    rw [same, last, List.length_append, List.length_append]
    congr 1
    omega

end Header

/-! ## The parser -/

theorem parseRtpPacket_bytes {d : Datagram} (valid : d.Valid) : parseRtpPacket d.bytes =
    if d.payload ≠ [] then .media d.parsed else if d.first &&& 0x20 ≠ 0 then .padding d.parsed else .invalid := by
  have twelve : d.head.length = 12 := rfl
  have start : headerSize d.bytes d.first = some (12 + (d.sources.length + d.extension.length)) :=
    headerSize_of_parts twelve valid.sources valid.extension
  have front : d.bytes = (d.head ++ (d.sources ++ d.extension)) ++ (d.payload ++ d.padding) := by
    unfold Datagram.bytes
    simp only [List.append_assoc]
  have long : (d.head ++ (d.sources ++ d.extension)).length = 12 + (d.sources.length + d.extension.length) := by
    rw [List.length_append, List.length_append, twelve]
  have stop : payloadEnd d.bytes d.first (12 + (d.sources.length + d.extension.length)) =
      some (12 + (d.sources.length + d.extension.length) + d.payload.length) := by
    rw [front, ← long]
    exact payloadEnd_of_parts valid.padding
  have inside : (d.bytes.take (12 + (d.sources.length + d.extension.length) + d.payload.length)).drop
      (12 + (d.sources.length + d.extension.length)) = d.payload := by
    rw [front, ← long]
    generalize d.head ++ (d.sources ++ d.extension) = lead
    rw [← List.length_append, ← List.append_assoc, List.take_left, List.drop_left]
  have shape : d.bytes = d.first :: d.second :: d.sequence.extractLsb' 8 8 :: d.sequence.extractLsb' 0 8 ::
      d.timestamp.extractLsb' 24 8 :: d.timestamp.extractLsb' 16 8 :: d.timestamp.extractLsb' 8 8 ::
      d.timestamp.extractLsb' 0 8 :: d.ssrc.extractLsb' 24 8 :: d.ssrc.extractLsb' 16 8 :: d.ssrc.extractLsb' 8 8 ::
      d.ssrc.extractLsb' 0 8 :: (d.sources ++ (d.extension ++ (d.payload ++ d.padding))) := rfl
  unfold parseRtpPacket
  split
  · rename_i first second s1 s0 t3 t2 t1 t0 c3 c2 c1 c0 rest same
    rw [shape] at same
    simp only [List.cons.injEq] at same
    obtain ⟨rfl, rfl, rfl, rfl, rfl, rfl, rfl, rfl, rfl, rfl, rfl, rfl, -⟩ := same
    rw [if_neg (by simp [valid.version]), start]
    dsimp only
    rw [stop]
    dsimp only
    rw [inside, extract_append_16, extract_append_32, extract_append_32]
    rfl
  · rename_i other
    exact absurd shape (other _ _ _ _ _ _ _ _ _ _ _ _ _)

theorem exists_of_accepted {data : List Byte} (accepted : parseRtpPacket data ≠ .invalid) :
    ∃ d : Datagram, d.Valid ∧ d.bytes = data := by
  unfold parseRtpPacket at accepted
  split at accepted
  · rename_i first second s1 s0 t3 t2 t1 t0 c3 c2 c1 c0 rest
    by_cases other : first >>> 6 = 2
    · rw [if_neg (not_not.mpr other)] at accepted
      cases start : headerSize (first :: second :: s1 :: s0 :: t3 :: t2 :: t1 :: t0 :: c3 :: c2 :: c1 :: c0 :: rest) first with
      | none => simp [start] at accepted
      | some size =>
        obtain ⟨sources, extension, later, rfl, count, extended, rfl⟩ :=
          headerSize_parts (rfl : [first, second, s1, s0, t3, t2, t1, t0, c3, c2, c1, c0].length = 12) start
        rw [start] at accepted
        dsimp only at accepted
        generalize lead_eq : [first, second, s1, s0, t3, t2, t1, t0, c3, c2, c1, c0] ++ (sources ++ extension) = lead
        have long : lead.length = 12 + (sources.length + extension.length) := by
          rw [← lead_eq, List.length_append, List.length_append]
          rfl
        have shape : first :: second :: s1 :: s0 :: t3 :: t2 :: t1 :: t0 :: c3 :: c2 :: c1 :: c0 ::
            (sources ++ (extension ++ later)) = lead ++ later := by
          rw [← lead_eq]
          simp
        cases stop : payloadEnd (lead ++ later) first (12 + (sources.length + extension.length)) with
        | none =>
          rw [shape, stop] at accepted
          exact absurd rfl accepted
        | some size =>
          obtain ⟨payload, padding, rfl, padded, -⟩ := payloadEnd_parts long stop
          refine ⟨{
            first := first
            second := second
            sequence := s1 ++ s0
            timestamp := t3 ++ t2 ++ t1 ++ t0
            ssrc := c3 ++ c2 ++ c1 ++ c0
            sources := sources
            extension := extension
            payload := payload
            padding := padding }, ⟨other, count, extended, padded⟩, ?_⟩
          unfold Datagram.bytes Datagram.head
          dsimp only
          rw [u16Bytes_append, u32Bytes_append, u32Bytes_append]
          rfl
    · rw [if_pos other] at accepted
      exact absurd rfl accepted
  · exact absurd rfl accepted

/-- The parser accepts the datagrams that are laid out well, with the fields
they were laid out from. -/
theorem parseRtpPacket_iff (data : List Byte) (packet : ParsedRtpPacket) :
    (parseRtpPacket data = .media packet ↔
      ∃ d : Datagram, d.Valid ∧ d.payload ≠ [] ∧ d.bytes = data ∧ d.parsed = packet) ∧
    (parseRtpPacket data = .padding packet ↔
      ∃ d : Datagram, d.Valid ∧ d.payload = [] ∧ d.padding ≠ [] ∧ d.bytes = data ∧ d.parsed = packet) := by
  constructor
  · constructor
    · intro media
      obtain ⟨d, valid, rfl⟩ := exists_of_accepted (show parseRtpPacket data ≠ .invalid by simp [media])
      rw [parseRtpPacket_bytes valid] at media
      split_ifs at media with some
      exact ⟨d, valid, some, rfl, ParseResult.media.inj media⟩
    · rintro ⟨d, valid, some, rfl, rfl⟩
      rw [parseRtpPacket_bytes valid, if_pos some]
  · constructor
    · intro padding
      obtain ⟨d, valid, rfl⟩ := exists_of_accepted (show parseRtpPacket data ≠ .invalid by simp [padding])
      rw [parseRtpPacket_bytes valid] at padding
      split_ifs at padding with some flag
      have padded := valid.padding
      rw [if_neg flag] at padded
      exact ⟨d, valid, not_not.mp some, padded.1, rfl, ParseResult.padding.inj padding⟩
    · rintro ⟨d, valid, none, some, rfl, rfl⟩
      have flag : d.first &&& 0x20 ≠ 0 := by
        intro plain
        have padded := valid.padding
        rw [if_pos plain] at padded
        exact some padded
      rw [parseRtpPacket_bytes valid, if_neg (by simp [none]), if_pos flag]

end Mello.Transport.RtpDatagrams
