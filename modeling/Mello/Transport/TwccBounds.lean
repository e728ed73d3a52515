import Mello.Library.Faults
import Mello.Transport.TwccChunks

/-!
The feedback parser on any bytes at all. The packet ends where its header says,
whatever the datagram holds after it: the parser looks at no byte from there on,
and what it accepts fits: as many entries as the status count, in sequence, with
one delta field for each that was received.
-/

namespace Mello.Transport.TwccBounds
open Mello.Library Faults Twcc TwccChunks

/-! ## The fields of the header -/

def fieldAt (data : List Byte) (i : Nat) : BitVec 16 := data.getD i 0 ++ data.getD (i + 1) 0

/-- The length that the header declares, in bytes. -/
def declaredLength (data : List Byte) : Nat := ((fieldAt data 2).toNat + 1) * 4

def baseSequence (data : List Byte) : BitVec 16 := fieldAt data 12

def statusCount (data : List Byte) : Nat := (fieldAt data 14).toNat

def wideFieldAt (data : List Byte) (i : Nat) : BitVec 24 :=
  data.getD i 0 ++ data.getD (i + 1) 0 ++ data.getD (i + 2) 0

def referenceTime (data : List Byte) : BitVec 24 := wideFieldAt data 16

/-! ## What the delta fields say -/

/-- A field of one byte is unsigned, one of two bytes is signed. -/
def deltaUs (field : List Byte) : Int :=
  match field with
  | [small] => small.toNat * kDeltaUnitUs
  | [high, low] => (high ++ low : BitVec 16).toInt * kDeltaUnitUs
  | _ => 0

/-- Entries from a sequence and a clock on. Each received one takes one delta
field, which moves the clock to its arrival. -/
inductive Timed : BitVec 16 → Int → List (List Byte) → List TwccPacketResult → Prop
  | nil {sequence : BitVec 16} {clock : Int} : Timed sequence clock [] []
  | lost {sequence : BitVec 16} {clock : Int} {fields : List (List Byte)}
      {rest : List TwccPacketResult} (later : Timed (sequence + 1) clock fields rest) :
      Timed sequence clock fields ({ sequence } :: rest)
  | arrived {sequence : BitVec 16} {clock : Int} {field : List Byte} {fields : List (List Byte)}
      {rest : List TwccPacketResult} (width : field.length = 1 ∨ field.length = 2)
      (later : Timed (sequence + 1) (clock + deltaUs field) fields rest) :
      Timed sequence clock (field :: fields)
        ({ sequence, received := true, arrivalTimeUs := clock + deltaUs field } :: rest)

namespace Timed

variable {sequence : BitVec 16} {clock : Int} {fields : List (List Byte)}
  {packets : List TwccPacketResult}

theorem fields_length (timed : Timed sequence clock fields packets) :
    fields.length = (packets.filter (·.received)).length := by
  induction timed with
  | nil => rfl
  | lost later ih => exact ih
  | arrived width later ih => exact congrArg Nat.succ ih

theorem sequence_at (timed : Timed sequence clock fields packets) (i : Nat)
    (inside : i < packets.length) : packets[i].sequence = sequence + BitVec.ofNat 16 i := by
  have shift : ∀ (first : BitVec 16) (j : Nat),
      first + 1 + BitVec.ofNat 16 j = first + BitVec.ofNat 16 (j + 1) := by
    intro first j
    rw [Nat.add_comm j 1, BitVec.ofNat_add, BitVec.add_assoc]
    rfl
  induction timed generalizing i with
  | nil => exact absurd inside (Nat.not_lt_zero i)
  | lost later ih =>
    cases i with
    | zero => simp only [List.getElem_cons_zero, BitVec.add_zero]
    | succ j =>
      rw [List.getElem_cons_succ, ih j (Nat.lt_of_succ_lt_succ inside), shift]
  | arrived width later ih =>
    cases i with
    | zero => simp only [List.getElem_cons_zero, BitVec.add_zero]
    | succ j =>
      rw [List.getElem_cons_succ, ih j (Nat.lt_of_succ_lt_succ inside), shift]

end Timed

/-- The feedback that a packet holds: an entry for each status, in sequence from
the base, and one delta field for each received entry, the fields in a row after
the status chunks and inside the packet. -/
structure Held (packet : List Byte) (feedback : TwccFeedback) : Prop where
  count : feedback.packets.length = statusCount packet
  sequences : ∀ (i : Nat) (inside : i < feedback.packets.length),
    feedback.packets[i].sequence = baseSequence packet + BitVec.ofNat 16 i
  consumed : ∃ (chunks : Nat) (fields : List (List Byte)),
    fields.length = (feedback.packets.filter (·.received)).length ∧
      Timed (baseSequence packet) ((referenceTime packet).toNat * kReferenceTimeUnitUs) fields
        feedback.packets ∧
      20 + 2 * chunks + fields.flatten.length ≤ packet.length ∧
      fields.flatten <+: packet.drop (20 + 2 * chunks)

/-! ## Reads inside the packet -/

section
variable {packet rest : List Byte}

theorem byteAt_eq {i : Nat} (inside : i < packet.length) :
    byteAt packet i = .ok (packet.getD i 0) := by
  rw [byteAt, List.getElem?_eq_getElem inside, List.getD_eq_getElem _ _ inside]

theorem byteAt_agree {i : Nat} (inside : i < packet.length) :
    Agree ParseFault.rejected (· = packet.getD i 0) (byteAt packet i) (byteAt (packet ++ rest) i) := by
  have longer : byteAt (packet ++ rest) i = byteAt packet i := by
    rw [byteAt, byteAt, List.getElem?_append_left inside]
  rw [longer, byteAt_eq inside]
  exact .done rfl

theorem readU16_agree {i : Nat} (inside : i + 1 < packet.length) :
    Agree ParseFault.rejected (· = fieldAt packet i) (readU16 packet i) (readU16 (packet ++ rest) i) := by
  apply (byteAt_agree (Nat.lt_of_succ_lt inside)).bind
  rintro _ rfl
  apply (byteAt_agree inside).bind
  rintro _ rfl
  exact Agree.pure rfl

theorem readU24_agree {i : Nat} (inside : i + 2 < packet.length) :
    Agree ParseFault.rejected (· = wideFieldAt packet i) (readU24 packet i)
      (readU24 (packet ++ rest) i) := by
  apply (byteAt_agree (by omega)).bind
  rintro _ rfl
  apply (byteAt_agree (by omega)).bind
  rintro _ rfl
  apply (byteAt_agree inside).bind
  rintro _ rfl
  exact Agree.pure rfl

theorem readU32_agree {i : Nat} (inside : i + 3 < packet.length) :
    Agree ParseFault.rejected (fun _ => True) (readU32 packet i) (readU32 (packet ++ rest) i) := by
  apply (byteAt_agree (by omega)).bind
  rintro _ -
  apply (byteAt_agree (by omega)).bind
  rintro _ -
  apply (byteAt_agree (by omega)).bind
  rintro _ -
  apply (byteAt_agree inside).bind
  rintro _ -
  exact Agree.pure trivial

end

/-! ## The status chunks -/

/-- A chunk gives some of the symbols that are still to come. -/
theorem expandChunk_agree (chunk : BitVec 16) {remaining : Nat} (some : 0 < remaining) :
    Agree ParseFault.rejected (fun symbols => 0 < symbols.length ∧ symbols.length ≤ remaining)
      (expandChunk chunk remaining) (expandChunk chunk remaining) := by
  unfold expandChunk
  dsimp only
  by_cases runLength : chunk &&& 0x8000#16 = 0
  · rw [if_pos runLength]
    split_ifs with bad
    · exact .refused
    · have run : ¬(chunk &&& 0x1fff#16).toNat = 0 := fun none => bad (.inr none)
      apply Agree.done
      rw [List.length_replicate]
      omega
  · rw [if_neg runLength]
    by_cases oneBit : chunk &&& 0x4000#16 = 0
    · rw [if_pos oneBit]
      apply Agree.done
      rw [List.length_map, List.length_range]
      omega
    · rw [if_neg oneBit]
      refine (Agree.mapM (fun i _ => ?_ :
        ∀ i ∈ _, Agree ParseFault.rejected (fun _ : Byte => True) _ _)).imp ?_
      · split_ifs
        · exact .refused
        · exact .done trivial
      · intro symbols found
        rw [found.1, List.length_range]
        omega

theorem readStatusChunks_agree {packet rest : List Byte} {wanted : Nat} :
    ∀ (fuel : Nat) (symbols : List Byte) (chunks : Nat), symbols.length ≤ wanted →
      wanted - symbols.length ≤ fuel → 20 + 2 * chunks ≤ packet.length →
      Agree ParseFault.rejected
        (fun read => read.1.length = wanted ∧
          ∃ chunks', read.2 = 20 + 2 * chunks' ∧ read.2 ≤ packet.length)
        (readStatusChunks packet packet.length wanted fuel symbols (20 + 2 * chunks))
        (readStatusChunks (packet ++ rest) packet.length wanted fuel symbols (20 + 2 * chunks)) := by
  intro fuel
  induction fuel with
  | zero =>
    intro symbols chunks most spent fits
    have full : ¬symbols.length < wanted := by omega
    rw [readStatusChunks, readStatusChunks, if_neg full]
    exact .done ⟨Nat.le_antisymm most (Nat.le_of_not_lt full), chunks, rfl, fits⟩
  | succ fuel ih =>
    intro symbols chunks most spent fits
    rw [readStatusChunks, readStatusChunks]
    by_cases more : symbols.length < wanted
    · rw [if_pos more, if_pos more]
      dsimp only
      apply Agree.guard
      intro room
      apply (readU16_agree (by omega)).bind
      rintro _ rfl
      apply (expandChunk_agree _ (by omega)).bind
      intro expanded some
      have length : (symbols ++ expanded).length = symbols.length + expanded.length :=
        List.length_append
      exact ih (symbols ++ expanded) (chunks + 1) (by omega) (by omega) (by omega)
    · rw [if_neg more, if_neg more]
      exact .done ⟨Nat.le_antisymm most (Nat.le_of_not_lt more), chunks, rfl, fits⟩

/-! ## The deltas -/

theorem prefix_drop_cons {packet field : List Byte} {fields : List (List Byte)} {offset : Nat}
    (here : field <+: packet.drop offset)
    (later : fields.flatten <+: packet.drop (offset + field.length)) :
    (field :: fields).flatten <+: packet.drop offset := by
  obtain ⟨tail, split⟩ := here
  rw [List.flatten_cons, ← split]
  apply (List.prefix_append_right_inj field).mpr
  rwa [← List.drop_drop, ← split, List.drop_left] at later

theorem field_at {packet : List Byte} {offset : Nat} (inside : offset < packet.length) :
    [packet.getD offset 0] <+: packet.drop offset := by
  rw [List.drop_eq_getElem_cons inside, List.getD_eq_getElem _ _ inside]
  exact List.prefix_append [_] _

theorem fields_at {packet : List Byte} {offset : Nat} (inside : offset + 1 < packet.length) :
    [packet.getD offset 0, packet.getD (offset + 1) 0] <+: packet.drop offset := by
  rw [List.drop_eq_getElem_cons (Nat.lt_of_succ_lt inside), List.drop_eq_getElem_cons inside,
    List.getD_eq_getElem _ _ (Nat.lt_of_succ_lt inside), List.getD_eq_getElem _ _ inside]
  exact List.prefix_append [_, _] _

/-- The entries and the fields they took, which stay inside the packet. -/
def Read (packet : List Byte) (symbols : List Byte) (sequence : BitVec 16) (offset : Nat)
    (clock : Int) (packets : List TwccPacketResult) : Prop :=
  packets.length = symbols.length ∧ ∃ fields, Timed sequence clock fields packets ∧
    offset + fields.flatten.length ≤ packet.length ∧ fields.flatten <+: packet.drop offset

theorem Read.arrived {packet field symbols : List Byte} {symbol : Byte} {sequence : BitVec 16}
    {offset : Nat} {clock : Int} {packets : List TwccPacketResult}
    (width : field.length = 1 ∨ field.length = 2) (here : field <+: packet.drop offset)
    (later : Read packet symbols (sequence + 1) (offset + field.length) (clock + deltaUs field)
      packets) :
    Read packet (symbol :: symbols) sequence offset clock
      ({ sequence, received := true, arrivalTimeUs := clock + deltaUs field } :: packets) := by
  obtain ⟨length, fields, timed, fits, found⟩ := later
  refine ⟨congrArg Nat.succ length, field :: fields, .arrived width timed, ?_,
    prefix_drop_cons here found⟩
  rw [List.flatten_cons, List.length_append]
  omega

theorem readDeltas_agree {packet rest : List Byte} (symbols : List Byte) :
    ∀ (sequence : BitVec 16) (offset : Nat) (clock : Int), offset ≤ packet.length →
      Agree ParseFault.rejected (Read packet symbols sequence offset clock)
        (readDeltas packet packet.length symbols sequence offset clock)
        (readDeltas (packet ++ rest) packet.length symbols sequence offset clock) := by
  induction symbols with
  | nil =>
    intro sequence offset clock fits
    exact .done ⟨rfl, [], .nil, fits, List.nil_prefix⟩
  | cons symbol symbols ih =>
    intro sequence offset clock fits
    rw [readDeltas, readDeltas]
    by_cases small : symbol = 1
    · rw [if_pos small, if_pos small]
      apply Agree.guard
      intro room
      apply (byteAt_agree (by omega)).bind
      rintro _ rfl
      apply (ih (sequence + 1) (offset + 1) _ (by omega)).bind
      intro packets read
      exact Agree.pure (Read.arrived (Or.inl rfl) (field_at (by omega)) read)
    · rw [if_neg small, if_neg small]
      by_cases large : symbol = 2
      · rw [if_pos large, if_pos large]
        apply Agree.guard
        intro room
        apply (readU16_agree (by omega)).bind
        rintro _ rfl
        apply (ih (sequence + 1) (offset + 2) _ (by omega)).bind
        intro packets read
        exact Agree.pure (Read.arrived (Or.inr rfl) (fields_at (by omega)) read)
      · rw [if_neg large, if_neg large]
        apply (ih (sequence + 1) offset clock fits).bind
        rintro packets ⟨length, fields, timed, inside, found⟩
        exact Agree.pure ⟨congrArg Nat.succ length, fields, .lost timed, inside, found⟩

/-! ## The whole packet -/

/-- The bytes up to the declared length, or all where the header declares more. -/
def packetOf (data : List Byte) : List Byte := data.take (declaredLength data)

theorem declaredLength_pos (data : List Byte) : 4 ≤ declaredLength data := by
  unfold declaredLength
  omega

theorem fieldAt_packetOf {data : List Byte} {i : Nat} (inside : i + 1 < declaredLength data) :
    fieldAt (packetOf data) i = fieldAt data i := by
  have same : ∀ j < declaredLength data, (packetOf data).getD j 0 = data.getD j 0 := by
    intro j before
    rw [packetOf, List.getD_eq_getElem?_getD, List.getD_eq_getElem?_getD,
      List.getElem?_take_of_lt before]
  rw [fieldAt, fieldAt, same i (Nat.lt_of_succ_lt inside), same (i + 1) inside]

theorem packetOf_length {data : List Byte} (inside : declaredLength data ≤ data.length) :
    (packetOf data).length = declaredLength data := by
  rw [packetOf, List.length_take, Nat.min_eq_left inside]

theorem parse_agree (data : List Byte) (size : Nat) (within : size ≤ data.length) :
    Agree ParseFault.rejected
      (fun feedback => declaredLength data ≤ size ∧ Held (packetOf data) feedback)
      (parseTwccFeedback (packetOf data) size) (parseTwccFeedback data size) := by
  have least := declaredLength_pos data
  have length : (packetOf data).length = min (declaredLength data) data.length := List.length_take
  have words : fieldAt (packetOf data) 2 = fieldAt data 2 := fieldAt_packetOf (by omega)
  -- The datagram is the packet and what follows it.
  suffices whole : Agree ParseFault.rejected
      (fun feedback => declaredLength data ≤ size ∧ Held (packetOf data) feedback)
      (parseTwccFeedback (packetOf data) size)
      (parseTwccFeedback (packetOf data ++ data.drop (declaredLength data)) size) by
    rwa [packetOf, List.take_append_drop] at whole
  unfold parseTwccFeedback
  dsimp only
  apply Agree.guard
  intro header
  apply (byteAt_agree (by omega)).bind
  rintro _ rfl
  apply (byteAt_agree (by omega)).bind
  rintro _ rfl
  apply Agree.guard
  intro _
  apply (readU16_agree (by omega)).bind
  rintro _ rfl
  apply Agree.guard
  intro declared
  rw [words] at declared ⊢
  change ¬(declaredLength data > size ∨ declaredLength data < 20) at declared
  have size_eq : ((fieldAt data 2).toNat + 1) * 4 = (packetOf data).length :=
    (packetOf_length (by omega)).symm
  rw [size_eq]
  apply (readU32_agree (by omega)).bind
  rintro senderSsrc -
  apply (readU32_agree (by omega)).bind
  rintro mediaSsrc -
  apply (readU16_agree (by omega)).bind
  rintro _ rfl
  apply (readU16_agree (by omega)).bind
  rintro _ rfl
  apply (readU24_agree (by omega)).bind
  rintro _ rfl
  apply (byteAt_agree (by omega)).bind
  rintro _ rfl
  apply (readStatusChunks_agree (statusCount (packetOf data)) [] 0 (Nat.zero_le _) (by rfl) (by omega)).bind
  rintro ⟨symbols, offset⟩ ⟨count, chunks, here, inside⟩
  dsimp only at here inside count ⊢
  subst here
  apply (readDeltas_agree symbols _ _ _ inside).bind
  rintro packets ⟨entries, fields, timed, fits, found⟩
  apply Agree.pure
  refine ⟨by omega, entries.trans count, timed.sequence_at, chunks, fields, timed.fields_length,
    timed, fits, found⟩

theorem parse_in_bounds (data : List Byte) (size : Nat) (within : size ≤ data.length) :
    parseTwccFeedback (packetOf data) size = parseTwccFeedback data size ∧
      (∀ fault, parseTwccFeedback (packetOf data) size = .error fault → fault = .rejected) ∧
      ∀ feedback, parseTwccFeedback data size = .ok feedback →
        declaredLength data ≤ size ∧ Held (packetOf data) feedback := by
  have agree := parse_agree data size within
  refine ⟨agree.eq, fun fault => agree.fault_eq, ?_⟩
  intro feedback parsed
  exact agree.holds_of_ok (agree.eq.trans parsed)

/-- A report of three packets, with one delta of each width, in a longer datagram. -/
def threePackets : List Byte :=
  [0x8f, 0xcd, 0, 6, 0, 0, 0, 1, 0, 0, 0, 2, 0xff, 0xff, 0, 3, 0, 0, 1, 0,
    0xd2, 0, 4, 0xff, 0xff, 0, 0, 0, 7]

theorem parse_in_bounds_three :
    parseTwccFeedback (packetOf threePackets) 29 = parseTwccFeedback threePackets 29 ∧
      (∀ fault, parseTwccFeedback (packetOf threePackets) 29 = .error fault → fault = .rejected) ∧
      ∀ feedback, parseTwccFeedback threePackets 29 = .ok feedback →
        declaredLength threePackets ≤ 29 ∧ Held (packetOf threePackets) feedback :=
  parse_in_bounds _ _ (by decide)

example : (parseTwccFeedback threePackets 29).toOption.map (·.packets) =
    some [⟨0xffff, true, 65000⟩, ⟨0, false, 0⟩, ⟨1, true, 64750⟩] := by
  decide

end Mello.Transport.TwccBounds
