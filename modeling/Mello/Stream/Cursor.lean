import Mello.Library.LittleEndian
import Mello.Library.Runs

/-!
The pointer on the control channel. The host writes a packet and puts the type byte in
front of it. A viewer reads it in one of two ways: as a new packet, or into the state
that it has.
-/

namespace Mello.Stream.Cursor
open Mello.Library LittleEndian Runs

def CURSOR_MESSAGE_TYPE : Byte := 0x04

/-- Also `CURSOR_MESSAGE_SUBTYPE`. -/
def CURSOR_SUBTYPE : Byte := 0x02

def MAX_CURSOR_SIDE : Nat := 128

structure CursorState where
  x : BitVec 32 := 0
  y : BitVec 32 := 0
  visible : Bool := false
  shapeW : BitVec 16 := 0
  shapeH : BitVec 16 := 0
  shapeRgba : List Byte := []
  deriving DecidableEq

/-! ## libmello -/

/-- The bytes of a shape behind the header. -/
def shapeSize (state : CursorState) (includeShape : Bool) : Nat :=
  if includeShape ∧ state.shapeW ≠ 0 ∧ state.shapeH ≠ 0 then 4 + state.shapeW.toNat * state.shapeH.toNat * 4 else 0

/-- The bytes written to a buffer of `bufSize` bytes, none when it is too small. -/
def serializeCursorPacket (state : CursorState) (includeShape : Bool) (bufSize : Nat) : List Byte :=
  if bufSize < 11 + shapeSize state includeShape then []
  else
    CURSOR_SUBTYPE :: (wordBytes 4 state.x ++ (wordBytes 4 state.y ++
      ((if state.visible then 1 else 0) :: (if 0 < shapeSize state includeShape then 1 else 0) ::
        if 0 < shapeSize state includeShape then
          let pixelBytes := state.shapeW.toNat * state.shapeH.toNat * 4
          let copyLen := min pixelBytes state.shapeRgba.length
          wordBytes 2 state.shapeW ++ (wordBytes 2 state.shapeH ++
            (state.shapeRgba.take copyLen ++ List.replicate (pixelBytes - copyLen) 0))
        else [])))

/-- The fields are written as they are read, so the state changes also where the answer
is `false`. -/
def deserializeCursorPacket (buf : List Byte) (out : CursorState) : Bool × CursorState :=
  if buf.length < 11 then (false, out)
  else if buf.getD 0 0 ≠ CURSOR_SUBTYPE then (false, out)
  else
    let out := { out with x := word 4 (buf.drop 1), y := word 4 (buf.drop 5), visible := buf.getD 9 0 ≠ 0 }
    if buf.getD 10 0 = 0 then (true, out)
    else if buf.length < 15 then (false, out)
    else
      let out := { out with shapeW := word 2 (buf.drop 11), shapeH := word 2 (buf.drop 13) }
      let pixelBytes := out.shapeW.toNat * out.shapeH.toNat * 4
      if buf.length < 15 + pixelBytes then (false, out)
      else (true, { out with shapeRgba := (buf.drop 15).take pixelBytes })

/-! ## mello-core -/

structure CursorShape where
  width : BitVec 16
  height : BitVec 16
  rgba : List Byte
  deriving DecidableEq

structure CursorPacket where
  x : BitVec 32
  y : BitVec 32
  visible : Bool
  shape : Option CursorShape
  deriving DecidableEq

def controlMessageFromNative (packet : List Byte) : List Byte := CURSOR_MESSAGE_TYPE :: packet

/-- A slice of a length, when the data has it. -/
def slice (data : List Byte) (offset length : Nat) : Option (List Byte) :=
  if offset + length ≤ data.length then some ((data.drop offset).take length) else none

def parseShape (data : List Byte) : Option CursorShape := do
  let size ← slice data 12 4
  let width := word 2 size
  let height := word 2 (size.drop 2)
  if MAX_CURSOR_SIDE < width.toNat ∨ MAX_CURSOR_SIDE < height.toNat then none
  else
    let rgba ← slice data 16 (width.toNat * height.toNat * 4)
    return { width, height, rgba }

def parseCursorMessage (data : List Byte) : Option CursorPacket :=
  if data.length < 12 ∨ data.getD 0 0 ≠ CURSOR_MESSAGE_TYPE ∨ data.getD 1 0 ≠ CURSOR_SUBTYPE then none
  else
    let x := word 4 (data.drop 2)
    let y := word 4 (data.drop 6)
    let visible : Bool := data.getD 10 0 ≠ 0
    if data.getD 11 0 ≠ 0 then (parseShape data).map fun shape => { x, y, visible, shape := some shape }
    else some { x, y, visible, shape := none }

/-! ## What a packet means -/

/-- A packet without a shape keeps the shape. -/
def CursorPacket.onto (packet : CursorPacket) (out : CursorState) : CursorState :=
  match packet.shape with
  | none => { out with x := packet.x, y := packet.y, visible := packet.visible }
  | some shape => ⟨packet.x, packet.y, packet.visible, shape.width, shape.height, shape.rgba⟩

/-- The packet that a state is sent as. -/
def CursorState.packet (state : CursorState) (includeShape : Bool) : CursorPacket where
  x := state.x
  y := state.y
  visible := state.visible
  shape :=
    if includeShape ∧ state.shapeW ≠ 0 ∧ state.shapeH ≠ 0 then some ⟨state.shapeW, state.shapeH, state.shapeRgba⟩ else none

/-- The shape has all its pixels. -/
def Shaped (state : CursorState) : Prop :=
  state.shapeRgba.length = state.shapeW.toNat * state.shapeH.toNat * 4

/-- The sides in a packet that has a shape are not over the limit. -/
def Capped (buf : List Byte) : Prop :=
  buf.getD 10 0 ≠ 0 → (word 2 (buf.drop 11)).toNat ≤ MAX_CURSOR_SIDE ∧ (word 2 (buf.drop 13)).toNat ≤ MAX_CURSOR_SIDE

def Headed (buf : List Byte) : Prop := 11 ≤ buf.length ∧ buf.getD 0 0 = CURSOR_SUBTYPE

def pixelBytes (buf : List Byte) : Nat := (word 2 (buf.drop 11)).toNat * (word 2 (buf.drop 13)).toNat * 4

/-- The shape of a packet, when it has one, is all there. -/
def Whole (buf : List Byte) : Prop := buf.getD 10 0 ≠ 0 → 15 + pixelBytes buf ≤ buf.length

/-- The packet in the bytes. -/
def packetIn (buf : List Byte) : CursorPacket where
  x := word 4 (buf.drop 1)
  y := word 4 (buf.drop 5)
  visible := buf.getD 9 0 ≠ 0
  shape :=
    if buf.getD 10 0 ≠ 0 then some ⟨word 2 (buf.drop 11), word 2 (buf.drop 13), (buf.drop 15).take (pixelBytes buf)⟩ else none

/-- The fields that a packet still has are the ones of the state. -/
def Repeats (buf : List Byte) (out : CursorState) : Prop :=
  word 4 (buf.drop 1) = out.x ∧ word 4 (buf.drop 5) = out.y ∧ decide (buf.getD 9 0 ≠ 0) = out.visible ∧
    (15 ≤ buf.length → word 2 (buf.drop 11) = out.shapeW ∧ word 2 (buf.drop 13) = out.shapeH)

/-! ## The two readers -/

section Readers

variable (buf : List Byte) (out : CursorState)

/-- What a read does: no packet, a whole packet, or a packet cut before its sides or behind them. -/
theorem deserialize_cases :
    (¬Headed buf ∧ deserializeCursorPacket buf out = (false, out)) ∨
      (Headed buf ∧ Whole buf ∧ deserializeCursorPacket buf out = (true, (packetIn buf).onto out)) ∨
      (Headed buf ∧ ¬Whole buf ∧ buf.length < 15 ∧ deserializeCursorPacket buf out =
        (false, { out with x := word 4 (buf.drop 1), y := word 4 (buf.drop 5), visible := buf.getD 9 0 ≠ 0 })) ∨
      (Headed buf ∧ ¬Whole buf ∧ 15 ≤ buf.length ∧ deserializeCursorPacket buf out =
        (false, ⟨word 4 (buf.drop 1), word 4 (buf.drop 5), buf.getD 9 0 ≠ 0, word 2 (buf.drop 11), word 2 (buf.drop 13),
          out.shapeRgba⟩)) := by
  unfold deserializeCursorPacket
  by_cases short : buf.length < 11
  · exact .inl ⟨fun headed => absurd headed.1 (Nat.not_le.mpr short), if_pos short⟩
  · by_cases other : buf.getD 0 0 ≠ CURSOR_SUBTYPE
    · refine .inl ⟨fun headed => other headed.2, ?_⟩
      rw [if_neg short, if_pos other]
    · right
      have headed : Headed buf := ⟨Nat.not_lt.mp short, not_not.mp other⟩
      rw [if_neg short, if_neg other]
      dsimp only
      by_cases bare : buf.getD 10 0 = 0
      · refine .inl ⟨headed, fun some => absurd bare some, ?_⟩
        rw [if_pos bare, packetIn, if_neg (not_not.mpr bare)]
        rfl
      · rw [if_neg bare]
        by_cases early : buf.length < 15
        · refine .inr (.inl ⟨headed, fun whole => ?_, early, if_pos early⟩)
          have all := whole bare
          omega
        · rw [if_neg early]
          by_cases cut : buf.length < 15 + pixelBytes buf
          · refine .inr (.inr ⟨headed, fun whole => absurd (whole bare) (Nat.not_le.mpr cut), Nat.not_lt.mp early, ?_⟩)
            exact if_pos cut
          · refine .inl ⟨headed, fun _ => Nat.not_lt.mp cut, ?_⟩
            rw [packetIn, if_pos bare]
            exact if_neg cut

theorem slice_eq_some {data part : List Byte} {offset length : Nat} :
    slice data offset length = some part ↔ offset + length ≤ data.length ∧ (data.drop offset).take length = part := by
  unfold slice
  split_ifs with fits
  · exact ⟨fun same => ⟨fits, Option.some.inj same⟩, fun ⟨_, same⟩ => congrArg some same⟩
  · exact ⟨nofun, fun ⟨here, _⟩ => absurd here fits⟩

theorem word_take {count length : Nat} (data : List Byte) (le : count ≤ length) :
    word count (data.take length) = word count data := by
  rw [word, word, List.take_take, Nat.min_eq_left le]

theorem parseShape_eq_some {shape : CursorShape} :
    parseShape (controlMessageFromNative buf) = some shape ↔ 15 + pixelBytes buf ≤ buf.length ∧
      ((word 2 (buf.drop 11)).toNat ≤ MAX_CURSOR_SIDE ∧ (word 2 (buf.drop 13)).toNat ≤ MAX_CURSOR_SIDE) ∧
      ⟨word 2 (buf.drop 11), word 2 (buf.drop 13), (buf.drop 15).take (pixelBytes buf)⟩ = shape := by
  have width : word 2 ((buf.drop 11).take 4) = word 2 (buf.drop 11) := word_take _ (by decide)
  have height : word 2 (((buf.drop 11).take 4).drop 2) = word 2 (buf.drop 13) := by
    rw [List.drop_take, List.drop_drop]
    exact word_take _ le_rfl
  have length : (controlMessageFromNative buf).length = buf.length + 1 := rfl
  have sides : (controlMessageFromNative buf).drop 12 = buf.drop 11 := rfl
  have pixels : (controlMessageFromNative buf).drop 16 = buf.drop 15 := rfl
  unfold parseShape
  constructor
  · intro parsed
    obtain ⟨size, sized, parsed⟩ := Option.bind_eq_some_iff.mp parsed
    obtain ⟨-, rfl⟩ := slice_eq_some.mp sized
    rw [sides, width, height] at parsed
    dsimp only at parsed
    split_ifs at parsed with wide
    obtain ⟨rgba, sliced, same⟩ := Option.bind_eq_some_iff.mp parsed
    obtain ⟨fits, rfl⟩ := slice_eq_some.mp sliced
    rw [length] at fits
    rw [pixels] at same
    refine ⟨?_, ⟨?_, ?_⟩, Option.some.inj same⟩
    · unfold pixelBytes
      omega
    · omega
    · omega
  · rintro ⟨fits, ⟨wide, high⟩, rfl⟩
    have sized : slice (controlMessageFromNative buf) 12 4 = some ((buf.drop 11).take 4) := by
      refine slice_eq_some.mpr ⟨?_, rfl⟩
      omega
    have sliced : slice (controlMessageFromNative buf) 16 (pixelBytes buf) = some ((buf.drop 15).take (pixelBytes buf)) := by
      refine slice_eq_some.mpr ⟨?_, rfl⟩
      omega
    have within : ¬(MAX_CURSOR_SIDE < (word 2 (buf.drop 11)).toNat ∨ MAX_CURSOR_SIDE < (word 2 (buf.drop 13)).toNat) := by
      omega
    rw [sized, Option.bind_eq_bind, Option.bind_some, width, height, if_neg within]
    unfold pixelBytes at sliced
    rw [sliced]
    rfl

/-- The other reader takes the same packets, up to the limit of the sides. -/
theorem parse_eq_some {packet : CursorPacket} :
    parseCursorMessage (controlMessageFromNative buf) = some packet ↔
      Headed buf ∧ Whole buf ∧ Capped buf ∧ packetIn buf = packet := by
  have length : (controlMessageFromNative buf).length = buf.length + 1 := rfl
  have subtype : (controlMessageFromNative buf).getD 1 0 = buf.getD 0 0 := rfl
  have flag : (controlMessageFromNative buf).getD 11 0 = buf.getD 10 0 := rfl
  unfold parseCursorMessage
  by_cases headed : Headed buf
  · have known : ¬((controlMessageFromNative buf).length < 12 ∨ (controlMessageFromNative buf).getD 0 0 ≠ CURSOR_MESSAGE_TYPE ∨
        (controlMessageFromNative buf).getD 1 0 ≠ CURSOR_SUBTYPE) := by
      rw [length, subtype]
      rintro (short | other | other)
      · exact absurd headed.1 (by omega)
      · exact other rfl
      · exact other headed.2
    rw [if_neg known]
    dsimp only
    rw [flag]
    by_cases bare : buf.getD 10 0 = 0
    · have here : packetIn buf = ⟨word 4 (buf.drop 1), word 4 (buf.drop 5), buf.getD 9 0 ≠ 0, none⟩ := by
        rw [packetIn, if_neg (not_not.mpr bare)]
      rw [if_neg (not_not.mpr bare), here]
      constructor
      · rintro ⟨⟩
        exact ⟨headed, fun some => absurd bare some, fun some => absurd bare some, rfl⟩
      · rintro ⟨-, -, -, rfl⟩
        rfl
    · rw [if_pos bare, Option.map_eq_some_iff]
      constructor
      · rintro ⟨shape, parsed, rfl⟩
        obtain ⟨whole, capped, rfl⟩ := (parseShape_eq_some buf).mp parsed
        refine ⟨headed, fun _ => whole, fun _ => capped, ?_⟩
        rw [packetIn, if_pos bare]
        rfl
      · rintro ⟨-, whole, capped, rfl⟩
        refine ⟨_, (parseShape_eq_some buf).mpr ⟨whole bare, capped bare, rfl⟩, ?_⟩
        rw [packetIn, if_pos bare]
        rfl
  · have unknown : (controlMessageFromNative buf).length < 12 ∨ (controlMessageFromNative buf).getD 0 0 ≠ CURSOR_MESSAGE_TYPE ∨
        (controlMessageFromNative buf).getD 1 0 ≠ CURSOR_SUBTYPE := by
      rw [length, subtype]
      by_cases short : buf.length < 11
      · exact .inl (by omega)
      · exact .inr (.inr fun same => headed ⟨Nat.not_lt.mp short, same⟩)
    rw [if_pos unknown]
    exact ⟨nofun, fun ⟨here, _⟩ => absurd here headed⟩

end Readers

/-! ## The round trip -/

section RoundTrip

variable {state : CursorState} {includeShape : Bool} {bufSize : Nat}

theorem shapeSize_pos : 0 < shapeSize state includeShape ↔ includeShape ∧ state.shapeW ≠ 0 ∧ state.shapeH ≠ 0 := by
  unfold shapeSize
  split_ifs with shape
  · exact iff_of_true (by omega) shape
  · exact iff_of_false (by omega) shape

/-- A header and what follows it. -/
def headed (state : CursorState) (flag : Byte) (rest : List Byte) : List Byte :=
  CURSOR_SUBTYPE :: (wordBytes 4 state.x ++ (wordBytes 4 state.y ++ ((if state.visible then 1 else 0) :: flag :: rest)))

theorem serialize_bare (bare : ¬(includeShape ∧ state.shapeW ≠ 0 ∧ state.shapeH ≠ 0))
    (fits : 11 + shapeSize state includeShape ≤ bufSize) :
    serializeCursorPacket state includeShape bufSize = headed state 0 [] := by
  have none : ¬0 < shapeSize state includeShape := fun some => bare (shapeSize_pos.mp some)
  rw [serializeCursorPacket, if_neg (Nat.not_lt.mpr fits), if_neg none, if_neg none]
  rfl

/-- A shape with all its pixels goes out as it is. -/
theorem serialize_shape (shaped : Shaped state) (shape : includeShape ∧ state.shapeW ≠ 0 ∧ state.shapeH ≠ 0)
    (fits : 11 + shapeSize state includeShape ≤ bufSize) :
    serializeCursorPacket state includeShape bufSize =
      headed state 1 (wordBytes 2 state.shapeW ++ (wordBytes 2 state.shapeH ++ state.shapeRgba)) := by
  have some := shapeSize_pos.mpr shape
  rw [serializeCursorPacket, if_neg (Nat.not_lt.mpr fits), if_pos some, if_pos some]
  dsimp only
  rw [← shaped, Nat.min_self, Nat.sub_self, List.replicate_zero, List.append_nil, List.take_length]
  rfl

theorem headed_headed (state : CursorState) (flag : Byte) (rest : List Byte) : Headed (headed state flag rest) := by
  refine ⟨?_, rfl⟩
  simp only [headed, List.length_cons, List.length_append, length_wordBytes]
  omega

theorem length_headed (state : CursorState) (flag : Byte) (rest : List Byte) :
    (headed state flag rest).length = 11 + rest.length := by
  simp only [headed, List.length_cons, List.length_append, length_wordBytes]
  omega

/-- A written header reads as the state. -/
theorem packetIn_headed (state : CursorState) (flag : Byte) (rest : List Byte) :
    (packetIn (headed state flag rest)).x = state.x ∧ (packetIn (headed state flag rest)).y = state.y ∧
      (packetIn (headed state flag rest)).visible = state.visible := by
  refine ⟨word_wordBytes_append 4 state.x _, word_wordBytes_append 4 state.y _, ?_⟩
  change decide ((if state.visible then (1 : Byte) else 0) ≠ 0) = state.visible
  cases state.visible <;> rfl

/-- A written packet is whole, and reads as what was sent. -/
theorem read_serialize (shaped : Shaped state) (fits : 11 + shapeSize state includeShape ≤ bufSize) :
    Headed (serializeCursorPacket state includeShape bufSize) ∧ Whole (serializeCursorPacket state includeShape bufSize) ∧
      packetIn (serializeCursorPacket state includeShape bufSize) = state.packet includeShape := by
  by_cases shape : includeShape ∧ state.shapeW ≠ 0 ∧ state.shapeH ≠ 0
  · rw [serialize_shape shaped shape fits]
    set rest := wordBytes 2 state.shapeW ++ (wordBytes 2 state.shapeH ++ state.shapeRgba) with behind
    obtain ⟨x, y, visible⟩ := packetIn_headed state 1 rest
    have flag : (headed state 1 rest).getD 10 0 ≠ 0 := by
      change (1 : Byte) ≠ 0
      decide
    have width : word 2 ((headed state 1 rest).drop 11) = state.shapeW := word_wordBytes_append 2 state.shapeW _
    have height : word 2 ((headed state 1 rest).drop 13) = state.shapeH := word_wordBytes_append 2 state.shapeH _
    have pixels : pixelBytes (headed state 1 rest) = state.shapeRgba.length := by
      rw [pixelBytes, width, height, ← shaped]
    have rgba : (headed state 1 rest).drop 15 = state.shapeRgba := rfl
    refine ⟨headed_headed state 1 rest, ?_, ?_⟩
    · intro _
      rw [length_headed, pixels, behind, List.length_append, List.length_append, length_wordBytes, length_wordBytes]
      omega
    · have read : (packetIn (headed state 1 rest)).shape = (state.packet includeShape).shape := by
        rw [packetIn, CursorState.packet, if_pos shape, if_pos flag, width, height, pixels, rgba, List.take_length]
      exact CursorPacket.mk.injEq .. ▸ ⟨x, y, visible, read⟩
  · rw [serialize_bare shape fits]
    obtain ⟨x, y, visible⟩ := packetIn_headed state 0 []
    have flag : ¬(headed state 0 []).getD 10 0 ≠ 0 := not_not.mpr rfl
    refine ⟨headed_headed state 0 [], fun some => absurd some flag, ?_⟩
    have read : (packetIn (headed state 0 [])).shape = (state.packet includeShape).shape := by
      rw [packetIn, CursorState.packet, if_neg shape, if_neg flag]
    exact CursorPacket.mk.injEq .. ▸ ⟨x, y, visible, read⟩

end RoundTrip

/-! ## Every packet -/

theorem deserialize_whole {buf : List Byte} (headed : Headed buf) (whole : Whole buf) (out : CursorState) :
    deserializeCursorPacket buf out = (true, (packetIn buf).onto out) := by
  rcases deserialize_cases buf out with ⟨other, -⟩ | ⟨-, -, read⟩ | ⟨-, cut, -⟩ | ⟨-, cut, -⟩
  · exact absurd headed other
  · exact read
  · exact absurd whole cut
  · exact absurd whole cut

theorem deserialize_fst {buf : List Byte} {out : CursorState} :
    (deserializeCursorPacket buf out).1 = true ↔ Headed buf ∧ Whole buf := by
  rcases deserialize_cases buf out with ⟨other, read⟩ | ⟨headed, whole, read⟩ | ⟨-, cut, -, read⟩ | ⟨-, cut, -, read⟩ <;> rw [read]
  · exact ⟨nofun, fun ⟨headed, _⟩ => absurd headed other⟩
  · exact ⟨fun _ => ⟨headed, whole⟩, fun _ => rfl⟩
  · exact ⟨nofun, fun ⟨_, whole⟩ => absurd whole cut⟩
  · exact ⟨nofun, fun ⟨_, whole⟩ => absurd whole cut⟩

theorem parse_isSome {buf : List Byte} {out : CursorState} :
    (parseCursorMessage (controlMessageFromNative buf)).isSome ↔ (deserializeCursorPacket buf out).1 = true ∧ Capped buf := by
  rw [Option.isSome_iff_exists, deserialize_fst]
  constructor
  · rintro ⟨packet, parsed⟩
    obtain ⟨headed, whole, capped, -⟩ := (parse_eq_some buf).mp parsed
    exact ⟨⟨headed, whole⟩, capped⟩
  · rintro ⟨⟨headed, whole⟩, capped⟩
    exact ⟨packetIn buf, (parse_eq_some buf).mpr ⟨headed, whole, capped, rfl⟩⟩

/-- A packet that is not taken leaves the state as it is only where its fields are
the ones of the state. -/
theorem unchanged_iff {buf : List Byte} {out : CursorState} :
    ((deserializeCursorPacket buf out).1 = false → (deserializeCursorPacket buf out).2 = out) ↔
      (Headed buf → ¬Whole buf → Repeats buf out) := by
  rcases deserialize_cases buf out with
    ⟨other, read⟩ | ⟨headed, whole, read⟩ | ⟨headed, cut, early, read⟩ | ⟨headed, cut, late, read⟩ <;> rw [read]
  · exact iff_of_true (fun _ => rfl) (fun headed => absurd headed other)
  · exact iff_of_true nofun (fun _ cut => absurd whole cut)
  · constructor
    · intro same _ _
      have fields := same rfl
      exact ⟨congrArg CursorState.x fields, congrArg CursorState.y fields, congrArg CursorState.visible fields,
        fun late => absurd late (Nat.not_le.mpr early)⟩
    · intro repeats _
      obtain ⟨x, y, visible, -⟩ := repeats headed cut
      rw [x, y, visible]
  · constructor
    · intro same _ _
      have fields := same rfl
      exact ⟨congrArg CursorState.x fields, congrArg CursorState.y fields, congrArg CursorState.visible fields,
        fun _ => ⟨congrArg CursorState.shapeW fields, congrArg CursorState.shapeH fields⟩⟩
    · intro repeats _
      obtain ⟨x, y, visible, sides⟩ := repeats headed cut
      obtain ⟨width, height⟩ := sides late
      rw [x, y, visible, width, height]

/-- A packet cut behind its sides has the number of pixels that the state has. -/
def KeepsPixels (state : CursorState) (buf : List Byte) : Prop :=
  Headed buf → ¬Whole buf → 15 ≤ buf.length → pixelBytes buf = state.shapeRgba.length

theorem shaped_iff {buf : List Byte} {out : CursorState} (shaped : Shaped out) :
    Shaped (deserializeCursorPacket buf out).2 ↔ KeepsPixels out buf := by
  rcases deserialize_cases buf out with
    ⟨other, read⟩ | ⟨headed, whole, read⟩ | ⟨headed, cut, early, read⟩ | ⟨headed, cut, late, read⟩ <;> rw [read]
  · exact iff_of_true shaped (fun headed => absurd headed other)
  · refine iff_of_true ?_ (fun _ cut => absurd whole cut)
    unfold packetIn
    split_ifs with some
    · have all := whole some
      change ((buf.drop 15).take (pixelBytes buf)).length = pixelBytes buf
      rw [List.length_take, List.length_drop]
      omega
    · exact shaped
  · exact iff_of_true shaped (fun _ _ late => absurd late (Nat.not_le.mpr early))
  · exact ⟨fun same _ _ _ => same.symm, fun keeps => (keeps headed cut late).symm⟩

/-- `apply_cursor_packet` -/
def applyCursorPacket (state : CursorState) (buf : List Byte) : Option CursorState :=
  some (deserializeCursorPacket buf state).2

/-- A packet that was written is read by both readers as the state it was written from,
and they take the same packets with sides up to the limit. A packet that is not taken
changes nothing exactly where it repeats the state, and a run keeps the shape whole
exactly where each such packet has as many pixels as the state. -/
theorem cursor_packets {state start : CursorState} {includeShape : Bool} {bufSize : Nat} (shaped : Shaped state)
    (small : state.shapeW.toNat ≤ MAX_CURSOR_SIDE ∧ state.shapeH.toNat ≤ MAX_CURSOR_SIDE)
    (fits : 11 + shapeSize state includeShape ≤ bufSize) (first : Shaped start) (buf : List Byte) (out : CursorState)
    (packets : List (List Byte)) :
    (parseCursorMessage (controlMessageFromNative (serializeCursorPacket state includeShape bufSize)) =
        some (state.packet includeShape) ∧
      deserializeCursorPacket (serializeCursorPacket state includeShape bufSize) out =
        (true, (state.packet includeShape).onto out)) ∧
    ((parseCursorMessage (controlMessageFromNative buf)).isSome ↔ (deserializeCursorPacket buf out).1 = true ∧ Capped buf) ∧
    (((deserializeCursorPacket buf out).1 = false → (deserializeCursorPacket buf out).2 = out) ↔
      (Headed buf → ¬Whole buf → Repeats buf out)) ∧
    (Always applyCursorPacket Shaped start packets ↔ EachStep applyCursorPacket KeepsPixels start packets) := by
  obtain ⟨headed, whole, same⟩ := read_serialize shaped fits
  have capped : Capped (serializeCursorPacket state includeShape bufSize) := by
    intro some
    have shape := congrArg CursorPacket.shape same
    rw [packetIn, CursorState.packet, if_pos some] at shape
    split_ifs at shape
    obtain ⟨width, height, -⟩ := CursorShape.mk.inj (Option.some.inj shape)
    rw [width, height]
    exact small
  refine ⟨⟨(parse_eq_some _).mpr ⟨headed, whole, capped, same⟩, ?_⟩, parse_isSome, unchanged_iff, ?_⟩
  · rw [deserialize_whole headed whole, same]
  · refine always_iff_eachStep (fun _ => True) (fun _ _ _ _ _ => trivial) ?_ trivial first packets
    rintro s packet t - shaped stepped
    obtain rfl := Option.some.inj stepped
    exact shaped_iff shaped

def pixel : CursorState := { x := 5, y := -1, visible := true, shapeW := 1, shapeH := 1, shapeRgba := [9, 8, 7, 255] }

/-- A packet of a shape, and the same one cut in its pixels. -/
theorem pixel_packets :
    (parseCursorMessage (controlMessageFromNative (serializeCursorPacket pixel true 19)) = some (pixel.packet true) ∧
      deserializeCursorPacket (serializeCursorPacket pixel true 19) {} = (true, (pixel.packet true).onto {})) ∧
    Always applyCursorPacket Shaped pixel [(serializeCursorPacket pixel true 19).take 18] := by
  have all := @cursor_packets pixel pixel true 19 rfl (by decide) (by decide) rfl [] {}
    [(serializeCursorPacket pixel true 19).take 18]
  exact ⟨all.1, all.2.2.2.mpr (.cons rfl (fun _ _ _ => rfl) trivial)⟩

/-- Sides of two by two, and no pixel. -/
def cut : List Byte := [2, 1, 0, 0, 0, 0, 0, 0, 0, 1, 1, 2, 0, 2, 0]

theorem cut_unshaped : Shaped {} ∧ (deserializeCursorPacket cut {}).1 = false ∧ (deserializeCursorPacket cut {}).2 ≠ {} ∧
    ¬Shaped (deserializeCursorPacket cut {}).2 := by
  unfold Shaped
  decide

end Mello.Stream.Cursor
