import Mello.Transport.Twcc

/-!
The transport-wide sequence number in an RTP packet (`TwccSendStamper`). A stamp overwrites the
element that is there, or appends a word to the extension, or inserts an extension; the reader
(`extract_twcc_sequence`) scans the elements in the same way.
-/

namespace Mello.Transport.TwccStamp
open Twcc

def kOneByteHeaderProfile : BitVec 16 := 0xbede
def kTwccExtensionId : Nat := 3

/-- Each read stands behind a check of the size. -/
def u16At (data : List Byte) (i : Nat) : BitVec 16 := data.getD i 0 ++ data.getD (i + 1) 0

def writeU16 (data : List Byte) (i : Nat) (v : BitVec 16) : List Byte :=
  (data.set i (v.extractLsb' 8 8)).set (i + 1) (v.extractLsb' 0 8)

def insertZeros (data : List Byte) (position count : Nat) : List Byte :=
  data.take position ++ (List.replicate count 0 ++ data.drop position)

structure RtpHeaderInfo where
  /-- Fixed header and CSRCs. -/
  headerSize : Nat
  extBodyOffset : Nat := 0
  extBodySize : Nat := 0
  hasExtension : Bool
  deriving DecidableEq, Repr

/-- `none` where the source says that the header is not valid. -/
def inspectRtpHeader (data : List Byte) : Option RtpHeaderInfo :=
  if data.length < 12 ∨ data.getD 0 0 >>> 6 ≠ 2 then none
  else
    let headerSize := 12 + (data.getD 0 0 &&& 0x0f).toNat * 4
    if data.length < headerSize then none
    else if data.getD 0 0 &&& 0x10 ≠ 0 then
      if data.length < headerSize + 4 then none
      else
        let extWords := (u16At data (headerSize + 2)).toNat
        if data.length < headerSize + 4 + extWords * 4 then none
        else some {
          headerSize, extBodyOffset := headerSize + 4, extBodySize := extWords * 4, hasExtension := true }
    else some { headerSize, hasExtension := false }

/-- The offset of our element's value, from byte `i` of the body on. -/
def findTwccElement (body : List Byte) (i : Nat) : Option Nat :=
  if inside : i < body.length then
    let header := body[i]
    if header = 0 then findTwccElement body (i + 1)
    else
      let id := (header >>> 4).toNat
      let len := (header &&& 0x0f).toNat + 1
      if id = 15 then none
      else if id = kTwccExtensionId ∧ len = 2 ∧ i + 2 < body.length then some (i + 1)
      else findTwccElement body (i + 1 + len)
  else none
termination_by body.length - i

def RtpHeaderInfo.body (info : RtpHeaderInfo) (data : List Byte) : List Byte :=
  (data.drop info.extBodyOffset).take info.extBodySize

/-- All that one call of `stamp` may write. -/
structure Stamping where
  nextSequence : BitVec 16
  packet : List Byte
  outSequence : BitVec 16
  deriving DecidableEq, Repr

/-- The first byte of our element: its id, and its length less one. -/
def elementHeader : Byte := BitVec.ofNat 8 kTwccExtensionId <<< 4 ||| 1

/-- Grows an extension by one word that holds our element. -/
def appendElement (packet : List Byte) (info : RtpHeaderInfo) (sequence : BitVec 16) : List Byte :=
  let position := info.extBodyOffset + info.extBodySize
  let packet := insertZeros packet position 4
  let packet := writeU16 packet (info.headerSize + 2) (BitVec.ofNat 16 (info.extBodySize / 4 + 1))
  let packet := packet.set position elementHeader
  (writeU16 packet (position + 1) sequence).set (position + 3) 0

/-- An extension of one word behind the fixed header. -/
def insertExtension (packet : List Byte) (info : RtpHeaderInfo) (sequence : BitVec 16) : List Byte :=
  let packet := packet.set 0 (packet.getD 0 0 ||| 0x10)
  let position := info.headerSize
  let packet := insertZeros packet position 8
  let packet := writeU16 packet position kOneByteHeaderProfile
  let packet := writeU16 packet (position + 2) 1
  let packet := packet.set (position + 4) elementHeader
  (writeU16 packet (position + 5) sequence).set (position + 7) 0

def stamp (s : Stamping) : Bool × Stamping :=
  match inspectRtpHeader s.packet with
  | none => (false, s)
  | some info =>
    let sequence := s.nextSequence
    if info.hasExtension then
      if u16At s.packet info.headerSize = kOneByteHeaderProfile then
        let packet := match findTwccElement (info.body s.packet) 0 with
          | some existing => writeU16 s.packet (info.extBodyOffset + existing) sequence
          | none => appendElement s.packet info sequence
        (true, { nextSequence := sequence + 1, packet, outSequence := sequence })
      -- A profile of two bytes, or an unknown one.
      else (false, s)
    else
      (true, {
        nextSequence := sequence + 1, packet := insertExtension s.packet info sequence, outSequence := sequence })

def extractTwccSequence (data : List Byte) : Option (BitVec 16) :=
  match inspectRtpHeader data with
  | none => none
  | some info =>
    if info.hasExtension = false ∨ u16At data info.headerSize ≠ kOneByteHeaderProfile then none
    else (findTwccElement (info.body data) 0).map fun offset => u16At data (info.extBodyOffset + offset)

/-! ## Packets -/

/-- A complete element of the one-byte profile. -/
structure Element where
  id : Nat
  value : List Byte
  named : 1 ≤ id ∧ id ≤ 14
  short : 1 ≤ value.length ∧ value.length ≤ 16

inductive Item where
  | padding
  | element (e : Element)

def Element.header (e : Element) : Byte := BitVec.ofNat 8 (e.id * 16 + (e.value.length - 1))

def Item.bytes : Item → List Byte
  | padding => [0]
  | element e => e.header :: e.value

def bodyBytes (items : List Item) : List Byte := items.flatMap Item.bytes

def words (items : List Item) : Nat := (bodyBytes items).length / 4

/-- A body of whole words, with a count that fits its field. -/
def Whole (items : List Item) : Prop := (bodyBytes items).length % 4 = 0 ∧ words items < 65536

/-- A packet with an extension: `head` is the fixed header and the CSRCs. -/
def layout (head : List Byte) (items : List Item) (payload : List Byte) : List Byte :=
  head ++ (u16Bytes kOneByteHeaderProfile ++ (u16Bytes (BitVec.ofNat 16 (words items)) ++
    (bodyBytes items ++ payload)))

def Element.isTwcc (e : Element) : Bool := decide (e.id = kTwccExtensionId ∧ e.value.length = 2)

def Item.isTwcc : Item → Bool
  | padding => false
  | element e => e.isTwcc

def elements (items : List Item) : List Element :=
  items.filterMap fun item => match item with
    | .padding => none
    | .element e => some e

/-- An RTP packet whose extension, when it has one, is a list of complete elements and padding of
whole words. The X bit stands in `extension` only. -/
structure RtpPacket where
  first : Byte
  rest : List Byte
  csrcs : List Byte
  extension : Option (List Item)
  payload : List Byte
  version : first >>> 6 = 2
  clear : first &&& 0x10 = 0
  fixed : rest.length = 11
  listed : csrcs.length = (first &&& 0x0f).toNat * 4
  whole : ∀ items ∈ extension, Whole items

namespace RtpPacket

def bytes (packet : RtpPacket) : List Byte :=
  match packet.extension with
  | none => packet.first :: (packet.rest ++ packet.csrcs) ++ packet.payload
  | some items => layout ((packet.first ||| 0x10) :: (packet.rest ++ packet.csrcs)) items packet.payload

/-- The elements but the first that is ours. -/
def others (packet : RtpPacket) : List Element :=
  (elements (packet.extension.getD [])).eraseP Element.isTwcc

end RtpPacket

/-! ## Bytes in a list -/

theorem u16_joined (v : BitVec 16) : v.extractLsb' 8 8 ++ v.extractLsb' 0 8 = v := by
  rw [BitVec.extractLsb'_append_extractLsb'_eq_extractLsb' (by rfl), BitVec.extractLsb'_eq_self]

theorem u16At_bytes (front back : List Byte) (v : BitVec 16) :
    u16At (front ++ (u16Bytes v ++ back)) front.length = v := by
  simpa [u16At, u16Bytes, List.getD_eq_getElem?_getD] using u16_joined v

theorem writeU16_at {data front back : List Byte} {a b : Byte} {i : Nat} (v : BitVec 16)
    (shape : data = front ++ (a :: b :: back)) (here : i = front.length) :
    writeU16 data i v = front ++ (u16Bytes v ++ back) := by
  subst shape here
  simp [writeU16, u16Bytes, List.set_append_right]

theorem set_at {data front back : List Byte} {a : Byte} {i : Nat} (byte : Byte) (shape : data = front ++ (a :: back))
    (here : i = front.length) : data.set i byte = front ++ (byte :: back) := by
  subst shape here
  simp [List.set_append_right]

theorem insertZeros_at {data front back : List Byte} {i : Nat} (count : Nat) (shape : data = front ++ back)
    (here : i = front.length) : insertZeros data i count = front ++ (List.replicate count 0 ++ back) := by
  subst shape here
  simp [insertZeros]

/-! ## The header -/

theorem inspect_plain {first : Byte} {rest : List Byte} (version : first >>> 6 = 2) (clear : first &&& 0x10 = 0)
    (size : (first :: rest).length = 12 + (first &&& 0x0f).toNat * 4) (tail : List Byte) :
    inspectRtpHeader (first :: rest ++ tail) =
      some { headerSize := (first :: rest).length, hasExtension := false } := by
  have long : (first :: rest ++ tail).length = 12 + (first &&& 0x0f).toNat * 4 + tail.length := by
    rw [List.length_append, size]
  have head : (first :: rest ++ tail).getD 0 0 = first := rfl
  have minimum : ¬((first :: rest ++ tail).length < 12 ∨ first >>> 6 ≠ 2) := by
    rintro (short | other)
    · omega
    · exact other version
  have room : ¬(first :: rest ++ tail).length < 12 + (first &&& 0x0f).toNat * 4 := by omega
  unfold inspectRtpHeader
  rw [head, if_neg minimum]
  dsimp only
  rw [if_neg room, if_neg (not_not.mpr clear), size]

theorem inspect_extended {first : Byte} {rest body payload : List Byte} {profile extWords : BitVec 16}
    (version : first >>> 6 = 2) (set : first &&& 0x10 ≠ 0)
    (size : (first :: rest).length = 12 + (first &&& 0x0f).toNat * 4) (whole : body.length = extWords.toNat * 4) :
    inspectRtpHeader (first :: rest ++ (u16Bytes profile ++ (u16Bytes extWords ++ (body ++ payload)))) =
      some {
        headerSize := (first :: rest).length, extBodyOffset := (first :: rest).length + 4
        extBodySize := body.length, hasExtension := true } := by
  have long : (first :: rest ++ (u16Bytes profile ++ (u16Bytes extWords ++ (body ++ payload)))).length =
      12 + (first &&& 0x0f).toNat * 4 + 4 + body.length + payload.length := by
    simp only [List.length_append, size, u16Bytes, List.length_cons, List.length_nil]
    omega
  have head : (first :: rest ++ (u16Bytes profile ++ (u16Bytes extWords ++ (body ++ payload)))).getD 0 0 = first := rfl
  have count : u16At (first :: rest ++ (u16Bytes profile ++ (u16Bytes extWords ++ (body ++ payload))))
      ((first :: rest).length + 2) = extWords := by
    have read := u16At_bytes (first :: rest ++ u16Bytes profile) (body ++ payload) extWords
    rwa [List.append_assoc, List.length_append] at read
  generalize first :: rest ++ (u16Bytes profile ++ (u16Bytes extWords ++ (body ++ payload))) = data at *
  rw [size] at count ⊢
  unfold inspectRtpHeader
  rw [head, if_neg (by rintro (short | other); omega; exact other version)]
  dsimp only
  rw [if_neg (by omega), if_pos set, if_neg (by omega), count, ← whole, if_neg (by omega)]

/-! ## The scan -/

theorem Element.header_toNat (e : Element) : e.header.toNat = e.id * 16 + (e.value.length - 1) := by
  obtain ⟨id, value, named, short⟩ := e
  rw [Element.header, BitVec.toNat_ofNat]
  exact Nat.mod_eq_of_lt (by dsimp only; omega)

theorem Element.header_id (e : Element) : (e.header >>> 4).toNat = e.id := by
  have short := e.short
  rw [BitVec.toNat_ushiftRight, e.header_toNat, Nat.shiftRight_eq_div_pow]
  omega

theorem Element.header_length (e : Element) : (e.header &&& 0x0f).toNat + 1 = e.value.length := by
  have short := e.short
  have low : (e.header &&& 0x0f).toNat = e.header.toNat % 16 := by
    rw [BitVec.toNat_and]
    exact Nat.and_two_pow_sub_one_eq_mod _ 4
  rw [low, e.header_toNat]
  omega

theorem Element.header_ne_zero (e : Element) : e.header ≠ 0 := by
  intro zero
  have named := e.named
  have value := e.header_toNat
  rw [zero] at value
  simp at value
  omega

theorem find_end (body : List Byte) : findTwccElement body body.length = none := by
  rw [findTwccElement, dif_neg (lt_irrefl _)]

theorem find_padding (front back : List Byte) :
    findTwccElement (front ++ 0 :: back) front.length = findTwccElement (front ++ 0 :: back) (front.length + 1) := by
  rw [findTwccElement, dif_pos (by simp)]
  simp

theorem find_element (front back : List Byte) (e : Element) :
    findTwccElement (front ++ (e.header :: (e.value ++ back))) front.length =
      if e.isTwcc then some (front.length + 1)
      else findTwccElement (front ++ (e.header :: (e.value ++ back))) (front.length + 1 + e.value.length) := by
  have named := e.named
  have inside : front.length < (front ++ (e.header :: (e.value ++ back))).length := by simp
  have here : (front ++ (e.header :: (e.value ++ back)))[front.length] = e.header := by simp
  have after : e.isTwcc = true → front.length + 2 < (front ++ (e.header :: (e.value ++ back))).length := by
    intro twcc
    have two := (of_decide_eq_true twcc).2
    simp only [List.length_append, List.length_cons]
    omega
  have same : (e.id = kTwccExtensionId ∧ e.value.length = 2 ∧
      front.length + 2 < (front ++ (e.header :: (e.value ++ back))).length) ↔ e.isTwcc = true := by
    constructor
    · rintro ⟨id, length, -⟩
      exact decide_eq_true ⟨id, length⟩
    · intro twcc
      exact ⟨(of_decide_eq_true twcc).1, (of_decide_eq_true twcc).2, after twcc⟩
  rw [findTwccElement, dif_pos inside]
  dsimp only
  rw [here, if_neg e.header_ne_zero, e.header_id, e.header_length, if_neg (by omega), if_congr same rfl rfl]

theorem bodyBytes_cons (item : Item) (items : List Item) : bodyBytes (item :: items) = item.bytes ++ bodyBytes items :=
  List.flatMap_cons

theorem bodyBytes_append (front back : List Item) : bodyBytes (front ++ back) = bodyBytes front ++ bodyBytes back :=
  List.flatMap_append

/-- The scan runs over complete elements that are not ours. -/
theorem find_skip {items : List Item} (foreign : ∀ item ∈ items, item.isTwcc = false) (front back : List Byte) :
    findTwccElement (front ++ (bodyBytes items ++ back)) front.length =
      findTwccElement (front ++ (bodyBytes items ++ back)) (front.length + (bodyBytes items).length) := by
  induction items generalizing front with
  | nil => rfl
  | cons item rest ih =>
    have others := fun other member => foreign other (List.mem_cons_of_mem _ member)
    have next := ih others (front ++ item.bytes)
    rw [List.append_assoc, List.length_append] at next
    rw [bodyBytes_cons, List.append_assoc, List.length_append, ← Nat.add_assoc, ← next]
    cases item with
    | padding => exact find_padding front _
    | element e =>
      have other : ¬e.isTwcc = true := by
        rw [Bool.not_eq_true]
        exact foreign (.element e) List.mem_cons_self
      have step := find_element front (bodyBytes rest ++ back) e
      rw [if_neg other] at step
      rw [Nat.add_assoc] at step
      rw [Item.bytes, List.length_cons, Nat.add_comm e.value.length]
      exact step

theorem find_none {items : List Item} (foreign : ∀ item ∈ items, item.isTwcc = false) :
    findTwccElement (bodyBytes items) 0 = none := by
  have skip := find_skip foreign [] []
  rw [List.append_nil, List.nil_append, List.length_nil, Nat.zero_add, find_end] at skip
  exact skip

theorem find_some {before after : List Item} {e : Element} (foreign : ∀ item ∈ before, item.isTwcc = false)
    (ours : e.isTwcc = true) :
    findTwccElement (bodyBytes (before ++ .element e :: after)) 0 = some ((bodyBytes before).length + 1) := by
  have skip := find_skip foreign [] (bodyBytes (.element e :: after))
  rw [List.nil_append, List.length_nil, Nat.zero_add] at skip
  rw [bodyBytes_append, skip, bodyBytes_cons]
  have hit := find_element (bodyBytes before) (bodyBytes after) e
  rw [if_pos ours] at hit
  exact hit

/-! ## Our element -/

def ours (sequence : BitVec 16) : Element where
  id := kTwccExtensionId
  value := u16Bytes sequence
  named := by decide
  short := ⟨by simp [u16Bytes], by simp [u16Bytes]⟩

theorem ours_header (sequence : BitVec 16) : (ours sequence).header = elementHeader := by
  change BitVec.ofNat 8 (kTwccExtensionId * 16 + (2 - 1)) = elementHeader
  decide

theorem ours_isTwcc (sequence : BitVec 16) : (ours sequence).isTwcc = true := rfl

theorem bodyBytes_ours (before after : List Item) (sequence : BitVec 16) :
    bodyBytes (before ++ .element (ours sequence) :: after) =
      bodyBytes before ++ (elementHeader :: (u16Bytes sequence ++ bodyBytes after)) := by
  rw [bodyBytes_append, bodyBytes_cons, Item.bytes, ours_header]
  rfl

theorem bodyBytes_alone (sequence : BitVec 16) :
    bodyBytes [.element (ours sequence), .padding] = elementHeader :: (u16Bytes sequence ++ [0]) :=
  bodyBytes_ours [] [.padding] sequence

/-- The number in our element does not change the length of the body. -/
theorem length_ours (before after : List Item) (first sequence : BitVec 16) :
    (bodyBytes (before ++ .element (ours sequence) :: after)).length =
      (bodyBytes (before ++ .element (ours first) :: after)).length := by
  rw [bodyBytes_ours, bodyBytes_ours]
  simp only [List.length_append, List.length_cons, u16Bytes]

theorem whole_ours {before after : List Item} {first : BitVec 16} (sequence : BitVec 16)
    (whole : Whole (before ++ .element (ours first) :: after)) : Whole (before ++ .element (ours sequence) :: after) := by
  unfold Whole words
  rw [length_ours before after first]
  exact whole

theorem whole_alone (sequence : BitVec 16) : Whole [.element (ours sequence), .padding] := by
  unfold Whole words
  rw [bodyBytes_alone]
  simp [u16Bytes]

/-- A body with room for one more word takes our element and its padding. -/
theorem whole_append {items : List Item} (whole : Whole items) (room : words items < 65535) (sequence : BitVec 16) :
    Whole (items ++ [.element (ours sequence), .padding]) := by
  obtain ⟨aligned, -⟩ := whole
  unfold Whole words at *
  rw [bodyBytes_append, bodyBytes_alone]
  simp only [List.length_append, List.length_cons, List.length_nil, u16Bytes]
  omega

theorem eq_ours {e : Element} (twcc : e.isTwcc = true) : ∃ sequence, e = ours sequence := by
  obtain ⟨id, value, named, short⟩ := e
  obtain ⟨rfl, two⟩ : id = kTwccExtensionId ∧ value.length = 2 := of_decide_eq_true twcc
  obtain ⟨high, low, rfl⟩ := List.length_eq_two.mp two
  refine ⟨high ++ low, ?_⟩
  have bytes : u16Bytes (high ++ low) = [high, low] := by
    rw [u16Bytes, BitVec.extractLsb'_append_eq_left, BitVec.extractLsb'_append_eq_right]
  simp only [ours, bytes]

/-! ## A packet with an extension -/

/-- What the first byte says about the length of the header. -/
structure Headed (head : List Byte) : Prop where
  nonempty : head ≠ []
  version : head.getD 0 0 >>> 6 = 2
  flagged : head.getD 0 0 &&& 0x10 ≠ 0
  size : head.length = 12 + (head.getD 0 0 &&& 0x0f).toNat * 4

def infoOf (head : List Byte) (items : List Item) : RtpHeaderInfo where
  headerSize := head.length
  extBodyOffset := head.length + 4
  extBodySize := (bodyBytes items).length
  hasExtension := true

section
variable {head : List Byte} {items : List Item} {payload : List Byte}

theorem inspect_layout (headed : Headed head) (whole : Whole items) :
    inspectRtpHeader (layout head items payload) = some (infoOf head items) := by
  obtain ⟨nonempty, version, flagged, size⟩ := headed
  obtain ⟨first, rest, rfl⟩ := List.exists_cons_of_ne_nil nonempty
  have count : (bodyBytes items).length = (BitVec.ofNat 16 (words items)).toNat * 4 := by
    obtain ⟨aligned, small⟩ := whole
    rw [BitVec.toNat_ofNat, Nat.mod_eq_of_lt small, words]
    omega
  exact inspect_extended version flagged size count

theorem profile_layout : u16At (layout head items payload) head.length = kOneByteHeaderProfile :=
  u16At_bytes head _ kOneByteHeaderProfile

theorem body_layout : (infoOf head items).body (layout head items payload) = bodyBytes items := by
  have front : layout head items payload =
      head ++ (u16Bytes kOneByteHeaderProfile ++ u16Bytes (BitVec.ofNat 16 (words items))) ++
        (bodyBytes items ++ payload) := by
    simp only [layout, List.append_assoc]
  have length : (head ++ (u16Bytes kOneByteHeaderProfile ++ u16Bytes (BitVec.ofNat 16 (words items)))).length =
      head.length + 4 := by
    rw [List.length_append]
    rfl
  rw [RtpHeaderInfo.body, infoOf, front, ← length, List.drop_left, List.take_left]

theorem extract_layout (headed : Headed head) (whole : Whole items) :
    extractTwccSequence (layout head items payload) =
      (findTwccElement (bodyBytes items) 0).map fun offset =>
        u16At (layout head items payload) (head.length + 4 + offset) := by
  have here : ¬((infoOf head items).hasExtension = false ∨
      u16At (layout head items payload) (infoOf head items).headerSize ≠ kOneByteHeaderProfile) := by
    rintro (plain | other)
    · cases plain
    · exact other profile_layout
  unfold extractTwccSequence
  rw [inspect_layout headed whole]
  dsimp only
  rw [if_neg here, body_layout]
  rfl

theorem stamp_layout (headed : Headed head) (whole : Whole items) (next out : BitVec 16) :
    stamp ⟨next, layout head items payload, out⟩ = (true, {
      nextSequence := next + 1
      packet := match findTwccElement (bodyBytes items) 0 with
        | some existing => writeU16 (layout head items payload) (head.length + 4 + existing) next
        | none => appendElement (layout head items payload) (infoOf head items) next
      outSequence := next }) := by
  unfold stamp
  dsimp only
  rw [inspect_layout headed whole]
  dsimp only
  rw [if_pos (show (infoOf head items).hasExtension = true from rfl),
    if_pos (show u16At _ (infoOf head items).headerSize = _ from profile_layout), body_layout]
  rfl

variable (payload) in
/-- An element that is ours is overwritten in place, whatever it says. -/
theorem overwrite {before after : List Item} (foreign : ∀ item ∈ before, item.isTwcc = false) (headed : Headed head)
    {first : BitVec 16} (whole : Whole (before ++ .element (ours first) :: after)) :
    ∃ front back, ∀ sequence,
      layout head (before ++ .element (ours sequence) :: after) payload = front ++ (u16Bytes sequence ++ back) ∧
        extractTwccSequence (front ++ (u16Bytes sequence ++ back)) = some sequence ∧
        ∀ next out, stamp ⟨next, front ++ (u16Bytes sequence ++ back), out⟩ =
          (true, ⟨next + 1, front ++ (u16Bytes next ++ back), next⟩) := by
  have wholes := fun sequence => whole_ours sequence whole
  let front := head ++ (u16Bytes kOneByteHeaderProfile ++
    (u16Bytes (BitVec.ofNat 16 (words (before ++ .element (ours first) :: after))) ++
      (bodyBytes before ++ [elementHeader])))
  have front_length : head.length + 4 + ((bodyBytes before).length + 1) = front.length := by
    simp only [front, List.length_append, u16Bytes, List.length_cons, List.length_nil]
    omega
  have shape : ∀ sequence, layout head (before ++ .element (ours sequence) :: after) payload =
      front ++ (u16Bytes sequence ++ (bodyBytes after ++ payload)) := by
    intro sequence
    rw [layout, words, length_ours before after first, ← words, bodyBytes_ours]
    simp only [front, List.append_assoc, List.cons_append, List.nil_append]
  refine ⟨front, bodyBytes after ++ payload, fun sequence => ⟨shape sequence, ?_, fun next out => ?_⟩⟩
  · rw [← shape, extract_layout headed (wholes sequence), find_some foreign (ours_isTwcc sequence), Option.map_some,
      front_length, shape, u16At_bytes]
  · rw [← shape, stamp_layout headed (wholes sequence), find_some foreign (ours_isTwcc sequence)]
    dsimp only
    have written : writeU16 (front ++ (u16Bytes sequence ++ (bodyBytes after ++ payload))) front.length next =
        front ++ (u16Bytes next ++ (bodyBytes after ++ payload)) := writeU16_at next rfl rfl
    rw [front_length, shape, written]

/-- Four zeros become a word with our element and its padding. -/
theorem write_element {data front back : List Byte} {i : Nat} (next : BitVec 16)
    (shape : data = front ++ (0 :: 0 :: 0 :: 0 :: back)) (here : i = front.length) :
    (writeU16 (data.set i elementHeader) (i + 1) next).set (i + 3) 0 =
      front ++ (elementHeader :: (u16Bytes next ++ 0 :: back)) := by
  subst shape here
  have headed : (front ++ (0 :: 0 :: 0 :: 0 :: back)).set front.length elementHeader =
      front ++ [elementHeader] ++ (0 :: 0 :: 0 :: back) := by
    rw [set_at elementHeader rfl rfl, List.append_assoc]
    rfl
  have sequenced : writeU16 (front ++ [elementHeader] ++ (0 :: 0 :: 0 :: back)) (front.length + 1) next =
      front ++ [elementHeader] ++ u16Bytes next ++ (0 :: back) := by
    rw [writeU16_at next rfl (by simp), List.append_assoc _ (u16Bytes next)]
  rw [headed, sequenced, set_at 0 rfl (by simp [u16Bytes])]
  simp only [List.append_assoc, List.cons_append, List.nil_append]

/-- A word more in the extension. -/
theorem append_layout (whole : (bodyBytes items).length % 4 = 0) (next : BitVec 16) :
    appendElement (layout head items payload) (infoOf head items) next =
      layout head (items ++ [.element (ours next), .padding]) payload := by
  have grown : bodyBytes (items ++ [.element (ours next), .padding]) =
      bodyBytes items ++ (elementHeader :: (u16Bytes next ++ [0])) := bodyBytes_ours items [.padding] next
  have count : words (items ++ [.element (ours next), .padding]) = (bodyBytes items).length / 4 + 1 := by
    rw [words, grown]
    simp only [List.length_append, List.length_cons, u16Bytes, List.length_nil]
    omega
  let front := head ++ u16Bytes kOneByteHeaderProfile
  let field := BitVec.ofNat 16 ((bodyBytes items).length / 4 + 1)
  let old := front ++ (u16Bytes (BitVec.ofNat 16 (words items)) ++ bodyBytes items)
  let new := front ++ (u16Bytes field ++ bodyBytes items)
  have position : head.length + 4 + (bodyBytes items).length = new.length := by
    simp only [new, front, List.length_append, u16Bytes, List.length_cons, List.length_nil]
    omega
  have inserted : insertZeros (layout head items payload) new.length 4 = old ++ (List.replicate 4 0 ++ payload) := by
    refine insertZeros_at 4 ?_ ?_
    · simp only [layout, old, front, List.append_assoc]
    · simp only [new, old, List.length_append, u16Bytes, List.length_cons]
  have counted : writeU16 (old ++ (List.replicate 4 0 ++ payload)) (head.length + 2) field =
      new ++ (0 :: 0 :: 0 :: 0 :: payload) := by
    have shape : old ++ (List.replicate 4 0 ++ payload) =
        front ++ (u16Bytes (BitVec.ofNat 16 (words items)) ++ (bodyBytes items ++ (List.replicate 4 0 ++ payload))) := by
      simp only [old, List.append_assoc]
    rw [writeU16_at field shape (by simp [front, u16Bytes])]
    simp only [new, List.append_assoc]
    rfl
  unfold appendElement infoOf
  dsimp only
  rw [position, inserted, counted, write_element next rfl rfl, layout, count, grown]
  simp only [new, front, field, List.append_assoc, List.cons_append, List.nil_append]

end

/-! ## A packet without an extension -/

theorem insert_plain (first : Byte) (tail payload : List Byte) (next : BitVec 16) :
    insertExtension (first :: tail ++ payload) { headerSize := (first :: tail).length, hasExtension := false } next =
      layout ((first ||| 0x10) :: tail) [.element (ours next), .padding] payload := by
  have count : words [.element (ours next), .padding] = 1 := by
    rw [words, bodyBytes_alone]
    simp [u16Bytes]
  let head := (first ||| 0x10) :: tail
  have flagged : (first :: tail ++ payload).set 0 ((first :: tail ++ payload).getD 0 0 ||| 0x10) = head ++ payload := rfl
  have inserted : insertZeros (head ++ payload) head.length 8 = head ++ (List.replicate 8 0 ++ payload) :=
    insertZeros_at 8 rfl rfl
  have profiled : writeU16 (head ++ (List.replicate 8 0 ++ payload)) head.length kOneByteHeaderProfile =
      head ++ u16Bytes kOneByteHeaderProfile ++ (List.replicate 6 0 ++ payload) := by
    rw [List.append_assoc]
    exact writeU16_at kOneByteHeaderProfile rfl rfl
  have counted : writeU16 (head ++ u16Bytes kOneByteHeaderProfile ++ (List.replicate 6 0 ++ payload)) (head.length + 2) 1 =
      head ++ u16Bytes kOneByteHeaderProfile ++ u16Bytes 1 ++ (0 :: 0 :: 0 :: 0 :: payload) := by
    rw [List.append_assoc _ (u16Bytes 1)]
    exact writeU16_at 1 rfl (by simp [u16Bytes])
  have length : (first :: tail).length = head.length := rfl
  unfold insertExtension
  dsimp only
  rw [flagged, length, inserted, profiled, counted, write_element next rfl (by simp [u16Bytes]), layout, count,
    bodyBytes_alone]
  simp only [head, List.append_assoc, List.cons_append, List.nil_append]
  rfl

/-! ## One stamp -/

theorem first_flagged (first : Byte) :
    (first >>> 6 = 2 → (first ||| 0x10) >>> 6 = 2) ∧ (first ||| 0x10) &&& 0x10 ≠ 0 ∧
      (first ||| 0x10) &&& 0x0f = first &&& 0x0f := by
  revert first
  decide +kernel

namespace RtpPacket

def head (packet : RtpPacket) : List Byte := (packet.first ||| 0x10) :: (packet.rest ++ packet.csrcs)

theorem length_tail (packet : RtpPacket) (first : Byte) :
    (first :: (packet.rest ++ packet.csrcs)).length = 12 + (packet.first &&& 0x0f).toNat * 4 := by
  rw [List.length_cons, List.length_append, packet.fixed, packet.listed]
  omega

theorem headed (packet : RtpPacket) : Headed packet.head := by
  obtain ⟨version, flagged, count⟩ := first_flagged packet.first
  refine ⟨List.cons_ne_nil _ _, version packet.version, flagged, ?_⟩
  change packet.head.length = 12 + ((packet.first ||| 0x10) &&& 0x0f).toNat * 4
  rw [count]
  exact packet.length_tail _

/-- The packet with another extension. -/
def extend (packet : RtpPacket) (items : List Item) (whole : Whole items) : RtpPacket :=
  { packet with extension := some items, whole := fun _ member => Option.some.inj member ▸ whole }

/-- Apart from our element, the packet is the same. -/
def Same (packet stamped : RtpPacket) : Prop :=
  stamped.first = packet.first ∧ stamped.rest = packet.rest ∧ stamped.csrcs = packet.csrcs ∧
    stamped.others = packet.others ∧ stamped.payload = packet.payload

end RtpPacket

theorem elements_foreign {items : List Item} (foreign : ∀ item ∈ items, item.isTwcc = false) :
    ∀ e ∈ elements items, ¬e.isTwcc = true := by
  intro e member twcc
  obtain ⟨item, listed, same⟩ := List.mem_filterMap.mp member
  cases item with
  | padding => cases same
  | element other =>
    cases Option.some.inj same
    exact Bool.false_ne_true ((foreign _ listed).symm.trans twcc)

/-- The elements around ours. -/
theorem others_of_split {before after : List Item} (foreign : ∀ item ∈ before, item.isTwcc = false) (sequence : BitVec 16) :
    (elements (before ++ .element (ours sequence) :: after)).eraseP Element.isTwcc = elements before ++ elements after := by
  have split : elements (before ++ .element (ours sequence) :: after) =
      elements before ++ (ours sequence :: elements after) := List.filterMap_append
  rw [split, List.eraseP_append_right _ (elements_foreign foreign), List.eraseP_cons_of_pos (ours_isTwcc sequence)]

/-- A stamped packet has our element behind elements that are not ours. -/
theorem stamp_split (packet : RtpPacket) (room : ∀ items ∈ packet.extension, words items < 65535) (next out : BitVec 16) :
    ∃ before after, (∀ item ∈ before, item.isTwcc = false) ∧
      ∃ whole : Whole (before ++ .element (ours next) :: after),
        stamp ⟨next, packet.bytes, out⟩ = (true, ⟨next + 1, (packet.extend _ whole).bytes, next⟩) ∧
          packet.others = elements before ++ elements after := by
  rcases shape : packet.extension with _ | items
  · have plain : packet.bytes = packet.first :: (packet.rest ++ packet.csrcs) ++ packet.payload := by
      rw [RtpPacket.bytes, shape]
    have inspected := inspect_plain packet.version packet.clear (packet.length_tail packet.first) packet.payload
    refine ⟨[], [.padding], fun _ member => (List.not_mem_nil member).elim, whole_alone next, ?_, ?_⟩
    · unfold stamp
      dsimp only
      rw [plain, inspected]
      dsimp only
      rw [if_neg Bool.false_ne_true, insert_plain]
      rfl
    · rw [RtpPacket.others, shape]
      rfl
  · have whole := packet.whole items shape
    have bytes : packet.bytes = layout packet.head items packet.payload := by
      rw [RtpPacket.bytes, shape]
      rfl
    have others : packet.others = (elements items).eraseP Element.isTwcc := by
      rw [RtpPacket.others, shape]
      rfl
    rcases found : items.find? Item.isTwcc with _ | item
    · have foreign : ∀ item ∈ items, item.isTwcc = false := by
        intro item member
        rw [← Bool.not_eq_true]
        exact List.find?_eq_none.mp found item member
      refine ⟨items, [.padding], foreign, whole_append whole (room items shape) next, ?_, ?_⟩
      · rw [bytes, stamp_layout packet.headed whole, find_none foreign]
        dsimp only
        rw [append_layout whole.1]
        rfl
      · rw [others, List.eraseP_of_forall_not (elements_foreign foreign)]
        exact (List.append_nil _).symm
    · obtain ⟨twcc, before, after, rfl, clear⟩ := List.find?_eq_some_iff_append.mp found
      have foreign : ∀ item ∈ before, item.isTwcc = false := by
        intro item member
        simpa using clear item member
      cases item with
      | padding => cases twcc
      | element e =>
        obtain ⟨sequence, rfl⟩ := eq_ours twcc
        obtain ⟨front, back, written⟩ := overwrite packet.payload foreign packet.headed whole
        refine ⟨before, after, foreign, whole_ours next whole, ?_, ?_⟩
        · rw [bytes, (written sequence).1, (written sequence).2.2, ← (written next).1]
          rfl
        · rw [others, others_of_split foreign]

/-- A stamp can be read back, a second one changes only the number, and a refused packet stays. -/
theorem stamp_readable (packet : RtpPacket) (room : ∀ items ∈ packet.extension, words items < 65535)
    (next out : BitVec 16) (s : Stamping) :
    (∃ stamped : RtpPacket,
      stamp ⟨next, packet.bytes, out⟩ = (true, ⟨next + 1, stamped.bytes, next⟩) ∧
      extractTwccSequence stamped.bytes = some next ∧
      packet.Same stamped ∧
      ∃ front back, stamped.bytes = front ++ (u16Bytes next ++ back) ∧ ∀ later reported,
        stamp ⟨later, stamped.bytes, reported⟩ = (true, ⟨later + 1, front ++ (u16Bytes later ++ back), later⟩) ∧
        extractTwccSequence (front ++ (u16Bytes later ++ back)) = some later) ∧
    ((stamp s).1 = false → (stamp s).2 = s) := by
  constructor
  · obtain ⟨before, after, foreign, whole, stamped, others⟩ := stamp_split packet room next out
    obtain ⟨front, back, written⟩ := overwrite packet.payload foreign packet.headed whole
    obtain ⟨bytes, read, restamp⟩ := written next
    have bytes' : (packet.extend _ whole).bytes = front ++ (u16Bytes next ++ back) := bytes
    refine ⟨packet.extend _ whole, stamped, ?_, ⟨rfl, rfl, rfl, ?_, rfl⟩, front, back, bytes, fun later reported => ⟨?_, ?_⟩⟩
    · rw [bytes', read]
    · rw [others]
      exact others_of_split foreign next
    · rw [bytes', restamp]
    · exact (written later).2.1
  · intro refused
    revert refused
    unfold stamp
    rcases inspectRtpHeader s.packet with _ | info
    · exact fun _ => rfl
    · dsimp only
      split
      · split
        · exact fun accepted => nomatch accepted
        · exact fun _ => rfl
      · exact fun accepted => nomatch accepted

/-- Three elements, one of them with our id and another length. -/
theorem stamp_third :
    ∃ packet : RtpPacket, ∃ stamped : RtpPacket,
      stamp ⟨7, packet.bytes, 0⟩ = (true, ⟨8, stamped.bytes, 7⟩) ∧ extractTwccSequence stamped.bytes = some 7 := by
  let packet : RtpPacket := {
    first := 0x81, rest := List.replicate 11 0, csrcs := List.replicate 4 1
    extension := some [
      .element ⟨1, [5], by decide, by decide⟩, .element ⟨3, [6, 6, 6], by decide, by decide⟩, .padding,
      .element ⟨14, [1, 2, 3, 4], by decide, by decide⟩]
    payload := [9, 9], version := by decide, clear := by decide, fixed := by decide, listed := by decide
    whole := by rintro _ ⟨⟩; exact ⟨by decide, by decide⟩ }
  have room : ∀ items ∈ packet.extension, words items < 65535 := by
    rintro _ ⟨⟩
    decide
  obtain ⟨⟨stamped, result, read, -⟩, -⟩ := stamp_readable packet room 7 0 ⟨0, [], 0⟩
  exact ⟨packet, stamped, result, read⟩

end Mello.Transport.TwccStamp
