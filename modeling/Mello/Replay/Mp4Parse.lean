import Mello.Replay.Mp4Demux
import Mello.Replay.Mp4Write

/-!
The boxes of a clip read back: each box that the writer makes is parsed to what the
writer put in it.
-/

namespace Mello.Replay.Mp4Parse
open Mello.Library BigEndian Mp4Box Mp4Demux Mp4Write

/-! ## Fields -/

section Fields

variable {front rest : List Byte} {count value : Nat}

theorem skip_append (width : front.length = count) : Cursor.skip { rest := front ++ rest } count = { rest } := by
  have inside : ¬Cursor.left { rest := front ++ rest } < count := by
    change ¬(front ++ rest).length < count
    rw [List.length_append]
    omega
  unfold Cursor.skip
  rw [if_neg inside, List.drop_left' width]

theorem take_append (width : front.length = count) :
    Cursor.take { rest := front ++ rest } count = (number front, { rest }) := by
  have inside : count ≤ Cursor.left { rest := front ++ rest } := by
    change count ≤ (front ++ rest).length
    rw [List.length_append]
    omega
  unfold Cursor.take
  rw [dif_pos inside, skip_append width]
  unfold Cursor.here slice
  rw [List.drop_zero, List.take_left' width]

theorem take_digits (fits : value < 256 ^ count) :
    Cursor.take { rest := digits count value ++ rest } count = (value, { rest }) := by
  rw [take_append (length_digits count value), number_digits fits]

theorem u8_digits (fits : value < 256) : Cursor.u8 { rest := u8 value ++ rest } = (value, { rest }) := take_digits fits

theorem u16_digits (fits : value < 2 ^ 16) : Cursor.u16 { rest := u16 value ++ rest } = (value, { rest }) :=
  take_digits fits

theorem u32_digits (fits : value < 2 ^ 32) : Cursor.u32 { rest := u32 value ++ rest } = (value, { rest }) :=
  take_digits fits

/-- The version and the flags, read at once. -/
theorem u32_version (version flags : Nat) :
    Cursor.u32 { rest := digits 1 version ++ (digits 3 flags ++ rest) } =
      (number (digits 1 version ++ digits 3 flags), { rest }) := by
  unfold Cursor.u32
  rw [← List.append_assoc]
  exact take_append (by rw [List.length_append, length_digits, length_digits])

theorem u8_version {version : Nat} (fits : version < 256) :
    Cursor.u8 { rest := digits 1 version ++ rest } = (version, { rest }) := take_digits fits

theorem u24_flags {flags : Nat} (fits : flags < 256 ^ 3) :
    Cursor.u24 { rest := digits 3 flags ++ rest } = (flags, { rest }) := take_digits fits

/-- The creation and the modification time of a version 0 box. -/
theorem skip_times (created modified : Nat) :
    Cursor.skip { rest := u32 created ++ (u32 modified ++ rest) } 8 = { rest } := by
  rw [← List.append_assoc]
  exact skip_append (by rw [List.length_append, u32, u32, length_digits, length_digits])

end Fields

/-! ## Headers -/

/-- A box with a version and flags, as the walk hands it on. -/
def fullBody (version flags : Nat) (body : List Byte) : List Byte := digits 1 version ++ (digits 3 flags ++ body)

section Headers

variable {t : Mp4Track}

theorem parseTkhd_tkhd {trackId : Nat} (fits : trackId < 2 ^ 32) (rest : List Byte) :
    parseTkhd (fullBody 0 3 (u32 0 ++ (u32 0 ++ (u32 trackId ++ rest)))) t = (true, { t with trackId }) := by
  unfold parseTkhd fullBody
  rw [u8_version (by decide)]
  dsimp only
  rw [u24_flags (by decide)]
  dsimp only
  rw [if_neg (by decide), skip_times, u32_digits fits]
  rfl

theorem parseMdhd_mdhd {scale : Nat} (fits : scale < 2 ^ 32) (rest : List Byte) :
    parseMdhd (fullBody 0 0 (u32 0 ++ (u32 0 ++ (u32 scale ++ rest)))) t = { t with timescale := scale } := by
  unfold parseMdhd fullBody
  rw [u8_version (by decide)]
  dsimp only
  rw [u24_flags (by decide)]
  dsimp only
  rw [if_neg (by decide), skip_times, u32_digits fits]

theorem parseHdlr_hdlr {handler : Nat} (fits : handler < 2 ^ 32) (rest : List Byte) :
    parseHdlr (fullBody 0 0 (u32 0 ++ (u32 handler ++ rest))) t =
      if handler = fourcc 'v' 'i' 'd' 'e' then { t with kind := .video }
      else if handler = fourcc 's' 'o' 'u' 'n' then { t with kind := .audio }
      else t := by
  unfold parseHdlr fullBody
  rw [u32_version]
  dsimp only
  rw [u32_digits (by decide)]
  dsimp only
  rw [u32_digits fits]

/-- The one edit gives the start of play. -/
theorem edtsBox_elst {duration mediaTime : Nat} (lasts : duration < 2 ^ 32) (starts : mediaTime < 2 ^ 31)
    (s : Bool × Mp4Track) :
    edtsBox s ⟨fourcc 'e' 'l' 's' 't', fullBody 0 0 (u32 1 ++ (u32 duration ++ (u32 mediaTime ++ u32 0x00010000)))⟩ =
      (true, { s.2 with editMediaTime := mediaTime }) := by
  have media : (BitVec.ofNat 32 mediaTime).toInt = mediaTime := by
    rw [BitVec.toInt_ofNat']
    exact Int.bmod_eq_of_le (by omega) (by omega)
  have first : elstStart 0 1 { rest := u32 duration ++ (u32 mediaTime ++ u32 0x00010000) } = some (mediaTime : Int) := by
    unfold elstStart
    simp only [Bool.false_eq_true, zero_ne_one, ↓reduceIte]
    rw [u32_digits lasts]
    dsimp only
    rw [u32_digits (starts.trans (by decide))]
    dsimp only
    rw [media, if_pos (Int.natCast_nonneg _)]
  unfold edtsBox fullBody
  rw [if_neg (not_not.mpr rfl), u8_version (by decide)]
  dsimp only
  rw [u24_flags (by decide)]
  dsimp only
  rw [u32_digits (by decide)]
  dsimp only
  rw [first]

end Headers

/-! ## The walk -/

section Walk

variable {State : Type} {fn : State → BoxRef → State} {type : Nat} {body : List Byte}

theorem forEachBox_nil (s : State) : forEachBox fn [] s = (true, s) := by
  unfold forEachBox
  rw [boxesOf_nil]
  rfl

theorem forEachBox_box (named : type < 2 ^ 32) (fits : 8 + body.length < 2 ^ 32) (rest : List Byte) (s : State) :
    forEachBox fn (box type body ++ rest) s = forEachBox fn rest (fn s ⟨type, body⟩) := by
  unfold forEachBox
  rw [boxesOf_box rest named fits]
  rfl

theorem forEachBox_fullBox (version flags : Nat) (named : type < 2 ^ 32) (fits : 12 + body.length < 2 ^ 32)
    (rest : List Byte) (s : State) :
    forEachBox fn (fullBox type version flags body ++ rest) s =
      forEachBox fn rest (fn s ⟨type, fullBody version flags body⟩) := by
  apply forEachBox_box named
  rw [List.length_append, List.length_append, length_digits, length_digits]
  omega

/-- The last box. -/
theorem forEachBox_last (named : type < 2 ^ 32) (fits : 8 + body.length < 2 ^ 32) (s : State) :
    forEachBox fn (box type body) s = (true, fn s ⟨type, body⟩) := by
  rw [← List.append_nil (box type body), forEachBox_box named fits, forEachBox_nil]

end Walk

/-! ## The sample entry -/

section SampleEntry

variable {t : Mp4Track} {sps pps : List Byte}

theorem parameterSets_one {set : List Byte} (some : set ≠ []) (fits : set.length < 2 ^ 16) (rest : List Byte)
    (sets : List (List Byte)) :
    parameterSets 1 { rest := u16 set.length ++ (set ++ rest) } sets = (true, { rest }, sets ++ [set]) := by
  have inside : set.length ≤ Cursor.left { rest := set ++ rest } := by
    change set.length ≤ (set ++ rest).length
    rw [List.length_append]
    omega
  have here : Cursor.here { rest := set ++ rest } set.length inside = set := by
    unfold Cursor.here slice
    rw [List.drop_zero, List.take_left' rfl]
  unfold parameterSets
  simp only [Bool.false_eq_true, ↓reduceIte]
  rw [u16_digits fits]
  dsimp only
  rw [if_neg (fun none => some (List.length_eq_zero_iff.mp none)), dif_pos inside, here, skip_append rfl]
  rfl

theorem parseAvcc_avcC (someSps : sps ≠ []) (narrowSps : sps.length < 2 ^ 16) (somePps : pps ≠ [])
    (narrowPps : pps.length < 2 ^ 16) (profile constraints level : Nat) (rest : List Byte) :
    parseAvcc
      (u8 1 ++ (u8 profile ++ u8 constraints ++ u8 level ++ (u8 0xFF ++ (u8 0xE1 ++ (u16 sps.length ++ (sps ++ (u8 1 ++
        (u16 pps.length ++ (pps ++ rest))))))))) t =
      (true, { t with nalLengthSize := 4, sps := t.sps ++ [sps], pps := t.pps ++ [pps] }) := by
  have three : (u8 profile ++ u8 constraints ++ u8 level).length = 3 := by
    simp only [u8, List.length_append, length_digits]
  unfold parseAvcc
  rw [u8_digits (by decide)]
  dsimp only
  rw [if_neg (not_not.mpr rfl), skip_append three, u8_digits (by decide)]
  dsimp only
  rw [u8_digits (by decide)]
  have one : 225 % 32 = 1 := rfl
  simp only [one, parameterSets_one someSps narrowSps]
  rw [if_neg (by decide), u8_digits (by decide)]
  simp only [parameterSets_one somePps narrowPps]
  have four : decide (255 % 4 + 1 ≠ 3) = true := by decide
  rw [if_neg (by decide), four]
  rfl

theorem parseDops_dOps {preSkip : Nat} (narrow : preSkip < 2 ^ 16) :
    parseDops (u8 0 ++ (u8 2 ++ (u16 preSkip ++ (u32 kAudioRate ++ (u16 0 ++ u8 0))))) t =
      (true, { t with channels := 2, preSkip }) := by
  unfold parseDops
  rw [u8_digits (by decide)]
  dsimp only
  rw [if_neg (not_not.mpr rfl), u8_digits (by decide)]
  dsimp only
  rw [u16_digits narrow]
  dsimp only
  rw [u32_digits (by decide)]
  dsimp only
  rw [u16_digits (by decide), ← List.append_nil (u8 0)]
  dsimp only
  rw [u8_digits (by decide)]
  rfl

/-- The fields of a visual sample entry. -/
def visualFields (m : MovieInfo) : List Byte :=
  zeros 6 ++ u16 1 ++ zeros 16 ++ u16 m.width ++ u16 m.height ++ u32 0x00480000 ++ u32 0x00480000 ++ u32 0 ++ u16 1 ++
    zeros 32 ++ u16 0x0018 ++ u16 0xFFFF

theorem length_visualFields (m : MovieInfo) : (visualFields m).length = kVisual := by
  simp only [visualFields, zeros, u16, u32, List.length_append, length_digits, List.length_replicate]
  rfl

def audioFields : List Byte :=
  zeros 6 ++ u16 1 ++ zeros 8 ++ u16 2 ++ u16 16 ++ u16 0 ++ u16 0 ++ u32 (kAudioRate * 2 ^ 16)

theorem length_audioFields : audioFields.length = kAudio := rfl

/-- What a sample entry makes of the track. -/
def avcTrack (t : Mp4Track) (m : MovieInfo) (width height : Nat) : Mp4Track :=
  { t with
    codec := fourcc 'a' 'v' 'c' '1', supported := true, width, height, nalLengthSize := 4
    sps := t.sps ++ [m.sps], pps := t.pps ++ [m.pps] }

def opusTrack (t : Mp4Track) (preSkip sampleRate : Nat) : Mp4Track :=
  { t with codec := fourcc 'O' 'p' 'u' 's', supported := true, sampleRate, channels := 2, preSkip }

theorem length_avcC (sps pps : List Byte) : (avcC sps pps).length ≤ 23 + sps.length + pps.length := by
  unfold avcC
  rw [length_box]
  simp only [u8, u16, List.length_append, length_digits]
  split_ifs
  · simp only [List.length_append, length_digits]
    omega
  · rw [List.length_nil]
    omega

theorem firstOf_hit (type : Nat) (parse : List Byte → Mp4Track → Bool × Mp4Track) (body : List Byte) (t : Mp4Track) :
    firstOf type parse (false, t) ⟨type, body⟩ = parse body t := if_pos ⟨rfl, rfl⟩

theorem firstOf_miss {type other : Nat} (apart : other ≠ type) (parse : List Byte → Mp4Track → Bool × Mp4Track)
    (body : List Byte) (s : Bool × Mp4Track) : firstOf type parse s ⟨other, body⟩ = s :=
  if_neg fun both => apart both.1

/-- One entry that is there. -/
theorem one_entry (rest : List Byte) : ¬(Cursor.ok { rest } = false ∨ 1 = 0) := by
  rintro (bad | none)
  · cases bad
  · cases none

theorem forEachBox_avcC {m : MovieInfo} (someSps : m.sps ≠ []) (narrowSps : m.sps.length < 2 ^ 16) (somePps : m.pps ≠ [])
    (narrowPps : m.pps.length < 2 ^ 16) :
    forEachBox (firstOf (fourcc 'a' 'v' 'c' 'C') parseAvcc)
        (avcC m.sps m.pps ++ box (fourcc 'p' 'a' 's' 'p') (u32 1 ++ u32 1)) (false, t) =
      (true, true, { t with nalLengthSize := 4, sps := t.sps ++ [m.sps], pps := t.pps ++ [m.pps] }) := by
  have length := length_avcC m.sps m.pps
  unfold avcC at length ⊢
  rw [length_box] at length
  rw [forEachBox_box (by decide) (by omega), forEachBox_last (by decide) (by decide)]
  rw [firstOf_hit, parseAvcc_avcC someSps narrowSps somePps narrowPps, firstOf_miss (by decide)]

/-- The two dimensions of a visual sample entry. -/
theorem be16_visual {m : MovieInfo} (width : m.width < 2 ^ 16) (height : m.height < 2 ^ 16) (rest : List Byte) :
    (∀ inside, be16 (visualFields m ++ rest) 24 inside = m.width) ∧
      ∀ inside, be16 (visualFields m ++ rest) 26 inside = m.height := by
  have front : (zeros 6 ++ u16 1 ++ zeros 16).length = 24 := by
    simp only [zeros, u16, List.length_append, length_digits, List.length_replicate]
  have wide : (zeros 6 ++ u16 1 ++ zeros 16 ++ u16 m.width).length = 26 := by
    rw [List.length_append, front, u16, length_digits]
  constructor
  · intro inside
    unfold be16 slice visualFields
    simp only [List.append_assoc]
    rw [← List.append_assoc (zeros 6), ← List.append_assoc (zeros 6 ++ u16 1), List.drop_left' front]
    exact (congrArg number (List.take_left' (length_digits 2 _))).trans (number_digits width)
  · intro inside
    unfold be16 slice visualFields
    simp only [List.append_assoc]
    rw [← List.append_assoc (zeros 6), ← List.append_assoc (zeros 6 ++ u16 1),
      ← List.append_assoc (zeros 6 ++ u16 1 ++ zeros 16), List.drop_left' wide]
    exact (congrArg number (List.take_left' (length_digits 2 _))).trans (number_digits height)

theorem parseStsd_avc1 {m : MovieInfo} (width : m.width < 2 ^ 16) (height : m.height < 2 ^ 16) (someSps : m.sps ≠ [])
    (narrowSps : m.sps.length < 2 ^ 16) (somePps : m.pps ≠ []) (narrowPps : m.pps.length < 2 ^ 16) :
    parseStsd (fullBody 0 0 (u32 1 ++ avc1 m)) t = (true, avcTrack t m m.width m.height) := by
  have length := length_avcC m.sps m.pps
  have visual : kVisual ≤ (visualFields m ++ (avcC m.sps m.pps ++ box (fourcc 'p' 'a' 's' 'p') (u32 1 ++ u32 1))).length := by
    rw [List.length_append, length_visualFields]
    exact Nat.le_add_right _ _
  obtain ⟨readWidth, readHeight⟩ := be16_visual width height (avcC m.sps m.pps ++ box (fourcc 'p' 'a' 's' 'p') (u32 1 ++ u32 1))
  have entry : stsdEntry (true, true, t)
      ⟨fourcc 'a' 'v' 'c' '1', visualFields m ++ (avcC m.sps m.pps ++ box (fourcc 'p' 'a' 's' 'p') (u32 1 ++ u32 1))⟩ =
      (true, false, avcTrack t m m.width m.height) := by
    unfold stsdEntry
    dsimp only
    rw [if_neg (by decide), if_pos (.inl rfl), dif_pos visual, List.drop_left' (length_visualFields m),
      forEachBox_avcC someSps narrowSps somePps narrowPps, readWidth, readHeight]
    rfl
  unfold parseStsd fullBody
  rw [u32_version]
  dsimp only
  rw [u32_digits (by decide)]
  dsimp only
  rw [if_neg (one_entry _)]
  have body : avc1 m = box (fourcc 'a' 'v' 'c' '1')
      (visualFields m ++ (avcC m.sps m.pps ++ box (fourcc 'p' 'a' 's' 'p') (u32 1 ++ u32 1))) := rfl
  rw [body, forEachBox_last (by decide) ?_, entry]
  rw [List.length_append, List.length_append, length_visualFields, length_box]
  unfold kVisual
  simp only [u32, List.length_append, length_digits]
  omega

theorem parseStsd_opus {m : MovieInfo} (narrow : m.preSkip < 2 ^ 16) :
    parseStsd (fullBody 0 0 (u32 1 ++ opus m)) t = (true, opusTrack t m.preSkip kAudioRate) := by
  have audio : kAudio ≤ (audioFields ++ (dOps m.preSkip ++
      box (fourcc 'b' 't' 'r' 't') (u32 0 ++ u32 m.audioBitrate ++ u32 m.audioBitrate))).length := by
    rw [List.length_append, length_audioFields]
    exact Nat.le_add_right _ _
  have walk : ∀ t, forEachBox (firstOf (fourcc 'd' 'O' 'p' 's') parseDops)
      (dOps m.preSkip ++ box (fourcc 'b' 't' 'r' 't') (u32 0 ++ u32 m.audioBitrate ++ u32 m.audioBitrate)) (false, t) =
      (true, true, { t with channels := 2, preSkip := m.preSkip }) := by
    intro t
    unfold dOps
    rw [forEachBox_box (by decide) ?_, forEachBox_last (by decide) ?_]
    · rw [firstOf_hit, parseDops_dOps narrow, firstOf_miss (by decide)]
    · simp only [u32, List.length_append, length_digits]
      decide
    · simp only [u8, u16, u32, List.length_append, length_digits]
      decide
  have rate : ∀ rest inside, be32 (audioFields ++ rest) 24 inside / 2 ^ 16 = kAudioRate := by
    intro rest inside
    have read : be32 (audioFields ++ rest) 24 inside = kAudioRate * 2 ^ 16 := by
      have front : (zeros 6 ++ u16 1 ++ zeros 8 ++ u16 2 ++ u16 16 ++ u16 0 ++ u16 0).length = 24 := by decide
      unfold be32 slice audioFields
      rw [List.append_assoc, List.drop_left' front]
      exact (congrArg number (List.take_left' (length_digits 4 _))).trans (number_digits (by decide))
    rw [read]
    decide
  have entry : stsdEntry (true, true, t)
      ⟨fourcc 'O' 'p' 'u' 's', audioFields ++ (dOps m.preSkip ++
        box (fourcc 'b' 't' 'r' 't') (u32 0 ++ u32 m.audioBitrate ++ u32 m.audioBitrate))⟩ =
      (true, false, opusTrack t m.preSkip kAudioRate) := by
    unfold stsdEntry
    dsimp only
    rw [if_neg (by decide), if_neg (by decide), if_pos rfl, dif_pos audio, List.drop_left' length_audioFields, walk, rate _ audio]
    rfl
  unfold parseStsd fullBody
  rw [u32_version]
  dsimp only
  rw [u32_digits (by decide)]
  dsimp only
  rw [if_neg (one_entry _)]
  have body : opus m = box (fourcc 'O' 'p' 'u' 's') (audioFields ++ (dOps m.preSkip ++
      box (fourcc 'b' 't' 'r' 't') (u32 0 ++ u32 m.audioBitrate ++ u32 m.audioBitrate))) := rfl
  rw [body, forEachBox_last (by decide) ?_, entry]
  unfold dOps
  rw [List.length_append, List.length_append, length_audioFields, length_box, length_box]
  simp only [u8, u16, u32, List.length_append, length_digits]
  decide

end SampleEntry

/-! ## The sample tables -/

section Rows

variable {Row Value : Type} {entry : Cursor → Value × Cursor} {row : Row → List Byte} {value : Row → Value}

theorem entries_rows {rows : List Row} (reads : ∀ r ∈ rows, ∀ rest, entry { rest := row r ++ rest } = (value r, { rest }))
    (rest : List Byte) : entries entry rows.length { rest := rows.flatMap row ++ rest } = (rows.map value, { rest }) := by
  induction rows with
  | nil => rfl
  | cons r others ih =>
    rw [List.flatMap_cons, List.append_assoc, List.length_cons, entries, reads r List.mem_cons_self]
    dsimp only
    rw [ih fun other member => reads other (List.mem_cons_of_mem r member)]
    rfl

theorem length_rows {width : Nat} {rows : List Row} (wide : ∀ r, (row r).length = width) :
    (rows.flatMap row).length = rows.length * width := by
  induction rows with
  | nil => rw [List.flatMap_nil, List.length_nil, List.length_nil, Nat.zero_mul]
  | cons r others ih => rw [List.flatMap_cons, List.length_append, wide, ih, List.length_cons, Nat.succ_mul, Nat.add_comm]

/-- A table is read back row by row. -/
theorem tableOf_rows {width : Nat} (positive : 0 < width) {rows : List Row} (wide : ∀ r, (row r).length = width)
    (few : rows.length < 2 ^ 32) (reads : ∀ r ∈ rows, ∀ rest, entry { rest := row r ++ rest } = (value r, { rest })) :
    tableOf width entry (fullBody 0 0 (u32 rows.length ++ rows.flatMap row)) = some (rows.map value, { rest := [] }) := by
  have room : rows.length ≤ Cursor.left { rest := rows.flatMap row } / width := by
    change _ ≤ (rows.flatMap row).length / width
    rw [length_rows wide, Nat.mul_div_cancel _ positive]
  have read := entries_rows reads []
  rw [List.append_nil] at read
  unfold tableOf fullBody
  rw [u32_version]
  dsimp only
  rw [u32_digits few]
  dsimp only
  rw [if_neg (not_lt.mpr room), read]

theorem length_table (type : Nat) {width : Nat} {rows : List Row} (wide : ∀ r, (row r).length = width) :
    (table type rows row).length = 16 + rows.length * width := by
  unfold table
  rw [length_fullBox, List.length_append, length_rows wide, u32, length_digits]
  omega

end Rows

/-- The numbers of a written track fit their fields. -/
structure Narrow (written : Mp4Write.Track) (base : Nat) : Prop where
  durations : ∀ r ∈ written.durations, r.count < 2 ^ 32 ∧ r.value < 2 ^ 32
  sync : ∀ index ∈ written.sync, index < 2 ^ 32
  stsc : ∀ e ∈ stscOf 0 none written.chunkSamples, e.1 < 2 ^ 32 ∧ e.2 < 2 ^ 32
  sizes : ∀ size ∈ written.sizes, size < 2 ^ 32
  chunkAt : ∀ offset ∈ written.chunkAt, base + offset < 2 ^ 32
  few : written.sizes.length ≤ kMaxSamples
  small : (writeStblTables written base).length < 2 ^ 32

/-- The tables that the boxes of a written track are read into. -/
def tablesRead (written : Mp4Write.Track) (base : Nat) : Tables where
  stts := written.durations.map fun r => (r.count, r.value)
  stss := written.sync
  hasStss := written.sync ≠ []
  stsc := (stscOf 0 none written.chunkSamples).map fun e => ⟨e.1, e.2⟩
  stszFixed := 0
  stszCount := written.sizes.length
  stsz := written.sizes
  chunks := written.chunkAt.map (base + ·)

section Tables

variable {t : Mp4Track} {tab : Tables}

theorem length_u32 (v : Nat) : (u32 v).length = 4 := length_digits 4 v

theorem length_pair (a b : Nat) : (u32 a ++ u32 b).length = 8 := by
  simp only [u32, List.length_append, length_digits]

theorem length_triple (a b c : Nat) : (u32 a ++ (u32 b ++ u32 c)).length = 12 := by
  simp only [u32, List.length_append, length_digits]

theorem stblBox_stts {rows : List Run} (few : rows.length < 2 ^ 32)
    (narrow : ∀ r ∈ rows, r.count < 2 ^ 32 ∧ r.value < 2 ^ 32) :
    stblBox (true, t, tab) ⟨fourcc 's' 't' 't' 's', fullBody 0 0 (u32 rows.length ++
      rows.flatMap fun r => u32 r.count ++ u32 r.value)⟩ =
      (true, t, { tab with stts := tab.stts ++ rows.map fun r => (r.count, r.value) }) := by
  have read : tableOf 8 sttsEntry (fullBody 0 0 (u32 rows.length ++ rows.flatMap fun r => u32 r.count ++ u32 r.value)) =
      some (rows.map fun r => (r.count, r.value), { rest := [] }) := by
    refine tableOf_rows (by decide) (fun r => length_pair r.count r.value) few fun r member rest => ?_
    obtain ⟨count, value⟩ := narrow r member
    unfold sttsEntry
    rw [List.append_assoc, u32_digits count]
    dsimp only
    rw [u32_digits value]
  unfold stblBox
  dsimp only
  rw [if_neg (by decide), if_neg (by decide), if_pos rfl, read]
  rfl

theorem stblBox_stss {rows : List Nat} (few : rows.length < 2 ^ 32) (narrow : ∀ index ∈ rows, index < 2 ^ 32) :
    stblBox (true, t, tab) ⟨fourcc 's' 't' 's' 's', fullBody 0 0 (u32 rows.length ++ rows.flatMap u32)⟩ =
      (true, t, { tab with hasStss := true, stss := tab.stss ++ rows }) := by
  have read : tableOf 4 Cursor.u32 (fullBody 0 0 (u32 rows.length ++ rows.flatMap u32)) =
      some (rows.map id, { rest := [] }) :=
    tableOf_rows (by decide) (fun index => length_digits 4 index) few fun index member rest => u32_digits (narrow index member)
  unfold stblBox
  dsimp only
  rw [if_neg (by decide), if_neg (by decide), if_neg (by decide), if_neg (by decide), if_pos rfl, read, List.map_id]
  rfl

theorem stblBox_stsc {rows : List (Nat × Nat)} (few : rows.length < 2 ^ 32)
    (narrow : ∀ e ∈ rows, e.1 < 2 ^ 32 ∧ e.2 < 2 ^ 32) :
    stblBox (true, t, tab) ⟨fourcc 's' 't' 's' 'c', fullBody 0 0 (u32 rows.length ++
      rows.flatMap fun e => u32 e.1 ++ (u32 e.2 ++ u32 1))⟩ =
      (true, t, { tab with stsc := tab.stsc ++ rows.map fun e => ⟨e.1, e.2⟩ }) := by
  have read : tableOf 12 stscEntry (fullBody 0 0 (u32 rows.length ++ rows.flatMap fun e => u32 e.1 ++ (u32 e.2 ++ u32 1))) =
      some (rows.map fun e => ⟨e.1, e.2⟩, { rest := [] }) := by
    refine tableOf_rows (by decide) (fun e => length_triple e.1 e.2 1) few fun e member rest => ?_
    obtain ⟨first, samples⟩ := narrow e member
    unfold stscEntry
    rw [List.append_assoc, u32_digits first]
    dsimp only
    rw [List.append_assoc, u32_digits samples]
    dsimp only
    rw [u32_digits (by decide)]
  unfold stblBox
  dsimp only
  rw [if_neg (by decide), if_neg (by decide), if_neg (by decide), if_neg (by decide), if_neg (by decide), if_pos rfl, read]
  rfl

theorem stblBox_stsz {sizes : List Nat} (few : sizes.length ≤ kMaxSamples) (narrow : ∀ size ∈ sizes, size < 2 ^ 32) :
    stblBox (true, t, tab) ⟨fourcc 's' 't' 's' 'z', fullBody 0 0 (u32 0 ++ (u32 sizes.length ++ sizes.flatMap u32))⟩ =
      (true, t, { tab with stszFixed := 0, stszCount := sizes.length, stsz := tab.stsz ++ sizes }) := by
  have count : sizes.length < 2 ^ 32 := few.trans_lt (by decide)
  have room : sizes.length ≤ Cursor.left { rest := sizes.flatMap u32 } / 4 := by
    have length : (sizes.flatMap u32).length = sizes.length * 4 := length_rows fun size => length_digits 4 size
    change _ ≤ (sizes.flatMap u32).length / 4
    rw [length, Nat.mul_div_cancel _ (by decide)]
  have rows : entries Cursor.u32 sizes.length { rest := sizes.flatMap u32 ++ [] } = (sizes.map id, { rest := [] }) :=
    entries_rows (fun size member rest => u32_digits (narrow size member)) []
  have read : parseStsz (fullBody 0 0 (u32 0 ++ (u32 sizes.length ++ sizes.flatMap u32))) tab =
      (true, { tab with stszFixed := 0, stszCount := sizes.length, stsz := tab.stsz ++ sizes }) := by
    rw [List.append_nil, List.map_id] at rows
    unfold parseStsz fullBody
    rw [u32_version]
    dsimp only
    rw [u32_digits (by decide)]
    dsimp only
    rw [u32_digits count]
    dsimp only
    rw [if_neg (not_lt.mpr few), if_pos rfl, if_neg (not_lt.mpr room), rows]
    rfl
  unfold stblBox
  dsimp only
  rw [if_neg (by decide), if_neg (by decide), if_neg (by decide), if_neg (by decide), if_neg (by decide), if_neg (by decide),
    if_pos rfl, read]

theorem stblBox_stco {offsets : List Nat} {base : Nat} (few : offsets.length < 2 ^ 32)
    (narrow : ∀ offset ∈ offsets, base + offset < 2 ^ 32) :
    stblBox (true, t, tab) ⟨fourcc 's' 't' 'c' 'o', fullBody 0 0 (u32 offsets.length ++
      offsets.flatMap fun offset => u32 (base + offset))⟩ =
      (true, t, { tab with chunks := tab.chunks ++ offsets.map (base + ·) }) := by
  have read : tableOf 4 Cursor.u32 (fullBody 0 0 (u32 offsets.length ++ offsets.flatMap fun offset => u32 (base + offset))) =
      some (offsets.map (base + ·), { rest := [] }) :=
    tableOf_rows (by decide) (fun offset => length_digits 4 (base + offset)) few fun offset member rest =>
      u32_digits (narrow offset member)
  unfold stblBox
  dsimp only
  rw [if_neg (by decide), if_neg (by decide), if_neg (by decide), if_neg (by decide), if_neg (by decide), if_neg (by decide),
    if_neg (by decide), if_pos rfl, read]
  rfl

/-- The size of the tables, row by row. -/
theorem length_writeStblTables (written : Mp4Write.Track) (base : Nat) :
    (writeStblTables written base).length =
      68 + written.durations.length * 8 + (if written.sync = [] then 0 else 16 + written.sync.length * 4) +
        (stscOf 0 none written.chunkSamples).length * 12 + written.sizes.length * 4 + written.chunkAt.length * 4 := by
  have sizes : (written.sizes.flatMap u32).length = written.sizes.length * 4 :=
    length_rows fun size => length_digits 4 size
  unfold writeStblTables
  rw [List.length_append, List.length_append, List.length_append, List.length_append,
    length_table _ fun r : Run => length_pair r.count r.value,
    length_table _ fun e : Nat × Nat => length_triple e.1 e.2 1,
    length_table _ fun offset : Nat => length_u32 (base + offset), length_fullBox, List.length_append,
    List.length_append, sizes, length_u32, length_u32]
  split_ifs
  · rw [List.length_nil]
    omega
  · rw [length_table _ length_u32]
    omega

/-- The tables of a written track are read whole. -/
theorem walk_tables {written : Mp4Write.Track} {base : Nat} (narrow : Narrow written base) (rest : List Byte) :
    forEachBox stblBox (writeStblTables written base ++ rest) (true, t, {}) =
      forEachBox stblBox rest (true, t, tablesRead written base) := by
  have small := narrow.small
  rw [length_writeStblTables] at small
  have sync : written.sync.length < 2 ^ 32 := by
    split_ifs at small with none
    · rw [none]
      decide
    · omega
  have durations : (written.durations.flatMap fun r => u32 r.count ++ u32 r.value).length = written.durations.length * 8 :=
    length_rows fun r => length_pair r.count r.value
  have index : (written.sync.flatMap u32).length = written.sync.length * 4 := length_rows fun index => length_digits 4 index
  have stsc : ((stscOf 0 none written.chunkSamples).flatMap fun e => u32 e.1 ++ (u32 e.2 ++ u32 1)).length =
      (stscOf 0 none written.chunkSamples).length * 12 := length_rows fun e => length_triple e.1 e.2 1
  have sizes : (written.sizes.flatMap u32).length = written.sizes.length * 4 := length_rows fun size => length_digits 4 size
  have offsets : (written.chunkAt.flatMap fun offset => u32 (base + offset)).length = written.chunkAt.length * 4 :=
    length_rows fun offset => length_digits 4 (base + offset)
  have after : ∀ tab, forEachBox stblBox
      (table (fourcc 's' 't' 's' 'c') (stscOf 0 none written.chunkSamples) (fun e => u32 e.1 ++ (u32 e.2 ++ u32 1)) ++
        (fullBox (fourcc 's' 't' 's' 'z') 0 0 (u32 0 ++ (u32 written.sizes.length ++ written.sizes.flatMap u32)) ++
          (table (fourcc 's' 't' 'c' 'o') written.chunkAt (fun offset => u32 (base + offset)) ++ rest))) (true, t, tab) =
      forEachBox stblBox rest (true, t, { tab with
        stsc := tab.stsc ++ (stscOf 0 none written.chunkSamples).map fun e => ⟨e.1, e.2⟩
        stszFixed := 0, stszCount := written.sizes.length, stsz := tab.stsz ++ written.sizes
        chunks := tab.chunks ++ written.chunkAt.map (base + ·) }) := by
    intro tab
    unfold table
    rw [forEachBox_fullBox _ _ (by decide) (by rw [List.length_append, length_u32, stsc]; omega),
      stblBox_stsc (by omega) narrow.stsc,
      forEachBox_fullBox _ _ (by decide) (by rw [List.length_append, List.length_append, length_u32, length_u32, sizes]; omega),
      stblBox_stsz narrow.few narrow.sizes,
      forEachBox_fullBox _ _ (by decide) (by rw [List.length_append, length_u32, offsets]; omega),
      stblBox_stco (by omega) narrow.chunkAt]
  unfold writeStblTables
  rw [List.append_assoc, List.append_assoc, List.append_assoc, List.append_assoc, table,
    forEachBox_fullBox _ _ (by decide) (by rw [List.length_append, length_u32, durations]; omega),
    stblBox_stts (by omega) narrow.durations]
  split_ifs with none
  · rw [List.nil_append, after]
    unfold tablesRead
    rw [none]
    rfl
  · rw [table, forEachBox_fullBox _ _ (by decide) (by rw [List.length_append, length_u32, index, if_neg none] at *; omega),
      stblBox_stss sync narrow.sync, after]
    unfold tablesRead
    rw [decide_eq_true none]
    rfl

theorem stblBox_stsd {body : List Byte} {after : Mp4Track} (read : parseStsd body t = (true, after)) :
    stblBox (true, t, tab) ⟨fourcc 's' 't' 's' 'd', body⟩ = (true, after, tab) := by
  unfold stblBox
  dsimp only
  rw [if_neg (by decide), if_pos rfl, read]

theorem parseSgpd_sgpd :
    parseSgpd (fullBody 1 0 (u32 (fourcc 'r' 'o' 'l' 'l') ++ (u32 2 ++ (u32 1 ++ u16 (BitVec.ofInt 16 kOpusRoll).toNat)))) t =
      (true, { t with rollDistance := kOpusRoll }) := by
  have one : ∀ rest, Cursor.u32 { rest := u32 1 ++ rest } = (1, { rest }) := fun rest => u32_digits (by decide)
  have two : ∀ rest, Cursor.u32 { rest := u32 2 ++ rest } = (2, { rest }) := fun rest => u32_digits (by decide)
  have version : ¬2 ≤ 1 := by decide
  have empty : ¬1 = 0 := by decide
  unfold parseSgpd fullBody
  rw [u8_version (by decide)]
  dsimp only
  rw [u24_flags (by decide)]
  dsimp only
  rw [u32_digits (by decide)]
  dsimp only
  rw [if_neg (not_not.mpr rfl)]
  simp only [↓reduceIte, two, if_neg version, one, if_neg empty]
  rfl

theorem length_sbgp (packets : Nat) : (sbgp packets).length ≤ 36 := by
  unfold sbgp
  rw [length_fullBox]
  split_ifs <;> simp only [List.length_append, length_u32, List.length_nil] <;> decide

/-- The roll group of the sound. -/
theorem walk_roll (packets : Nat) :
    forEachBox stblBox (sgpd ++ sbgp packets) (true, t, tab) = (true, true, { t with rollDistance := kOpusRoll }, tab) := by
  have group : stblBox (true, t, tab) ⟨fourcc 's' 'g' 'p' 'd', fullBody 1 0
      (u32 (fourcc 'r' 'o' 'l' 'l') ++ (u32 2 ++ (u32 1 ++ u16 (BitVec.ofInt 16 kOpusRoll).toNat)))⟩ =
      (true, { t with rollDistance := kOpusRoll }, tab) := by
    unfold stblBox
    dsimp only
    rw [if_neg (by decide), if_neg (by decide), if_neg (by decide), if_neg (by decide), if_neg (by decide),
      if_neg (by decide), if_neg (by decide), if_neg (by decide), if_neg (by decide), if_pos rfl, parseSgpd_sgpd]
  have other : ∀ (t : Mp4Track) (body : List Byte), stblBox (true, t, tab) ⟨fourcc 's' 'b' 'g' 'p', body⟩ = (true, t, tab) := by
    intro t body
    unfold stblBox
    dsimp only
    rw [if_neg (by decide), if_neg (by decide), if_neg (by decide), if_neg (by decide), if_neg (by decide),
      if_neg (by decide), if_neg (by decide), if_neg (by decide), if_neg (by decide), if_neg (by decide)]
  have length := length_sbgp packets
  rw [sgpd, forEachBox_fullBox _ _ (by decide) (by decide), group, ← List.append_nil (sbgp packets)]
  unfold sbgp at length ⊢
  rw [length_fullBox] at length
  rw [forEachBox_fullBox _ _ (by decide) (by omega), other, forEachBox_nil]

theorem parseStbl_video {m : MovieInfo} {written : Mp4Write.Track} {base : Nat} (narrow : Narrow written base)
    (wide : m.width < 2 ^ 16) (high : m.height < 2 ^ 16)
    (someSps : m.sps ≠ []) (narrowSps : m.sps.length < 2 ^ 16) (somePps : m.pps ≠ []) (narrowPps : m.pps.length < 2 ^ 16) :
    parseStbl (stsd (avc1 m) ++ writeStblTables written base) t {} =
      (true, avcTrack t m m.width m.height, tablesRead written base) := by
  have entry := parseStsd_avc1 (t := t) wide high someSps narrowSps somePps narrowPps
  have length : (avc1 m).length < 2 ^ 31 := by
    have inner := length_avcC m.sps m.pps
    have body : avc1 m = box (fourcc 'a' 'v' 'c' '1')
      (visualFields m ++ (avcC m.sps m.pps ++ box (fourcc 'p' 'a' 's' 'p') (u32 1 ++ u32 1))) := rfl
    rw [body, length_box, List.length_append, List.length_append, length_visualFields, length_box, length_pair]
    unfold kVisual
    omega
  unfold parseStbl stsd
  rw [forEachBox_fullBox _ _ (by decide) (by rw [List.length_append, length_u32]; omega), stblBox_stsd entry,
    ← List.append_nil (writeStblTables written base), walk_tables narrow, forEachBox_nil]
  rfl

theorem parseStbl_audio {m : MovieInfo} {written : Mp4Write.Track} {base : Nat} (narrow : Narrow written base)
    (skips : m.preSkip < 2 ^ 16) :
    parseStbl (stsd (opus m) ++ (writeStblTables written base ++ (sgpd ++ sbgp m.audioPackets))) t {} =
      (true, { opusTrack t m.preSkip kAudioRate with rollDistance := kOpusRoll }, tablesRead written base) := by
  have entry := parseStsd_opus (t := t) skips
  have length : (opus m).length < 2 ^ 31 := by
    unfold opus dOps
    simp only [length_box, List.length_append, u8, u16, u32, zeros, length_digits, List.length_replicate]
    decide
  unfold parseStbl stsd
  rw [forEachBox_fullBox _ _ (by decide) (by rw [List.length_append, length_u32]; omega), stblBox_stsd entry,
    walk_tables narrow, walk_roll]
  rfl

end Tables

/-! ## Tracks -/

section Traks

variable {stbl : List Byte} {after : Mp4Track} {tab : Tables} {t : Mp4Track}

theorem walk_minf {type version flags : Nat} {header : List Byte} (named : type < 2 ^ 32) (other : type ≠ fourcc 's' 't' 'b' 'l')
    (short : header.length < 2 ^ 31) (fits : 8 + stbl.length < 2 ^ 32) (read : parseStbl stbl t {} = (true, after, tab)) :
    forEachBox minfBox (fullBox type version flags header ++ (writeDinf ++ box (fourcc 's' 't' 'b' 'l') stbl)) (true, t, {}) =
      (true, true, after, tab) := by
  have skips : ∀ {type : Nat} (s : Bool × Mp4Track × Tables) (body : List Byte), type ≠ fourcc 's' 't' 'b' 'l' →
      minfBox s ⟨type, body⟩ = s := fun s body apart => if_neg apart
  rw [forEachBox_fullBox _ _ named (by omega), skips _ _ other, writeDinf, forEachBox_box (by decide) (by decide),
    skips _ _ (by decide), forEachBox_last (by decide) fits]
  unfold minfBox
  rw [if_pos rfl]
  dsimp only
  rw [read]
  rfl

theorem walk_mdia {scale duration handler : Nat} {name : List Byte} {kind : Kind} {minf : List Byte} (scaled : scale < 2 ^ 32)
    (handles : handler < 2 ^ 32) (short : name.length < 2 ^ 31) (fits : 8 + minf.length < 2 ^ 32)
    (named : ∀ t : Mp4Track, (if handler = fourcc 'v' 'i' 'd' 'e' then { t with kind := .video }
      else if handler = fourcc 's' 'o' 'u' 'n' then { t with kind := .audio } else t) = { t with kind })
    (read : forEachBox minfBox minf (true, { t with timescale := scale, kind }, {}) = (true, true, after, tab)) :
    forEachBox mdiaBox (mdhd scale duration ++ (hdlr handler name ++ box (fourcc 'm' 'i' 'n' 'f') minf)) (true, t, {}) =
      (true, true, after, tab) := by
  have scaleBox : mdiaBox (true, t, {}) ⟨fourcc 'm' 'd' 'h' 'd', fullBody 0 0 (u32 0 ++ (u32 0 ++ (u32 scale ++
      (u32 duration ++ u16 0x55C4 ++ u16 0))))⟩ = (true, { t with timescale := scale }, {}) := by
    unfold mdiaBox
    dsimp only
    rw [if_pos rfl, parseMdhd_mdhd scaled]
  have kindBox : mdiaBox (true, { t with timescale := scale }, {}) ⟨fourcc 'h' 'd' 'l' 'r', fullBody 0 0 (u32 0 ++
      (u32 handler ++ (zeros 12 ++ name)))⟩ = (true, { t with timescale := scale, kind }, {}) := by
    unfold mdiaBox
    dsimp only
    rw [if_neg (by decide), if_pos rfl, parseHdlr_hdlr handles, named]
  have length : (zeros 12 ++ name).length = 12 + name.length := by
    rw [List.length_append, zeros, List.length_replicate]
  unfold mdhd hdlr
  rw [forEachBox_fullBox _ _ (by decide) (by simp only [List.length_append, length_u32, u16, length_digits]; decide), scaleBox,
    forEachBox_fullBox _ _ (by decide) (by rw [List.length_append, List.length_append, length_u32, length_u32, length]; omega),
    kindBox, forEachBox_last (by decide) fits]
  unfold mdiaBox
  dsimp only
  rw [if_neg (by decide), if_neg (by decide), if_pos rfl, read]

/-- A written track is read back: its header fields, and what its sample tables make of it. -/
theorem walk_trak {trackId duration group volume width height mediaTime : Nat} {mdia : List Byte} (tracked : trackId < 2 ^ 32)
    (lasts : duration < 2 ^ 32) (starts : mediaTime < 2 ^ 31) (fits : 8 + mdia.length < 2 ^ 32)
    (read : forEachBox mdiaBox mdia (true, { trackId, editMediaTime := mediaTime }, {}) = (true, true, after, tab)) :
    forEachBox trakBox (tkhd trackId duration group volume width height ++ (edts duration mediaTime ++
      box (fourcc 'm' 'd' 'i' 'a') mdia)) {} = (true, { ok := true, hasEdit := true, t := after, tab }) := by
  have head : trakBox {} ⟨fourcc 't' 'k' 'h' 'd', fullBody 0 3 (u32 0 ++ (u32 0 ++ (u32 trackId ++ (u32 0 ++ u32 duration ++
      zeros 8 ++ u16 0 ++ u16 group ++ u16 volume ++ u16 0 ++ writeMatrix ++ u32 width ++ u32 height))))⟩ =
      { t := { trackId } } := by
    unfold trakBox
    rw [if_neg (by decide), if_pos rfl]
    dsimp only
    rw [parseTkhd_tkhd tracked]
  have edit : forEachBox edtsBox (fullBox (fourcc 'e' 'l' 's' 't') 0 0 (u32 1 ++ (u32 duration ++ (u32 mediaTime ++
      u32 0x00010000)))) (false, { trackId }) = (true, true, { trackId, editMediaTime := mediaTime }) := by
    rw [← List.append_nil (fullBox _ _ _ _), forEachBox_fullBox _ _ (by decide)
      (by simp only [List.length_append, length_u32]; decide), edtsBox_elst lasts starts, forEachBox_nil]
  have start : trakBox { t := { trackId } } ⟨fourcc 'e' 'd' 't' 's', fullBox (fourcc 'e' 'l' 's' 't') 0 0 (u32 1 ++
      (u32 duration ++ (u32 mediaTime ++ u32 0x00010000)))⟩ =
      { hasEdit := true, t := { trackId, editMediaTime := mediaTime } } := by
    unfold trakBox
    dsimp only
    rw [if_neg (by decide), if_neg (by decide), if_pos rfl, edit]
  unfold tkhd edts
  rw [forEachBox_fullBox _ _ (by decide)
      (by simp only [writeMatrix, zeros, u16, List.length_append, length_u32, length_digits, List.length_replicate]; decide),
    head, forEachBox_box (by decide) (by rw [length_fullBox]; simp only [List.length_append, length_u32]; decide), start,
    forEachBox_last (by decide) fits]
  unfold trakBox
  dsimp only
  rw [if_neg (by decide), if_neg (by decide), if_neg (by decide), if_pos rfl, read]

end Traks

end Mello.Replay.Mp4Parse
