import Mello.Core.CatalogueLookups

/-!
The trip of a catalogue through its head: what is packed is read again where no text is cut in the middle of a character.
-/

namespace Mello.Core.CatalogueTrip
open Mello.Library Texts Utf8 Extents LittleEndian AppIds CatalogueHead CatalogueBlob CatalogueFile CatalogueLookups

def Ascii (text : Text) : Prop := ∀ c ∈ text, c.toNat < 128

/-- The catalogues that the build script packs. -/
structure Valid (u : Unicode) (c : Catalogue) : Prop where
  distinct : c.ids.Nodup
  ids : ∀ gid ∈ c.ids, 0 < gid ∧ gid < 2 ^ 32
  names : ∀ game ∈ c.games, game.2.1 ≠ [] ∧ game.2.2 ≠ []
  covers : ∀ gid cover, c.covers gid = some cover → cover ≠ []
  mapped : ∀ mapping ∈ c.mappings, mapping.2 ∈ c.ids
  exes : ∀ mapping ∈ c.mappings, ∀ exe ∈ mapping.1.exe, exe ≠ [] ∧ exe.length ≤ 255 ∧ Ascii exe
  markers : ∀ mapping ∈ c.mappings, (markerOf mapping).length ≤ 255 ∧ Ascii (markerOf mapping)
  blob : (c.blob u).buf.length < 2 ^ 32

/-- The head has the games, no other, and the executables of the mappings. -/
structure Agrees (u : Unicode) (c : Catalogue) (head : Head) : Prop where
  included : ∀ gid ∈ c.included, ∃ entry, head.get (BitVec.ofNat 32 gid) = some entry ∧ entry.igdbId = BitVec.ofNat 32 gid ∧
    List.Forall₂ Shown (c.strings u gid) [entry.name, entry.slug, entry.shortName, entry.coverImage, entry.gameId]
  others : ∀ id : BitVec 32, id.toNat ∉ c.included → head.get id = none
  exes : ∀ exe path, head.lookupExe exe path = (target c exe path).bind fun gid => head.get (BitVec.ofNat 32 gid)

/-- The head is packed, accepted, and agrees with the catalogue. -/
def Survives (u : Unicode) (c : Catalogue) : Prop :=
  ∃ bytes head, c.buildHead u = some bytes ∧ Head.parse bytes = some head ∧ Agrees u c head

/-- The texts that come with a game: its name, its slug, its cover and its game id. -/
def texts (c : Catalogue) (gid : ℕ) : List Text :=
  [(c.nameAndSlug gid).1, (c.nameAndSlug gid).2, (c.covers gid).getD [], (c.gameIds gid).getD (c.nameAndSlug gid).2]

/-- The tables end before 2³², and no text is cut in the middle of a character. -/
structure Fits (c : Catalogue) : Prop where
  room : 16 + 32 * c.included.length + 16 * (c.mappings.map fun mapping => mapping.1.exe.length).sum < 2 ^ 32
  cuts : ∀ gid ∈ c.included, ∀ s ∈ texts c gid, CutsClean s

/-! ## Executables and markers -/

section Ascii

variable {text : Text}

theorem lower_of_ascii (u : Unicode) (ascii : Ascii text) : u.lower text = text.map Char.toLower := u.lower_ascii text ascii

theorem utf8Size_toLower {c : Char} (ascii : c.toNat < 128) : c.toLower.utf8Size = 1 := by
  have all : ∀ n < 128, (Char.ofNat n).toLower.utf8Size = 1 := by decide
  rw [← Char.ofNat_toNat c]
  exact all c.toNat ascii

theorem size_toLower (ascii : Ascii text) : size (text.map Char.toLower) = text.length := by
  induction text with
  | nil => rfl
  | cons c rest ih =>
    obtain ⟨here, later⟩ := List.forall_mem_cons.mp ascii
    rw [List.map_cons, size_cons, utf8Size_toLower here, ih later, List.length_cons, Nat.add_comm]

end Ascii

namespace Valid

variable {u : Unicode} {c : Catalogue} (valid : Valid u c)
include valid

theorem mapped_included {mapping : Mapping × ℕ} (member : mapping ∈ c.mappings) : mapping.2 ∈ c.included :=
  mem_included_of_mapped member (valid.mapped mapping member)

theorem lt_of_mem_included {gid : ℕ} (member : gid ∈ c.included) : gid < 2 ^ 32 := (valid.ids gid (mem_ids_of_mem_included member)).2

theorem marker_eq {mapping : Mapping × ℕ} (member : mapping ∈ c.mappings) :
    Catalogue.marker u mapping.1 = (markerOf mapping).map Char.toLower := lower_of_ascii u (valid.markers mapping member).2

theorem plain (few : c.included.length ≤ 2 ^ 32) : ∀ row ∈ rows u c, Plain row := by
  intro row member
  obtain ⟨mapping, inside, listed⟩ := List.mem_flatMap.mp member
  obtain ⟨exe, known, rfl⟩ := List.mem_map.mp listed
  obtain ⟨some', short, ascii⟩ := valid.exes mapping inside exe known
  obtain ⟨short', ascii'⟩ := valid.markers mapping inside
  have position := List.idxOf_lt_length_of_mem (valid.mapped_included inside)
  refine ⟨?_, ?_, ?_, position.trans_le few⟩
  · dsimp only
    rw [lower_of_ascii u ascii]
    exact fun empty => some' (List.map_eq_nil_iff.mp empty)
  · dsimp only
    rw [lower_of_ascii u ascii, size_toLower ascii]
    exact short
  · dsimp only
    rw [valid.marker_eq inside, size_toLower ascii']
    exact short'

/-- The mappings of a name by the packed names. -/
theorem mappingsOf_eq (exe : Text) :
    (c.mappings.filter fun mapping => exe.map Char.toLower ∈ mapping.1.exe.map u.lower) = mappingsOf c exe := by
  apply List.filter_congr
  intro mapping member
  have same : mapping.1.exe.map u.lower = mapping.1.exe.map (List.map Char.toLower) :=
    List.map_congr_left fun listed inside => lower_of_ascii u (valid.exes mapping member listed inside).2.2
  rw [same]

theorem hit_marker {mapping : Mapping × ℕ} (member : mapping ∈ c.mappings) (path : Text) :
    hit (path.map Char.toLower) (Catalogue.marker u mapping.1) = decide (InPath path (markerOf mapping)) := by
  unfold hit InPath
  rw [valid.marker_eq member]
  exact decide_eq_decide.mpr (and_congr_left' (not_congr List.map_eq_nil_iff))

theorem bare_marker {mapping : Mapping × ℕ} (member : mapping ∈ c.mappings) :
    bare (Catalogue.marker u mapping.1) = decide (markerOf mapping = []) := by
  unfold bare
  rw [valid.marker_eq member]
  exact decide_eq_decide.mpr List.map_eq_nil_iff

end Valid

/-! ## Lookups -/

section Lookups

variable {u : Unicode} {c : Catalogue} {h : Head} (valid : Valid u c)
include valid

/-- The entry at the index of a mapped game is the game's. -/
theorem entryAt_mapped (reads : Reads u c h) {gid : ℕ} (member : gid ∈ c.included) :
    h.entryAt (c.included.idxOf gid) = h.get (BitVec.ofNat 32 gid) := by
  have position : c.included[c.included.idxOf gid]? = some gid := List.getElem?_idxOf member
  have same : (BitVec.ofNat 32 gid).toNat = gid := toNat_ofNat (valid.lt_of_mem_included member)
  rw [reads.entryAt valid.blob position, reads.get valid.blob (fun gid => valid.lt_of_mem_included), same, if_pos member]

theorem lookupExe_eq (reads : Reads u c h) (byExe : h.byExe = h.buildExeMap) (few : c.included.length ≤ 2 ^ 32) (exe path : Text) :
    h.lookupExe exe path = (target c exe path).bind fun gid => h.get (BitVec.ofNat 32 gid) := by
  have all := candidates_rows valid.blob (valid.plain few) reads byExe (exe.map Char.toLower)
  have among := lookupAmong_eq valid.blob (valid.plain few) reads (path.map Char.toLower) all none
  rw [Option.none_or, find?_rows _ (hit (path.map Char.toLower)), find?_rows _ bare, valid.mappingsOf_eq exe] at among
  have member {mapping : Mapping × ℕ} (inside : mapping ∈ mappingsOf c exe) : mapping ∈ c.mappings := List.mem_of_mem_filter inside
  have guarded : (mappingsOf c exe).find? (fun mapping => hit (path.map Char.toLower) (Catalogue.marker u mapping.1)) =
      (mappingsOf c exe).find? fun mapping => InPath path (markerOf mapping) :=
    List.find?_congr fun mapping inside => valid.hit_marker (member inside) path
  have unguarded : (mappingsOf c exe).find? (fun mapping => bare (Catalogue.marker u mapping.1)) =
      (mappingsOf c exe).find? fun mapping => markerOf mapping = [] :=
    List.find?_congr fun mapping inside => valid.bare_marker (member inside)
  rw [guarded, unguarded, ← Option.map_or] at among
  have looked : h.lookupExe exe path =
      h.lookupAmong (path.map Char.toLower) none ((h.byExe.filter fun entry => entry.1 = exe.map Char.toLower).map Prod.snd) := by
    unfold Head.lookupExe
    dsimp only
    split_ifs with none'
    · rw [none']
      rfl
    · rfl
  rw [looked, among]
  unfold target
  cases found : ((mappingsOf c exe).find? fun mapping => InPath path (markerOf mapping)).or
      ((mappingsOf c exe).find? fun mapping => markerOf mapping = []) with
  | none => rfl
  | some mapping =>
    have inside : mapping ∈ mappingsOf c exe := by
      rcases Option.or_eq_some_iff.mp found with first | ⟨-, second⟩
      · exact List.mem_of_find?_eq_some first
      · exact List.mem_of_find?_eq_some second
    exact entryAt_mapped valid reads (valid.mapped_included (member inside))

end Lookups

/-! ## The round trip -/

section Trip

variable {u : Unicode} {c : Catalogue}

theorem room_iff : 16 + 32 * c.included.length + 16 * (c.mappings.map fun mapping => mapping.1.exe.length).sum < 2 ^ 32 ↔
    c.stringsOff u < 2 ^ 32 := by
  have count : (rows u c).length = (c.mappings.map fun mapping => mapping.1.exe.length).sum := by
    unfold rows
    rw [List.length_flatMap]
    exact congrArg List.sum (List.map_congr_left fun mapping _ => List.length_map _)
  have layout := @stringsOff_eq u c
  unfold HEAD_HEADER_LEN HEAD_RECORD_LEN EXE_ENTRY_LEN at layout
  rw [← count]
  omega

/-- The strings of a game are shown where its texts are not cut in the middle of a character. -/
theorem shown_strings_iff (gid : ℕ) :
    List.Forall₂ Shown (c.strings u gid) [(entryOf u c gid).name, (entryOf u c gid).slug, (entryOf u c gid).shortName,
      (entryOf u c gid).coverImage, (entryOf u c gid).gameId] ↔ ∀ s ∈ texts c gid, CutsClean s := by
  have short := cutsClean_deriveShortName u (c.nameAndSlug gid).1 (c.nameAndSlug gid).2
  rw [strings_eq]
  unfold texts entryOf
  simp only [List.forall₂_cons, List.Forall₂.nil, and_true, shown_iff, List.forall_mem_cons, List.not_mem_nil, false_imp_iff,
    implies_true, short, true_and]

theorem survives_iff (valid : Valid u c) : Survives u c ↔ Fits c := by
  have below (gid : ℕ) (member : gid ∈ c.included) : (BitVec.ofNat 32 gid).toNat = gid := toNat_ofNat (valid.lt_of_mem_included member)
  have built := @buildHead_of_lt u c valid.blob (fun gid => valid.lt_of_mem_included) fun mapping => valid.mapped_included
  have got {head : Head} (reads : Reads u c head) := reads.get valid.blob fun gid => valid.lt_of_mem_included
  constructor
  · rintro ⟨bytes, head, built', parsed, agrees⟩
    have room := room_of_buildHead built'
    obtain ⟨head', parsed', reads, -⟩ := parse_file room
    obtain rfl : file u c = bytes := Option.some.inj ((built room).symm.trans built')
    obtain rfl : head = head' := Option.some.inj (parsed.symm.trans parsed')
    refine ⟨room_iff.mpr room, fun gid member => (@shown_strings_iff u c gid).mp ?_⟩
    obtain ⟨entry, known, -, shown⟩ := agrees.included gid member
    rw [got reads, below gid member, if_pos member] at known
    obtain rfl := Option.some.inj known
    exact shown
  · intro fits
    have room : c.stringsOff u < 2 ^ 32 := room_iff.mp fits.room
    obtain ⟨head, parsed, reads, byExe⟩ := parse_file room
    have few : c.included.length ≤ 2 ^ 32 := by
      have whole := fits.room
      omega
    refine ⟨file u c, head, built room, parsed, ?_, ?_, lookupExe_eq valid reads byExe few⟩
    · intro gid member
      refine ⟨entryOf u c gid, ?_, rfl, (shown_strings_iff gid).mpr (fits.cuts gid member)⟩
      rw [got reads, below gid member, if_pos member]
    · intro id other
      rw [got reads, if_neg other]

end Trip

/-! ## Any accepted file -/

/-- Each lookup reads inside the file. -/
structure InBounds (h : Head) : Prop where
  tables : h.exeBase + h.exeCount * EXE_ENTRY_LEN ≤ h.stringsOff
  strings : h.stringsOff ≤ h.bytes.length
  records : ∀ i < h.count, (readAt h.bytes (HEAD_HEADER_LEN + i * HEAD_RECORD_LEN) HEAD_RECORD_LEN).isSome = true
  entries : ∀ i < h.exeCount, (readAt h.bytes (h.exeBase + i * EXE_ENTRY_LEN) EXE_ENTRY_LEN).isSome = true
  byExe : ∀ entry ∈ h.byExe, entry.2 < h.exeCount
  stringAt : ∀ off len, h.stringAt off len ≠ [] → h.stringsOff + off.toNat + len.toNat ≤ h.bytes.length
  get : ∀ id entry, h.get id = some entry → entry.igdbId = id ∧ ∃ i < h.count, h.entryAt i = some entry
  lookupExe : ∀ exe path entry, h.lookupExe exe path = some entry →
    ∃ i, HEAD_HEADER_LEN + i * HEAD_RECORD_LEN + HEAD_RECORD_LEN ≤ h.bytes.length ∧ h.entryAt i = some entry

section Any

variable {h : Head}

theorem inside_of_readAt {α : Type*} {store data : List α} {offset size : ℕ} (read : readAt store offset size = some data) :
    offset + size ≤ store.length := by
  unfold readAt at read
  split_ifs at read with inside
  exact inside

theorem isSome_readAt {α : Type*} {store : List α} {offset size : ℕ} (inside : offset + size ≤ store.length) :
    (readAt store offset size).isSome = true := by
  unfold readAt
  rw [if_pos inside]
  rfl

theorem inside_of_stringAt {off : BitVec 32} {len : Byte} (some' : h.stringAt off len ≠ []) :
    h.stringsOff + off.toNat + len.toNat ≤ h.bytes.length := by
  unfold Head.stringAt at some'
  split_ifs at some' with empty
  · exact absurd rfl some'
  · cases read : readAt h.bytes (h.stringsOff + off.toNat) len.toNat with
    | none =>
      rw [read] at some'
      exact absurd rfl some'
    | some data => exact inside_of_readAt read

theorem inside_of_entryAt {i : ℕ} {entry : CatalogueEntry} (known : h.entryAt i = some entry) :
    HEAD_HEADER_LEN + i * HEAD_RECORD_LEN + HEAD_RECORD_LEN ≤ h.bytes.length := by
  obtain ⟨record, read, -⟩ := Option.map_eq_some_iff.mp known
  exact inside_of_readAt read

theorem get_sound {id : BitVec 32} {entry : CatalogueEntry} (got : h.get id = some entry) :
    entry.igdbId = id ∧ ∃ i < h.count, h.entryAt i = some entry := by
  obtain ⟨i, found, known⟩ := Option.bind_eq_some_iff.mp got
  obtain ⟨-, inside, key⟩ := BinarySearch.search_sound found
  refine ⟨?_, i, inside, known⟩
  obtain ⟨value, first, same⟩ := Option.map_eq_some_iff.mp key
  obtain ⟨record, read, rfl⟩ := Option.map_eq_some_iff.mp known
  rw [u32At_of_readAt read (by decide)] at first
  obtain rfl := Option.some.inj first
  exact BitVec.eq_of_toNat_eq same

/-- The loop ends with a record that is in the file. -/
theorem lookupAmong_sound {path : Text} {unguarded : Option ℕ} {candidates : List ℕ} {entry : CatalogueEntry}
    (found : h.lookupAmong path unguarded candidates = some entry) : ∃ i, h.entryAt i = some entry := by
  induction candidates generalizing unguarded with
  | nil =>
    obtain ⟨i, -, known⟩ := Option.bind_eq_some_iff.mp found
    exact ⟨i, known⟩
  | cons i rest ih =>
    obtain ⟨e, -, found⟩ := Option.bind_eq_some_iff.mp found
    dsimp only at found
    split_ifs at found
    · exact ih found
    · exact ⟨_, found⟩
    · exact ih found

theorem inBounds_of_parse {bytes : List Byte} (parsed : Head.parse bytes = some h) : InBounds h := by
  obtain ⟨-, count, off, exes, -, -, -, inside, rfl⟩ := parse_eq_some_iff.mp parsed
  rw [not_or, not_lt, not_lt] at inside
  obtain ⟨tables, strings⟩ := inside
  refine ⟨tables, strings, ?_, ?_, ?_, fun _ _ => inside_of_stringAt, fun _ _ => get_sound, ?_⟩
  · intro i before
    apply isSome_readAt
    change i < count.toNat at before
    change HEAD_HEADER_LEN + i * HEAD_RECORD_LEN + HEAD_RECORD_LEN ≤ bytes.length
    unfold HEAD_HEADER_LEN HEAD_RECORD_LEN EXE_ENTRY_LEN at *
    omega
  · intro i before
    apply isSome_readAt
    change i < exes.toNat at before
    change HEAD_HEADER_LEN + count.toNat * HEAD_RECORD_LEN + i * EXE_ENTRY_LEN + EXE_ENTRY_LEN ≤ bytes.length
    unfold HEAD_HEADER_LEN HEAD_RECORD_LEN EXE_ENTRY_LEN at *
    omega
  · intro entry member
    obtain ⟨i, listed, chosen⟩ := List.mem_filterMap.mp member
    obtain ⟨e, -, chosen⟩ := Option.bind_eq_some_iff.mp chosen
    dsimp only at chosen
    split_ifs at chosen
    obtain rfl := Option.some.inj chosen
    exact List.mem_range.mp listed
  · intro exe path entry found
    unfold Head.lookupExe at found
    dsimp only at found
    split_ifs at found
    obtain ⟨i, known⟩ := lookupAmong_sound found
    exact ⟨i, inside_of_entryAt known, known⟩

end Any

/-- A catalogue survives where its tables end before 2³² and no text is cut in the middle of a character; each lookup in an
accepted file reads inside it. -/
theorem catalogue_head_iff (u : Unicode) :
    (∀ c, Valid u c → (Survives u c ↔ Fits c)) ∧ ∀ bytes head, Head.parse bytes = some head → InBounds head :=
  ⟨fun _ => survives_iff, fun _ _ => inBounds_of_parse⟩

/-- Texts whose only letters with a case are those of ASCII. -/
def plainTexts : Unicode where
  isSpace c := c = ' '
  lower text := text.map Char.toLower
  upper c := [c.toUpper]
  isDigit text := text ≠ [] ∧ ∀ c ∈ text, c.isDigit
  isUpper text := text.map Char.toUpper = text ∧ text.map Char.toLower ≠ text
  lower_ascii _ _ := rfl

def oneGame (name : Text) : Catalogue where
  games := [(1, name, ['g'])]
  covers _ := none
  popularity _ := none
  size := 1
  mappings := []

theorem valid_oneGame {name : Text} (some' : name ≠ []) (blob : ((oneGame name).blob plainTexts).buf.length < 2 ^ 32) :
    Valid plainTexts (oneGame name) where
  distinct := List.nodup_singleton 1
  ids := by
    intro gid member
    obtain rfl : gid = 1 := List.mem_singleton.mp member
    decide
  names := List.forall_mem_cons.mpr ⟨⟨some', List.cons_ne_nil 'g' []⟩, nofun⟩
  covers := nofun
  mapped := nofun
  exes := nofun
  markers := nofun
  blob := blob

/-- A name of 256 bytes, of which the first 255 are whole characters. -/
def evenName : Text := List.replicate 253 'a' ++ ['é', 'b']

theorem evenName_survives : Survives plainTexts (oneGame evenName) := by
  have valid : Valid plainTexts (oneGame evenName) := valid_oneGame (List.cons_ne_nil _ _) (by decide +kernel)
  have included : (oneGame evenName).included = [1] := by decide +kernel
  refine ((catalogue_head_iff plainTexts).1 (oneGame evenName) valid).mpr ⟨by decide +kernel, fun gid member => ?_⟩
  rw [included] at member
  obtain rfl := List.mem_singleton.mp member
  have split : evenName = List.replicate 253 'a' ++ ['é'] ++ ['b'] := by decide +kernel
  have cut : CutsClean evenName := .inr ⟨_, _, split, by decide +kernel⟩
  have short : ∀ s ∈ [['g'], [], ['g']], CutsClean s := fun s known => .inl (by
    have all : ∀ s ∈ [['g'], [], ['g']], size s ≤ 255 := by decide
    exact all s known)
  exact List.forall_mem_cons.mpr ⟨cut, short⟩

/-- A name of 256 bytes, of which the last two are one character. -/
def oddName : Text := List.replicate 254 'a' ++ ['é']

/-- It is read as an empty name. -/
theorem oddName_lost : Valid plainTexts (oneGame oddName) ∧ readBack oddName = [] ∧ ¬ Survives plainTexts (oneGame oddName) := by
  have valid : Valid plainTexts (oneGame oddName) := valid_oneGame (List.cons_ne_nil _ _) (by decide +kernel)
  have lost : readBack oddName = [] := by decide +kernel
  refine ⟨valid, lost, fun survives => ?_⟩
  have clean := ((survives_iff valid).mp survives).cuts 1 (by decide +kernel) oddName List.mem_cons_self
  exact (shown_iff.mpr clean).some' (List.cons_ne_nil _ _) lost

end Mello.Core.CatalogueTrip
