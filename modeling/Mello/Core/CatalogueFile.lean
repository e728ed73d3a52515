import Mello.Core.CatalogueBlob

/-!
The packed head of a catalogue as the reader finds it: where the header, the records, the executables and the strings are.
-/

namespace Mello.Core.CatalogueFile
open Mello.Library Texts Utf8 Extents LittleEndian AppIds CatalogueHead CatalogueBlob StringBlob

/-! ## Fields -/

theorem length_packU32 (n : ℕ) : (packU32 n).length = 4 := length_wordBytes 4 _

theorem word_of_take {bytes : List Byte} {n : ℕ} (same : bytes.take 4 = packU32 n) : word 4 bytes = BitVec.ofNat 32 n := by
  have whole : word 4 bytes = word 4 (bytes.take 4 ++ []) := by
    unfold word
    rw [List.append_nil, List.take_take, Nat.min_self]
  rw [whole, same]
  exact word_wordBytes_append 4 _ []

theorem toNat_ofNat {n : ℕ} (fits : n < 2 ^ 32) : (BitVec.ofNat 32 n).toNat = n := (BitVec.toNat_ofNat ..).trans (Nat.mod_eq_of_lt fits)

section Fields

variable {bytes block : List Byte} {offset size : ℕ}

theorem u32At_of_readAt (read : readAt bytes offset size = some block) (wide : 4 ≤ size) : u32At bytes offset = some (word 4 block) := by
  unfold readAt at read
  split_ifs at read with inside
  obtain rfl := Option.some.inj read
  unfold u32At
  rw [if_pos (by omega)]
  unfold word
  rw [List.take_take, min_eq_left wide]

end Fields

section Record

variable (gid : ℕ) (e₁ e₂ e₃ e₄ e₅ : ℕ × ℕ)

theorem word_packRecord :
    word 4 ((packRecord (gid, [e₁, e₂, e₃, e₄, e₅])).drop 0) = BitVec.ofNat 32 gid ∧
    word 4 ((packRecord (gid, [e₁, e₂, e₃, e₄, e₅])).drop 4) = BitVec.ofNat 32 e₁.1 ∧
    word 4 ((packRecord (gid, [e₁, e₂, e₃, e₄, e₅])).drop 8) = BitVec.ofNat 32 e₂.1 ∧
    word 4 ((packRecord (gid, [e₁, e₂, e₃, e₄, e₅])).drop 12) = BitVec.ofNat 32 e₃.1 ∧
    word 4 ((packRecord (gid, [e₁, e₂, e₃, e₄, e₅])).drop 16) = BitVec.ofNat 32 e₄.1 ∧
    word 4 ((packRecord (gid, [e₁, e₂, e₃, e₄, e₅])).drop 20) = BitVec.ofNat 32 e₅.1 :=
  ⟨word_of_take rfl, word_of_take rfl, word_of_take rfl, word_of_take rfl, word_of_take rfl, word_of_take rfl⟩

theorem getD_packRecord :
    (packRecord (gid, [e₁, e₂, e₃, e₄, e₅])).getD 24 0 = BitVec.ofNat 8 e₁.2 ∧
    (packRecord (gid, [e₁, e₂, e₃, e₄, e₅])).getD 25 0 = BitVec.ofNat 8 e₂.2 ∧
    (packRecord (gid, [e₁, e₂, e₃, e₄, e₅])).getD 26 0 = BitVec.ofNat 8 e₃.2 ∧
    (packRecord (gid, [e₁, e₂, e₃, e₄, e₅])).getD 27 0 = BitVec.ofNat 8 e₄.2 ∧
    (packRecord (gid, [e₁, e₂, e₃, e₄, e₅])).getD 28 0 = BitVec.ofNat 8 e₅.2 := ⟨rfl, rfl, rfl, rfl, rfl⟩

theorem word_packEntry (entry : ExeEntry) :
    word 4 (packEntry entry) = BitVec.ofNat 32 entry.exe.1 ∧
    word 4 ((packEntry entry).drop 4) = BitVec.ofNat 32 entry.shape.1 ∧
    word 4 ((packEntry entry).drop 8) = BitVec.ofNat 32 entry.idx := ⟨word_of_take rfl, word_of_take rfl, word_of_take rfl⟩

theorem getD_packEntry (entry : ExeEntry) :
    (packEntry entry).getD 12 0 = BitVec.ofNat 8 entry.exe.2 ∧ (packEntry entry).getD 13 0 = BitVec.ofNat 8 entry.shape.2 :=
  ⟨rfl, rfl⟩

end Record

theorem length_packRecord {record : ℕ × List (ℕ × ℕ)} (five : record.2.length = 5) : (packRecord record).length = HEAD_RECORD_LEN := by
  unfold packRecord
  rw [List.length_append, List.length_append, length_blocks fun n _ => length_packU32 n, List.length_cons, List.length_map, List.length_map, five]
  rfl

theorem length_packEntry (entry : ExeEntry) : (packEntry entry).length = EXE_ENTRY_LEN := rfl

/-! ## What is accepted -/

/-- The head with its executables indexed. -/
def indexed (h : Head) : Head := { h with byExe := h.buildExeMap }

theorem parse_eq_some_iff {bytes : List Byte} {head : Head} :
    Head.parse bytes = some head ↔ ¬ (bytes.length < HEAD_HEADER_LEN ∨ bytes.take 4 ≠ MAGIC_HEAD) ∧
      ∃ count off exes : BitVec 32, u32At bytes 4 = some count ∧ u32At bytes 8 = some off ∧ u32At bytes 12 = some exes ∧
        ¬ (HEAD_HEADER_LEN + count.toNat * HEAD_RECORD_LEN + exes.toNat * EXE_ENTRY_LEN > off.toNat ∨ off.toNat > bytes.length) ∧
        indexed ⟨bytes, count.toNat, off.toNat, exes.toNat, []⟩ = head := by
  unfold Head.parse
  constructor
  · intro parsed
    split_ifs at parsed with refused
    obtain ⟨count, known, parsed⟩ := Option.bind_eq_some_iff.mp parsed
    obtain ⟨off, known', parsed⟩ := Option.bind_eq_some_iff.mp parsed
    obtain ⟨exes, known'', parsed⟩ := Option.bind_eq_some_iff.mp parsed
    dsimp only at parsed
    split_ifs at parsed with outside
    exact ⟨refused, count, off, exes, known, known', known'', outside, Option.some.inj parsed⟩
  · rintro ⟨accepted, count, off, exes, known, known', known'', inside, rfl⟩
    rw [if_neg accepted, known, known', known'']
    exact if_neg inside

/-! ## Lists in step -/

section InStep

variable {α β : Type*} {R : α → β → Prop} {l : List α} {l' : List β}

theorem getElem?_of_forall₂ (all : List.Forall₂ R l l') {i : ℕ} {a : α} (known : l[i]? = some a) : ∃ b, l'[i]? = some b ∧ R a b := by
  obtain ⟨inside, rfl⟩ := List.getElem?_eq_some_iff.mp known
  have inside' : i < l'.length := all.length_eq ▸ inside
  exact ⟨l'[i], List.getElem?_eq_getElem inside', all.get inside inside'⟩

theorem exists_of_forall₂ (all : List.Forall₂ R l l') {b : β} (member : b ∈ l') : ∃ a ∈ l, R a b := by
  obtain ⟨i, inside, rfl⟩ := List.mem_iff_getElem.mp member
  have inside' : i < l.length := all.length_eq ▸ inside
  exact ⟨l[i], List.getElem_mem inside', all.get inside' inside⟩

end InStep

/-! ## The file -/

section File

variable (u : Unicode) (c : Catalogue)

def header : List Byte := MAGIC_HEAD ++ packU32 c.included.length ++ packU32 (c.stringsOff u) ++ packU32 (c.exeEntries u).length

def file : List Byte :=
  header u c ++ ((c.records u).flatMap packRecord ++ ((c.exeEntries u).flatMap packEntry ++ (c.blob u).buf))

/-- The head is read from the packed file. -/
structure Reads (h : Head) : Prop where
  bytes : h.bytes = file u c
  count : h.count = c.included.length
  stringsOff : h.stringsOff = c.stringsOff u
  exeCount : h.exeCount = (rows u c).length

variable {u c}

theorem length_header : (header u c).length = HEAD_HEADER_LEN := rfl

theorem length_of_mem_records {record : ℕ × List (ℕ × ℕ)} (member : record ∈ c.records u) :
    (packRecord record).length = HEAD_RECORD_LEN := by
  obtain ⟨gid, -, of⟩ := exists_of_forall₂ (records_spec u c) member
  exact length_packRecord of.strings.length_eq.symm

theorem length_records : ((c.records u).flatMap packRecord).length = c.included.length * HEAD_RECORD_LEN := by
  rw [length_blocks fun _ member => length_of_mem_records member, (records_spec u c).length_eq]

theorem length_entries : ((c.exeEntries u).flatMap packEntry).length = (rows u c).length * EXE_ENTRY_LEN := by
  rw [length_blocks fun entry _ => length_packEntry entry, (exeEntries_spec u c).length_eq]

theorem stringsOff_eq : c.stringsOff u = HEAD_HEADER_LEN + c.included.length * HEAD_RECORD_LEN + (rows u c).length * EXE_ENTRY_LEN := by
  unfold Catalogue.stringsOff
  rw [length_records, length_entries]
  rfl

theorem length_file : (file u c).length = c.stringsOff u + (c.blob u).buf.length := by
  unfold file
  rw [List.length_append, List.length_append, List.length_append, length_header, length_records, length_entries, stringsOff_eq]
  omega

variable {h : Head}

theorem Reads.readAt_record (reads : Reads u c h) {i gid : ℕ} (known : c.included[i]? = some gid) :
    ∃ record, RecordOf u c (c.blob u).buf gid record ∧
      readAt h.bytes (HEAD_HEADER_LEN + i * HEAD_RECORD_LEN) HEAD_RECORD_LEN = some (packRecord record) := by
  obtain ⟨record, here, of⟩ := getElem?_of_forall₂ (records_spec u c) known
  refine ⟨record, of, ?_⟩
  rw [reads.bytes, file, ← @length_header u c, readAt_append_right]
  exact readAt_append_left (readAt_blocks (fun _ member => length_of_mem_records member) here)

theorem Reads.readAt_entry (reads : Reads u c h) {i : ℕ} {row : Row} (known : (rows u c)[i]? = some row) :
    ∃ entry, EntryOf (c.blob u).buf row entry ∧
      readAt h.bytes (h.exeBase + i * EXE_ENTRY_LEN) EXE_ENTRY_LEN = some (packEntry entry) := by
  obtain ⟨entry, here, of⟩ := getElem?_of_forall₂ (exeEntries_spec u c) known
  refine ⟨entry, of, ?_⟩
  unfold Head.exeBase
  rw [reads.bytes, reads.count, file, ← @length_header u c, ← @length_records u c, Nat.add_assoc, readAt_append_right, readAt_append_right]
  exact readAt_append_left (readAt_blocks (fun entry _ => length_packEntry entry) here)

/-- A string of the blob is read back. -/
theorem Reads.stringAt (reads : Reads u c h) (small : (c.blob u).buf.length < 2 ^ 32) {s : Text} {entry : ℕ × ℕ}
    (holds : Holds (c.blob u).buf s entry) : h.stringAt (BitVec.ofNat 32 entry.1) (BitVec.ofNat 8 entry.2) = readBack s := by
  obtain ⟨off, len⟩ := holds.packs small
  have offset : (BitVec.ofNat 32 entry.1).toNat = entry.1 := toNat_ofNat off
  have length : (BitVec.ofNat 8 entry.2).toNat = entry.2 := (BitVec.toNat_ofNat ..).trans (Nat.mod_eq_of_lt len)
  unfold Head.stringAt
  by_cases none' : BitVec.ofNat 8 entry.2 = 0
  · have empty : cut s = [] := by
      rw [none'] at length
      rw [← List.length_eq_zero_iff, ← holds.size, ← length]
      rfl
    unfold readBack
    rw [if_pos none', empty, show ([] : List Byte) = encode [] from rfl, decode_encode]
    rfl
  · have whole : readAt (file u c) (c.stringsOff u + entry.1) entry.2 = some (cut s) := by
      rw [stringsOff_eq, ← @length_records u c, ← @length_entries u c, ← @length_header u c, file, Nat.add_assoc, Nat.add_assoc,
        readAt_append_right, readAt_append_right, readAt_append_right]
      exact holds.read
    rw [if_neg none', offset, length, reads.bytes, reads.stringsOff, whole]
    rfl

/-! ## The records -/

variable (u c) in
/-- The entry of a game. -/
def entryOf (gid : ℕ) : CatalogueEntry where
  igdbId := BitVec.ofNat 32 gid
  gameId := readBack ((c.gameIds gid).getD (c.nameAndSlug gid).2)
  name := readBack (c.nameAndSlug gid).1
  slug := readBack (c.nameAndSlug gid).2
  shortName := readBack (deriveShortName u (c.nameAndSlug gid).1 (c.nameAndSlug gid).2)
  coverImage := readBack ((c.covers gid).getD [])

theorem strings_eq (gid : ℕ) :
    c.strings u gid = [(c.nameAndSlug gid).1, (c.nameAndSlug gid).2, deriveShortName u (c.nameAndSlug gid).1 (c.nameAndSlug gid).2,
      (c.covers gid).getD [], (c.gameIds gid).getD (c.nameAndSlug gid).2] := rfl

theorem Reads.entryAt (reads : Reads u c h) (small : (c.blob u).buf.length < 2 ^ 32) {i gid : ℕ} (known : c.included[i]? = some gid) :
    h.entryAt i = some (entryOf u c gid) := by
  obtain ⟨⟨id, entries⟩, of, read⟩ := reads.readAt_record known
  obtain rfl : id = gid := of.id
  have strings := of.strings
  rw [strings_eq] at strings
  obtain ⟨e₁, rest₁, name, strings₁, rfl⟩ := List.forall₂_cons_left_iff.mp strings
  obtain ⟨e₂, rest₂, slug, strings₂, rfl⟩ := List.forall₂_cons_left_iff.mp strings₁
  obtain ⟨e₃, rest₃, short, strings₃, rfl⟩ := List.forall₂_cons_left_iff.mp strings₂
  obtain ⟨e₄, rest₄, cover, strings₄, rfl⟩ := List.forall₂_cons_left_iff.mp strings₃
  obtain ⟨e₅, rest₅, gameId, strings₅, rfl⟩ := List.forall₂_cons_left_iff.mp strings₄
  obtain rfl := List.forall₂_nil_left_iff.mp strings₅
  obtain ⟨w₀, w₁, w₂, w₃, w₄, w₅⟩ := word_packRecord id e₁ e₂ e₃ e₄ e₅
  obtain ⟨l₁, l₂, l₃, l₄, l₅⟩ := getD_packRecord id e₁ e₂ e₃ e₄ e₅
  unfold Head.entryAt
  rw [read, Option.map_some]
  dsimp only
  rw [w₀, w₁, w₂, w₃, w₄, w₅, l₁, l₂, l₃, l₄, l₅, reads.stringAt small name, reads.stringAt small slug, reads.stringAt small short,
    reads.stringAt small cover, reads.stringAt small gameId]
  rfl

theorem mem_ids_of_mem_included {gid : ℕ} (member : gid ∈ c.included) : gid ∈ c.ids := by
  have ranked : gid ∈ c.ranked → gid ∈ c.ids := by
    intro inside
    unfold Catalogue.ranked sliceTo at inside
    split_ifs at inside
    all_goals exact (List.mergeSort_perm c.ids _).mem_iff.mp (List.mem_of_mem_take inside)
  have inside := List.mem_dedup.mp ((List.mergeSort_perm _ _).mem_iff.mp member)
  rcases List.mem_append.mp inside with first | curated
  · exact ranked first
  · exact of_decide_eq_true (List.mem_filter.mp curated).2

theorem mem_included_of_mapped {mapping : Mapping × ℕ} (member : mapping ∈ c.mappings) (known : mapping.2 ∈ c.ids) :
    mapping.2 ∈ c.included := by
  apply (List.mergeSort_perm _ _).mem_iff.mpr
  apply List.mem_dedup.mpr
  apply List.mem_append_right
  exact List.mem_filter.mpr ⟨List.mem_map_of_mem member, decide_eq_true known⟩

theorem ascending_included : c.included.Pairwise (· < ·) := by
  have sorted : c.included.Pairwise fun a b => decide (a ≤ b) = true := by
    refine List.pairwise_mergeSort (fun a b d first second => ?_) (fun a b => ?_) _
    · rw [decide_eq_true_iff] at *
      exact first.trans second
    · rw [Bool.or_eq_true, decide_eq_true_iff, decide_eq_true_iff]
      exact Nat.le_total a b
  have distinct : c.included.Nodup := (List.mergeSort_perm _ _).nodup_iff.mpr (List.nodup_dedup _)
  exact sorted.imp₂ (fun a b le ne => lt_of_le_of_ne (of_decide_eq_true le) ne) distinct

theorem Reads.get (reads : Reads u c h) (small : (c.blob u).buf.length < 2 ^ 32) (fits : ∀ gid ∈ c.included, gid < 2 ^ 32)
    (id : BitVec 32) : h.get id = if id.toNat ∈ c.included then some (entryOf u c id.toNat) else none := by
  have keys : ∀ j < c.included.length,
      (u32At h.bytes (HEAD_HEADER_LEN + j * HEAD_RECORD_LEN)).map BitVec.toNat = c.included[j]? := by
    intro j inside
    have known := List.getElem?_eq_getElem inside
    obtain ⟨record, of, read⟩ := reads.readAt_record known
    have first : word 4 (packRecord record) = BitVec.ofNat 32 record.1 := word_of_take rfl
    rw [u32At_of_readAt read (by decide), first, of.id, Option.map_some, toNat_ofNat (fits _ (List.getElem_mem inside)), known]
  have found (i : ℕ) := @BinarySearch.search_eq_some_iff ℕ _ _ id.toNat i _ ascending_included keys
  unfold Head.get
  rw [reads.count]
  split_ifs with member
  · obtain ⟨i, known⟩ := List.mem_iff_getElem?.mp member
    rw [(found i).mpr known, Option.bind_some, reads.entryAt small known]
  · cases position : BinarySearch.search (fun mid => (u32At h.bytes (HEAD_HEADER_LEN + mid * HEAD_RECORD_LEN)).map BitVec.toNat)
        id.toNat 0 c.included.length with
    | none => rfl
    | some i => exact absurd (List.mem_of_getElem? ((found i).mp position)) member

/-! ## Packing and parsing -/

theorem u32At_file : u32At (file u c) 4 = some (BitVec.ofNat 32 c.included.length) ∧
    u32At (file u c) 8 = some (BitVec.ofNat 32 (c.stringsOff u)) ∧ u32At (file u c) 12 = some (BitVec.ofNat 32 (c.exeEntries u).length) := by
  have field {n offset : ℕ} (read : readAt (header u c) offset 4 = some (packU32 n)) : u32At (file u c) offset = some (BitVec.ofNat 32 n) := by
    have first : word 4 (packU32 n) = BitVec.ofNat 32 n := word_of_take rfl
    have whole : readAt (file u c) offset 4 = some (packU32 n) := readAt_append_left read
    rw [u32At_of_readAt whole le_rfl, first]
  exact ⟨field rfl, field rfl, field rfl⟩

/-- A catalogue whose numbers fit is packed. -/
theorem buildHead_of_lt (small : (c.blob u).buf.length < 2 ^ 32) (fits : ∀ gid ∈ c.included, gid < 2 ^ 32)
    (mapped : ∀ mapping ∈ c.mappings, mapping.2 ∈ c.included) (room : c.stringsOff u < 2 ^ 32) : c.buildHead u = some (file u c) := by
  have layout := @stringsOff_eq u c
  have same : (c.exeEntries u).length = (rows u c).length := (exeEntries_spec u c).length_eq.symm
  unfold HEAD_HEADER_LEN HEAD_RECORD_LEN EXE_ENTRY_LEN at layout
  have records : ∀ record ∈ c.records u, record.1 < 2 ^ 32 ∧ ∀ entry ∈ record.2, Packs entry := by
    intro record member
    obtain ⟨gid, known, of⟩ := exists_of_forall₂ (records_spec u c) member
    refine ⟨of.id ▸ fits gid known, fun entry inside => ?_⟩
    obtain ⟨s, -, holds⟩ := exists_of_forall₂ of.strings inside
    exact holds.packs small
  have entries : ∀ entry ∈ c.exeEntries u, Packs entry.exe ∧ Packs entry.shape ∧ entry.idx < 2 ^ 32 := by
    intro entry member
    obtain ⟨row, known, of⟩ := exists_of_forall₂ (exeEntries_spec u c) member
    refine ⟨of.exe.packs small, of.marker.packs small, ?_⟩
    obtain ⟨mapping, inside, listed⟩ := List.mem_flatMap.mp known
    obtain ⟨exe, -, rfl⟩ := List.mem_map.mp listed
    have position := List.idxOf_lt_length_of_mem (mapped mapping inside)
    rw [of.idx]
    dsimp only
    omega
  unfold Catalogue.buildHead
  rw [if_pos ⟨records, mapped, entries, by omega, room, by omega⟩]
  unfold file header
  rw [List.append_assoc, List.append_assoc]

/-- Where the offset of the strings does not fit, packing fails. -/
theorem room_of_buildHead {bytes : List Byte} (built : c.buildHead u = some bytes) : c.stringsOff u < 2 ^ 32 := by
  unfold Catalogue.buildHead at built
  split_ifs at built with fits
  exact fits.2.2.2.2.1

/-- The file of a catalogue whose offsets fit is accepted. -/
theorem parse_file (room : c.stringsOff u < 2 ^ 32) :
    ∃ head, Head.parse (file u c) = some head ∧ Reads u c head ∧ head.byExe = head.buildExeMap := by
  have layout := @stringsOff_eq u c
  have same : (c.exeEntries u).length = (rows u c).length := (exeEntries_spec u c).length_eq.symm
  unfold HEAD_HEADER_LEN HEAD_RECORD_LEN EXE_ENTRY_LEN at layout
  have long := @length_file u c
  have fits : (BitVec.ofNat 32 c.included.length).toNat = c.included.length := toNat_ofNat (by omega)
  have fits' : (BitVec.ofNat 32 (c.stringsOff u)).toNat = c.stringsOff u := toNat_ofNat room
  have fits'' : (BitVec.ofNat 32 (c.exeEntries u).length).toNat = (rows u c).length := (toNat_ofNat (by omega)).trans same
  have accepted : ¬ ((file u c).length < HEAD_HEADER_LEN ∨ (file u c).take 4 ≠ MAGIC_HEAD) := by
    rintro (short | other)
    · unfold HEAD_HEADER_LEN at short
      omega
    · exact other rfl
  obtain ⟨count, off, exes⟩ := @u32At_file u c
  refine ⟨_, parse_eq_some_iff.mpr ⟨accepted, _, _, _, count, off, exes, ?_, rfl⟩, ⟨rfl, fits, fits', fits''⟩, rfl⟩
  rw [fits, fits', fits'']
  unfold HEAD_HEADER_LEN HEAD_RECORD_LEN EXE_ENTRY_LEN
  omega

end File

end Mello.Core.CatalogueFile
