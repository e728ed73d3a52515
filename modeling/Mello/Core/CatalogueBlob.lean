import Mello.Core.CatalogueHead

/-!
What the strings of the catalogue's blob read back as: a string of more than 255 bytes is cut at its 255th byte, and what
is left is a text only where that byte is the last of a character.
-/

namespace Mello.Core.CatalogueBlob
open Mello.Library Texts Utf8 Extents LittleEndian CatalogueHead StringBlob

/-! ## One string -/

/-- What the reader makes of the bytes of a string. -/
def readBack (s : Text) : Text := (decode (cut s)).getD []

/-- The string, or a front of it where it is longer than 255 bytes. -/
structure Shown (s t : Text) : Prop where
  front : t <+: s
  short : size t ≤ 255
  whole : size s ≤ 255 → t = s
  some' : s ≠ [] → t ≠ []

/-- The 255th byte is not in the middle of a character. -/
def CutsClean (s : Text) : Prop := size s ≤ 255 ∨ ∃ front back, s = front ++ back ∧ size front = 255

section Strings

variable {s : Text}

theorem length_cut (s : Text) : (cut s).length = min 255 (size s) := by
  unfold cut
  rw [List.length_take, length_encode]

theorem cut_of_le (short : size s ≤ 255) : cut s = encode s := by
  apply List.take_of_length_le
  rw [length_encode]
  exact short

theorem readBack_of_le (short : size s ≤ 255) : readBack s = s := by
  unfold readBack
  rw [cut_of_le short, decode_encode]
  rfl

theorem readBack_append {front : Text} (wide : size front = 255) (back : Text) : readBack (front ++ back) = front := by
  have bytes : cut (front ++ back) = encode front := by
    unfold cut
    rw [encode_append]
    exact List.take_left' ((length_encode front).trans wide)
  unfold readBack
  rw [bytes, decode_encode]
  rfl

theorem shown_iff : Shown s (readBack s) ↔ CutsClean s := by
  constructor
  · intro shown
    by_cases short : size s ≤ 255
    · exact .inl short
    · have long : s ≠ [] := by
        intro empty
        rw [empty] at short
        exact short (Nat.zero_le 255)
      have filled := shown.some' long
      cases text : decode (cut s) with
      | none =>
        refine absurd ?_ filled
        unfold readBack
        rw [text]
        rfl
      | some t =>
        have same : readBack s = t := by
          unfold readBack
          rw [text]
          rfl
        have bytes := congrArg List.length (encode_of_decode text)
        rw [length_encode, length_cut, min_eq_left (not_le.mp short).le] at bytes
        obtain ⟨back, whole⟩ := shown.front
        exact .inr ⟨t, back, by rw [← same, whole], bytes⟩
  · rintro (short | ⟨front, back, rfl, wide⟩)
    · rw [readBack_of_le short]
      exact ⟨List.prefix_refl s, short, fun _ => rfl, id⟩
    · have longer := size_append front back
      rw [readBack_append wide]
      exact {
        front := List.prefix_append front back
        short := wide.le
        whole := fun short => by
          have none' : back = [] := by
            by_contra more
            have positive := size_pos more
            omega
          rw [none', List.append_nil]
        some' := fun _ empty => by
          rw [empty] at wide
          cases wide }

/-- A short name is at most eight characters long. -/
theorem length_deriveShortName_le (u : Unicode) (name slug : Text) : (deriveShortName u name slug).length ≤ 8 := by
  have overrides : ∀ override ∈ SHORT_NAME_OVERRIDES, override.2.toList.length ≤ 8 := by decide
  unfold deriveShortName
  split
  next override found => exact overrides override (List.mem_of_find?_eq_some found)
  next =>
    split
    next short => omega
    next =>
      dsimp only
      split
      · exact (List.length_take_le 7 name).trans (by decide)
      · exact List.length_take_le 8 _
      · split
        · exact List.length_take_le 8 _
        · exact (List.length_take_le 7 name).trans (by decide)

theorem size_le (text : Text) : size text ≤ 4 * text.length := by
  induction text with
  | nil => exact Nat.zero_le _
  | cons c rest ih =>
    have narrow := c.utf8Size_le_four
    rw [size_cons, List.length_cons]
    omega

theorem cutsClean_deriveShortName (u : Unicode) (name slug : Text) : CutsClean (deriveShortName u name slug) := by
  have few := length_deriveShortName_le u name slug
  have bytes := size_le (deriveShortName u name slug)
  exact .inl (by omega)

end Strings

/-! ## The blob -/

/-- The entry is where the bytes of the string are. -/
structure Holds (buf : List Byte) (s : Text) (entry : ℕ × ℕ) : Prop where
  size : entry.2 = (cut s).length
  read : readAt buf entry.1 entry.2 = some (cut s)

section Holds

variable {buf longer : List Byte} {s : Text} {entry : ℕ × ℕ}

theorem Holds.mono (holds : Holds buf s entry) (grown : buf <+: longer) : Holds longer s entry := by
  obtain ⟨more, rfl⟩ := grown
  exact ⟨holds.size, readAt_append_left holds.read⟩

theorem Holds.inside (holds : Holds buf s entry) : entry.1 + entry.2 ≤ buf.length := by
  have read := holds.read
  unfold readAt at read
  split_ifs at read with inside
  exact inside

theorem Holds.packs (holds : Holds buf s entry) (small : buf.length < 2 ^ 32) : Packs entry := by
  have inside := holds.inside
  have few := holds.size
  rw [length_cut] at few
  exact ⟨by omega, by omega⟩

end Holds

/-- What was seen is in the blob. -/
def Sound (blob : StringBlob) : Prop :=
  ∀ known ∈ blob.seen, known.2.2 = known.1.length ∧ readAt blob.buf known.2.1 known.2.2 = some known.1

/-- A sound blob that keeps what it had. -/
structure Grown (blob later : StringBlob) : Prop where
  sound : Sound later
  longer : blob.buf <+: later.buf

theorem Grown.trans {blob later last : StringBlob} (first : Grown blob later) (second : Grown later last) : Grown blob last :=
  ⟨second.sound, first.longer.trans second.longer⟩

theorem sound_empty : Sound {} := fun _ member => absurd member List.not_mem_nil

section Blob

variable {blob : StringBlob}

theorem add_spec (sound : Sound blob) (s : Text) :
    Grown blob (blob.add s).1 ∧ Holds (blob.add s).1.buf s (blob.add s).2 := by
  unfold StringBlob.add
  split_ifs with empty
  · rw [empty]
    exact ⟨⟨sound, List.prefix_refl _⟩, rfl, if_pos (Nat.zero_le _)⟩
  · cases found : blob.seen.find? fun known => known.1 = cut s with
    | some known =>
      obtain ⟨size, read⟩ := sound known (List.mem_of_find?_eq_some found)
      have chosen := List.find?_some found
      have same : known.1 = cut s := of_decide_eq_true chosen
      rw [same] at size read
      exact ⟨⟨sound, List.prefix_refl _⟩, size, read⟩
    | none =>
      have here : readAt (blob.buf ++ cut s) (blob.buf.length + 0) (cut s).length = some (cut s) := by
        rw [readAt_append_right]
        unfold readAt
        rw [if_pos (Nat.zero_add _).le, List.drop_zero, List.take_length]
      refine ⟨⟨?_, List.prefix_append _ _⟩, rfl, here⟩
      exact List.forall_mem_cons.mpr ⟨⟨rfl, here⟩, fun known member => ⟨(sound known member).1, readAt_append_left (sound known member).2⟩⟩

theorem addAll_spec (sound : Sound blob) (texts : List Text) :
    Grown blob (blob.addAll texts).1 ∧ List.Forall₂ (Holds (blob.addAll texts).1.buf) texts (blob.addAll texts).2 := by
  induction texts generalizing blob with
  | nil => exact ⟨⟨sound, List.prefix_refl _⟩, .nil⟩
  | cons s rest ih =>
    obtain ⟨grown, holds⟩ := add_spec sound s
    obtain ⟨later, all⟩ := ih grown.sound
    exact ⟨grown.trans later, .cons (holds.mono later.longer) all⟩

end Blob

/-! ## The tables -/

/-- The record is of the game, and its entries are where its strings are. -/
structure RecordOf (u : Unicode) (c : Catalogue) (buf : List Byte) (gid : ℕ) (record : ℕ × List (ℕ × ℕ)) : Prop where
  id : record.1 = gid
  strings : List.Forall₂ (Holds buf) (c.strings u gid) record.2

/-- An executable of the mappings: its name, the marker of its path, and the index of its game. -/
structure Row where
  exe : Text
  marker : Text
  idx : ℕ
  deriving DecidableEq

structure EntryOf (buf : List Byte) (row : Row) (entry : ExeEntry) : Prop where
  exe : Holds buf row.exe entry.exe
  marker : Holds buf row.marker entry.shape
  idx : entry.idx = row.idx

section Tables

variable (u : Unicode) (c : Catalogue)

/-- The executables in the order of the mappings. -/
def rowsOf (mapping : Mapping × ℕ) : List Row :=
  mapping.1.exe.map fun exe => ⟨u.lower exe, Catalogue.marker u mapping.1, c.included.idxOf mapping.2⟩

def rows : List Row := c.mappings.flatMap (rowsOf u c)

variable {u c} {buf longer : List Byte} {blob : StringBlob}

theorem RecordOf.mono {gid : ℕ} {record : ℕ × List (ℕ × ℕ)} (of : RecordOf u c buf gid record) (grown : buf <+: longer) :
    RecordOf u c longer gid record := ⟨of.id, of.strings.imp fun _ _ holds => holds.mono grown⟩

theorem EntryOf.mono {row : Row} {entry : ExeEntry} (of : EntryOf buf row entry) (grown : buf <+: longer) :
    EntryOf longer row entry := ⟨of.exe.mono grown, of.marker.mono grown, of.idx⟩

theorem addRecords_spec (sound : Sound blob) (gids : List ℕ) :
    Grown blob (c.addRecords u blob gids).1 ∧
      List.Forall₂ (RecordOf u c (c.addRecords u blob gids).1.buf) gids (c.addRecords u blob gids).2 := by
  induction gids generalizing blob with
  | nil => exact ⟨⟨sound, List.prefix_refl _⟩, .nil⟩
  | cons gid rest ih =>
    obtain ⟨grown, holds⟩ := addAll_spec sound (c.strings u gid)
    obtain ⟨later, all⟩ := ih grown.sound
    exact ⟨grown.trans later, .cons (RecordOf.mono ⟨rfl, holds⟩ later.longer) all⟩

theorem addMappings_spec (sound : Sound blob) (mappings : List (Mapping × ℕ)) :
    Grown blob (c.addMappings u blob mappings).1 ∧
      List.Forall₂ (EntryOf (c.addMappings u blob mappings).1.buf) (mappings.flatMap (rowsOf u c)) (c.addMappings u blob mappings).2 := by
  induction mappings generalizing blob with
  | nil => exact ⟨⟨sound, List.prefix_refl _⟩, .nil⟩
  | cons mapping rest ih =>
    obtain ⟨grown, marker⟩ := add_spec sound (Catalogue.marker u mapping.1)
    obtain ⟨grown', exes⟩ := addAll_spec grown.sound (mapping.1.exe.map u.lower)
    obtain ⟨later, all⟩ := ih grown'.sound
    refine ⟨(grown.trans grown').trans later, List.rel_append ?_ all⟩
    rw [rowsOf, List.forall₂_map_left_iff, List.forall₂_map_right_iff]
    rw [List.forall₂_map_left_iff] at exes
    exact exes.imp fun exe entry holds =>
      ⟨holds.mono later.longer, (marker.mono grown'.longer).mono later.longer, rfl⟩

variable (u c)

theorem records_spec : List.Forall₂ (RecordOf u c (c.blob u).buf) c.included (c.records u) := by
  obtain ⟨grown, records⟩ := @addRecords_spec u c {} sound_empty c.included
  obtain ⟨later, -⟩ := @addMappings_spec u c _ grown.sound c.mappings
  exact records.imp fun _ _ of => of.mono later.longer

theorem exeEntries_spec : List.Forall₂ (EntryOf (c.blob u).buf) (rows u c) (c.exeEntries u) := by
  obtain ⟨grown, -⟩ := @addRecords_spec u c {} sound_empty c.included
  exact (@addMappings_spec u c _ grown.sound c.mappings).2

end Tables

end Mello.Core.CatalogueBlob
