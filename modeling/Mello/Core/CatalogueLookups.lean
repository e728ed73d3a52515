import Mello.Core.CatalogueFile

/-!
The executables of a packed head: the reader goes through those of the name in the order of the mappings, so the first
mapping whose marker is in the path wins, and the first without a marker is the fallback.
-/

namespace Mello.Core.CatalogueLookups
open Mello.Library Texts Utf8 Extents LittleEndian CatalogueHead CatalogueBlob CatalogueFile

/-! ## What a lookup is for -/

def markerOf (mapping : Mapping × ℕ) : Text := mapping.1.pathContains.getD []

/-- Names are compared letter by letter. -/
local instance lawfulNames : LawfulBEq (List Char) := inferInstance

/-- The mappings of an executable, in any letter case. -/
def mappingsOf (c : Catalogue) (exe : Text) : List (Mapping × ℕ) :=
  c.mappings.filter fun mapping => exe.map Char.toLower ∈ mapping.1.exe.map (List.map Char.toLower)

/-- The marker is in the path, in any letter case. -/
def InPath (path marker : Text) : Prop := marker ≠ [] ∧ marker.map Char.toLower <:+: path.map Char.toLower

instance (path marker : Text) : Decidable (InPath path marker) := inferInstanceAs (Decidable (_ ∧ _))

/-- The game of an executable: of the first mapping whose marker is in the path, else of the first without a marker. -/
def target (c : Catalogue) (exe path : Text) : Option ℕ :=
  (((mappingsOf c exe).find? fun mapping => InPath path (markerOf mapping)).or
    ((mappingsOf c exe).find? fun mapping => markerOf mapping = [])).map Prod.snd

/-! ## The rows of a name -/

def hit (path marker : Text) : Bool := marker ≠ [] ∧ marker <:+: path

def bare (marker : Text) : Bool := marker = []

/-- What the reader can find a game by: all of the name, all of the marker and the index. -/
structure Plain (row : Row) : Prop where
  some' : row.exe ≠ []
  exe : size row.exe ≤ 255
  marker : size row.marker ≤ 255
  idx : row.idx < 2 ^ 32

section Rows

variable {u : Unicode} {c : Catalogue} {h : Head}

theorem getElem?_of_mem_zipIdx {p : Row × ℕ} (member : p ∈ (rows u c).zipIdx) : (rows u c)[p.2]? = some p.1 :=
  List.mem_zipIdx_iff_getElem?.mp member

variable (small : (c.blob u).buf.length < 2 ^ 32) (plain : ∀ row ∈ rows u c, Plain row)
include small plain

/-- The executables are indexed by their names. -/
theorem buildExeMap_eq (reads : Reads u c h) : h.buildExeMap = (rows u c).zipIdx.map fun p => (p.1.exe, p.2) := by
  have positions : List.range h.exeCount = (rows u c).zipIdx.map Prod.snd := by
    rw [reads.exeCount, List.range_eq_range']
    exact (List.zipIdx_map_snd 0 _).symm
  unfold Head.buildExeMap
  rw [positions, List.filterMap_map, ← List.filterMap_eq_map]
  apply List.filterMap_congr
  rintro ⟨row, i⟩ member
  have known := getElem?_of_mem_zipIdx member
  have whole := plain row (List.mem_of_getElem? known)
  obtain ⟨entry, of, read⟩ := reads.readAt_entry known
  obtain ⟨offset, -, -⟩ := word_packEntry entry
  obtain ⟨length, -⟩ := getD_packEntry entry
  rw [Function.comp_apply, read, Option.bind_some]
  dsimp only
  unfold Head.staticString
  rw [offset, length, reads.stringAt small of.exe, readBack_of_le whole.exe, if_pos whole.some']
  rfl

/-- The candidates of a name are the rows of it. -/
theorem candidates_rows (reads : Reads u c h) (byExe : h.byExe = h.buildExeMap) (key : Text) :
    List.Forall₂ (fun i row => (rows u c)[i]? = some row) ((h.byExe.filter fun entry => entry.1 = key).map Prod.snd)
      ((rows u c).filter fun row => row.exe = key) := by
  have named : (rows u c).filter (fun row => row.exe = key) = ((rows u c).zipIdx.filter fun p => p.1.exe = key).map Prod.fst := by
    have unnumbered : rows u c = (rows u c).zipIdx.map Prod.fst := (List.zipIdx_map_fst 0 _).symm
    conv_lhs => rw [unnumbered]
    rw [List.filter_map]
    rfl
  rw [byExe, buildExeMap_eq small plain reads, named, List.filter_map, List.map_map, List.forall₂_map_left_iff,
    List.forall₂_map_right_iff]
  apply List.forall₂_same.mpr
  intro p member
  exact getElem?_of_mem_zipIdx (List.mem_of_mem_filter member)

/-- The loop over the candidates takes the first whose marker is in the path, else the first without one. -/
theorem lookupAmong_eq (reads : Reads u c h) (path : Text) {candidates : List ℕ} {named : List Row}
    (all : List.Forall₂ (fun i row => (rows u c)[i]? = some row) candidates named) (unguarded : Option ℕ) :
    h.lookupAmong path unguarded candidates =
      (((named.find? fun row => hit path row.marker).map Row.idx).or
        (unguarded.or ((named.find? fun row => bare row.marker).map Row.idx))).bind h.entryAt := by
  induction all generalizing unguarded with
  | nil =>
    rw [Head.lookupAmong, List.find?_nil, List.find?_nil, Option.map_none, Option.none_or, Option.or_none]
  | @cons i row rest named known later ih =>
    have whole := plain row (List.mem_of_getElem? known)
    obtain ⟨entry, of, read⟩ := reads.readAt_entry known
    obtain ⟨-, offset, index⟩ := word_packEntry entry
    obtain ⟨-, length⟩ := getD_packEntry entry
    have position : (BitVec.ofNat 32 entry.idx).toNat = row.idx := by
      rw [of.idx, toNat_ofNat whole.idx]
    rw [Head.lookupAmong, read, Option.bind_some]
    dsimp only
    unfold Head.staticString
    rw [offset, index, length, position, reads.stringAt small of.marker, readBack_of_le whole.marker]
    rw [List.find?_cons, List.find?_cons]
    split_ifs with empty inside
    · have missed : hit path row.marker = false := decide_eq_false fun both => both.1 empty
      have found : bare row.marker = true := decide_eq_true empty
      rw [ih, missed, found, Option.map_some, Option.or_assoc, Option.some_or]
    · have found : hit path row.marker = true := decide_eq_true ⟨empty, inside⟩
      rw [found]
      rfl
    · have missed : hit path row.marker = false := decide_eq_false fun both => inside both.2
      have missed' : bare row.marker = false := decide_eq_false empty
      rw [ih, missed, missed']

end Rows

/-! ## The mappings of a name -/

section Mappings

variable {u : Unicode} {c : Catalogue}

/-- The first row of a mapping that is of the name and has a wanted marker. -/
theorem find?_rowsOf (mapping : Mapping × ℕ) (key : Text) (wanted : Text → Bool) :
    (((rowsOf u c mapping).filter fun row => row.exe = key).find? fun row => wanted row.marker).map Row.idx =
      if key ∈ mapping.1.exe.map u.lower ∧ wanted (Catalogue.marker u mapping.1) = true then some (c.included.idxOf mapping.2) else none := by
  have shape : ∀ row ∈ rowsOf u c mapping, row.marker = Catalogue.marker u mapping.1 ∧ row.idx = c.included.idxOf mapping.2 := by
    intro row member
    obtain ⟨exe, -, rfl⟩ := List.mem_map.mp member
    exact ⟨rfl, rfl⟩
  cases found : ((rowsOf u c mapping).filter fun row => row.exe = key).find? fun row => wanted row.marker with
  | some row =>
    have member := List.mem_filter.mp (List.mem_of_find?_eq_some found)
    have chosen := List.find?_some found
    obtain ⟨marker, idx⟩ := shape row member.1
    obtain ⟨exe, listed, rfl⟩ := List.mem_map.mp member.1
    have named : u.lower exe = key := of_decide_eq_true member.2
    rw [if_pos ⟨named ▸ List.mem_map_of_mem listed, chosen⟩]
    rfl
  | none =>
    rw [if_neg, Option.map_none]
    rintro ⟨listed, chosen⟩
    obtain ⟨exe, inside, named⟩ := List.mem_map.mp listed
    have member : (⟨u.lower exe, Catalogue.marker u mapping.1, c.included.idxOf mapping.2⟩ : Row) ∈
        (rowsOf u c mapping).filter fun row => row.exe = key :=
      List.mem_filter.mpr ⟨List.mem_map_of_mem inside, decide_eq_true named⟩
    exact absurd chosen (List.find?_eq_none.mp found _ member)

/-- The first row of the name with a wanted marker is of the first such mapping. -/
theorem find?_rows (key : Text) (wanted : Text → Bool) :
    (((rows u c).filter fun row => row.exe = key).find? fun row => wanted row.marker).map Row.idx =
      ((c.mappings.filter fun mapping => key ∈ mapping.1.exe.map u.lower).find? fun mapping => wanted (Catalogue.marker u mapping.1)).map
        fun mapping => c.included.idxOf mapping.2 := by
  unfold rows
  induction c.mappings with
  | nil => rfl
  | cons mapping rest ih =>
    rw [List.flatMap_cons, List.filter_append, List.find?_append, Option.map_or, find?_rowsOf, ih]
    by_cases listed : key ∈ mapping.1.exe.map u.lower
    · have taken : decide (key ∈ mapping.1.exe.map u.lower) = true := decide_eq_true listed
      rw [List.filter_cons, if_pos taken, List.find?_cons]
      cases wanted (Catalogue.marker u mapping.1) with
      | true =>
        rw [if_pos ⟨listed, rfl⟩]
        rfl
      | false => rw [if_neg fun both => Bool.false_ne_true both.2, Option.none_or]
    · have skipped : ¬ decide (key ∈ mapping.1.exe.map u.lower) = true := fun both => listed (of_decide_eq_true both)
      rw [List.filter_cons, if_neg skipped, if_neg fun both => listed both.1, Option.none_or]

end Mappings

end Mello.Core.CatalogueLookups
