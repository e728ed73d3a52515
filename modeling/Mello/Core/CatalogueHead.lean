import Mello.Library.Extents
import Mello.Library.Utf8
import Mello.Core.AppIds

/-!
The head of the game catalogue: the build script's packer of the most-played games with their curated executables, and
the client's reader of it.
-/

namespace Mello.Core.CatalogueHead
open Mello.Library LittleEndian Extents Utf8 AppIds

abbrev Text := List Char

/-- `MHD2`. -/
def MAGIC_HEAD : List Byte := [0x4D, 0x48, 0x44, 0x32]

def HEAD_RECORD_LEN : ℕ := 32

def HEAD_HEADER_LEN : ℕ := 16

def EXE_ENTRY_LEN : ℕ := 16

/-! ## The packer -/

/-- Python's methods of texts. -/
structure Unicode where
  isSpace : Char → Bool
  lower : Text → Text
  upper : Char → Text
  isDigit : Text → Bool
  isUpper : Text → Bool
  lower_ascii : ∀ text : Text, (∀ c ∈ text, c.toNat < 128) → lower text = text.map Char.toLower

/-- Hand-picked short names win over derivation. -/
def SHORT_NAME_OVERRIDES : List (String × String) :=
  [("counter-strike-2", "CS2"), ("valorant", "Valorant"), ("league-of-legends", "LoL"), ("fortnite", "Fortnite"),
    ("apex-legends", "Apex"), ("overwatch-2", "OW2"), ("rocket-league", "Rocket"), ("dota-2", "Dota 2"),
    ("rainbow-six-siege", "R6"), ("minecraft-java-edition", "MC"), ("minecraft--1", "MC"),
    ("call-of-duty-warzone", "Warzone"), ("grand-theft-auto-v", "GTA V"), ("destiny-2", "Destiny"),
    ("dead-by-daylight", "DBD"), ("elden-ring", "Elden"), ("the-finals", "Finals"), ("path-of-exile", "PoE"),
    ("helldivers-2", "HD2"), ("escape-from-tarkov", "Tarkov"), ("marvel-rivals", "Rivals"), ("hearthstone", "HS"),
    ("legends-of-runeterra", "LoR"), ("starcraft-ii", "SC2"), ("world-of-warcraft", "WoW"),
    ("teamfight-tactics", "TFT"), ("player-unknowns-battlegrounds", "PUBG"), ("baldurs-gate-3", "BG3")]

/-- Words that never contribute an initial. -/
def STOPWORDS : List String := ["of", "the", "and", "a", "an", "de", "la"]

/-- A badge-sized label: initials of significant words. -/
def deriveShortName (u : Unicode) (name slug : Text) : Text :=
  match SHORT_NAME_OVERRIDES.find? fun override => override.1.toList = slug with
  | some override => override.2.toList
  | none =>
    if name.length ≤ 7 then name
    else
      let words := ((name.map fun c => if c = '-' ∨ c = ':' then ' ' else c).splitOnP u.isSpace).filter (· ≠ [])
      let significant := words.filter fun w => u.lower w ∉ STOPWORDS.map String.toList
      match significant with
      | [] => name.take 7
      | [w] => w.take 8
      | _ =>
        let out := significant.flatMap fun w =>
          if u.isDigit w ∨ (w.length ≤ 2 ∧ u.isUpper w) then w else (w.head?.map u.upper).getD []
        if out ≠ [] then out.take 8 else name.take 7

/-- Deduplicated UTF-8 blob. `seen` is the entry, an offset and a length, of the bytes that are in it. -/
structure StringBlob where
  buf : List Byte := []
  seen : List (List Byte × (ℕ × ℕ)) := []

namespace StringBlob

/-- The bytes that are packed of a text: 255 of them at most. -/
def cut (s : Text) : List Byte := (encode s).take 255

def add (blob : StringBlob) (s : Text) : StringBlob × (ℕ × ℕ) :=
  if s = [] then (blob, (0, 0))
  else
    match blob.seen.find? fun known => known.1 = cut s with
    | some known => (blob, known.2)
    | none =>
      let entry := (blob.buf.length, (cut s).length)
      ({ buf := blob.buf ++ cut s, seen := (cut s, entry) :: blob.seen }, entry)

def addAll : StringBlob → List Text → StringBlob × List (ℕ × ℕ)
  | blob, [] => (blob, [])
  | blob, s :: rest =>
    let (blob, entry) := blob.add s
    let (blob, entries) := blob.addAll rest
    (blob, entry :: entries)

end StringBlob

/-- A curated game and its executables. -/
structure Mapping where
  gameId : Text
  exe : List Text
  pathContains : Option Text := none

/-- Python's `items[:size]`. -/
def sliceTo {α : Type*} (items : List α) (size : ℤ) : List α :=
  if 0 ≤ size then items.take size.toNat else items.take (items.length - (-size).toNat)

/-- What the head is built of. Ids are numbers; the games are a map from ids to names and slugs. -/
structure Catalogue where
  games : List (ℕ × Text × Text)
  covers : ℕ → Option Text
  popularity : ℕ → Option ℤ
  size : ℤ
  mappings : List (Mapping × ℕ)

/-- One executable: its name, the marker of its path, and the index of its game's record. -/
structure ExeEntry where
  exe : ℕ × ℕ
  shape : ℕ × ℕ
  idx : ℕ

namespace Catalogue

variable (u : Unicode) (c : Catalogue)

def ids : List ℕ := c.games.map Prod.fst

def ranked : List ℕ := sliceTo (c.ids.mergeSort fun a b => (c.popularity b).getD 0 ≤ (c.popularity a).getD 0) c.size

/-- The games of the head, by id. -/
def included : List ℕ :=
  ((c.ranked ++ (c.mappings.map Prod.snd).filter (· ∈ c.ids)).dedup).mergeSort fun a b => a ≤ b

def nameAndSlug (gid : ℕ) : Text × Text := ((c.games.find? fun game => game.1 = gid).map Prod.snd).getD ([], [])

/-- The last curated id of a game wins. -/
def gameIds (gid : ℕ) : Option Text := (c.mappings.reverse.find? fun mapping => mapping.2 = gid).map fun mapping => mapping.1.gameId

/-- The five strings of a game: name, slug, short name, cover and game id. -/
def strings (gid : ℕ) : List Text :=
  let (name, slug) := c.nameAndSlug gid
  [name, slug, deriveShortName u name slug, (c.covers gid).getD [], (c.gameIds gid).getD slug]

def marker (m : Mapping) : Text := u.lower (m.pathContains.getD [])

def addRecords : StringBlob → List ℕ → StringBlob × List (ℕ × List (ℕ × ℕ))
  | blob, [] => (blob, [])
  | blob, gid :: rest =>
    let (blob, entries) := blob.addAll (c.strings u gid)
    let (blob, records) := addRecords blob rest
    (blob, (gid, entries) :: records)

def addMappings : StringBlob → List (Mapping × ℕ) → StringBlob × List ExeEntry
  | blob, [] => (blob, [])
  | blob, (m, gid) :: rest =>
    let (blob, shape) := blob.add (marker u m)
    let (blob, exes) := blob.addAll (m.exe.map u.lower)
    let (blob, entries) := addMappings blob rest
    (blob, (exes.map fun exe => ⟨exe, shape, c.included.idxOf gid⟩) ++ entries)

/-- The records, the executables and the blob. -/
def records : List (ℕ × List (ℕ × ℕ)) := (c.addRecords u {} c.included).2

def exeEntries : List ExeEntry := (c.addMappings u (c.addRecords u {} c.included).1 c.mappings).2

def blob : StringBlob := (c.addMappings u (c.addRecords u {} c.included).1 c.mappings).1

end Catalogue

/-- `I` of `struct`. -/
def packU32 (n : ℕ) : List Byte := wordBytes 4 (BitVec.ofNat 32 n)

/-- `<IIIIIIBBBBBxxx` -/
def packRecord (record : ℕ × List (ℕ × ℕ)) : List Byte :=
  (record.1 :: record.2.map Prod.fst).flatMap packU32 ++ (record.2.map fun entry => BitVec.ofNat 8 entry.2) ++ [0, 0, 0]

/-- `<IIIBBH` -/
def packEntry (entry : ExeEntry) : List Byte :=
  [entry.exe.1, entry.shape.1, entry.idx].flatMap packU32 ++ [BitVec.ofNat 8 entry.exe.2, BitVec.ofNat 8 entry.shape.2, 0, 0]

/-- An offset and a length that are packed without an error. -/
def Packs (entry : ℕ × ℕ) : Prop := entry.1 < 2 ^ 32 ∧ entry.2 < 2 ^ 8

instance (entry : ℕ × ℕ) : Decidable (Packs entry) := inferInstanceAs (Decidable (_ ∧ _))

namespace Catalogue

variable (u : Unicode) (c : Catalogue)

def stringsOff : ℕ := 16 + ((c.records u).flatMap packRecord).length + ((c.exeEntries u).flatMap packEntry).length

/-- The bytes of the head. A number that does not fit its field is an error, and so is a mapping to no game. -/
def buildHead : Option (List Byte) :=
  if (∀ record ∈ c.records u, record.1 < 2 ^ 32 ∧ ∀ entry ∈ record.2, Packs entry) ∧
      (∀ mapping ∈ c.mappings, mapping.2 ∈ c.included) ∧
      (∀ entry ∈ c.exeEntries u, Packs entry.exe ∧ Packs entry.shape ∧ entry.idx < 2 ^ 32) ∧
      c.included.length < 2 ^ 32 ∧ c.stringsOff u < 2 ^ 32 ∧ (c.exeEntries u).length < 2 ^ 32 then
    some (MAGIC_HEAD ++ packU32 c.included.length ++ packU32 (c.stringsOff u) ++ packU32 (c.exeEntries u).length ++
      (c.records u).flatMap packRecord ++ (c.exeEntries u).flatMap packEntry ++ (c.blob u).buf)
  else none

end Catalogue

/-! ## The reader -/

/-- A game's display metadata. -/
structure CatalogueEntry where
  igdbId : BitVec 32
  gameId : Text
  name : Text
  slug : Text
  shortName : Text
  coverImage : Text
  deriving DecidableEq, Repr

/-- `byExe` are the executables by name, each with the index of its entry, in the order of the entries. -/
structure Head where
  bytes : List Byte
  count : ℕ
  stringsOff : ℕ
  exeCount : ℕ
  byExe : List (Text × ℕ) := []
  deriving DecidableEq, Repr

namespace Head

variable (h : Head)

/-- The string at an offset of the blob. One that is not there or not UTF-8 is empty. -/
def stringAt (off : BitVec 32) (len : Byte) : Text :=
  if len = 0 then [] else ((readAt h.bytes (h.stringsOff + off.toNat) len.toNat).bind decode).getD []

def staticString (off : BitVec 32) (len : Byte) : Text := h.stringAt off len

def entryAt (i : ℕ) : Option CatalogueEntry :=
  (readAt h.bytes (HEAD_HEADER_LEN + i * HEAD_RECORD_LEN) HEAD_RECORD_LEN).map fun record =>
    let g (k : ℕ) : BitVec 32 := word 4 (record.drop k)
    { igdbId := g 0
      name := h.stringAt (g 4) (record.getD 24 0)
      slug := h.stringAt (g 8) (record.getD 25 0)
      shortName := h.stringAt (g 12) (record.getD 26 0)
      coverImage := h.stringAt (g 16) (record.getD 27 0)
      gameId := h.stringAt (g 20) (record.getD 28 0) }

/-- Look up by IGDB id. -/
def get (igdbId : BitVec 32) : Option CatalogueEntry :=
  (BinarySearch.search (fun mid => (u32At h.bytes (HEAD_HEADER_LEN + mid * HEAD_RECORD_LEN)).map BitVec.toNat) igdbId.toNat 0 h.count).bind
    h.entryAt

def exeBase : ℕ := HEAD_HEADER_LEN + h.count * HEAD_RECORD_LEN

/-- The exe table is indexed once at load. -/
def buildExeMap : List (Text × ℕ) :=
  (List.range h.exeCount).filterMap fun i =>
    (readAt h.bytes (h.exeBase + i * EXE_ENTRY_LEN) EXE_ENTRY_LEN).bind fun e =>
      let exe := h.staticString (word 4 e) (e.getD 12 0)
      if exe ≠ [] then some (exe, i) else none

def parse (bytes : List Byte) : Option Head :=
  if bytes.length < HEAD_HEADER_LEN ∨ bytes.take 4 ≠ MAGIC_HEAD then none
  else do
    let count ← u32At bytes 4
    let stringsOff ← u32At bytes 8
    let exeCount ← u32At bytes 12
    let recordsEnd := HEAD_HEADER_LEN + count.toNat * HEAD_RECORD_LEN
    let exeEnd := recordsEnd + exeCount.toNat * EXE_ENTRY_LEN
    if exeEnd > stringsOff.toNat ∨ stringsOff.toNat > bytes.length then none
    else
      let head : Head := { bytes, count := count.toNat, stringsOff := stringsOff.toNat, exeCount := exeCount.toNat }
      return { head with byExe := head.buildExeMap }

/-- The loop of `lookup_exe` over the entries of a name. -/
def lookupAmong (path : Text) : Option ℕ → List ℕ → Option CatalogueEntry
  | unguarded, [] => unguarded.bind h.entryAt
  | unguarded, i :: rest =>
    (readAt h.bytes (h.exeBase + i * EXE_ENTRY_LEN) EXE_ENTRY_LEN).bind fun e =>
      let recordIdx := (word 4 (e.drop 8)).toNat
      let shape := h.staticString (word 4 (e.drop 4)) (e.getD 13 0)
      if shape = [] then lookupAmong path (unguarded.or (some recordIdx)) rest
      else if shape <:+: path then h.entryAt recordIdx
      else lookupAmong path unguarded rest

/-- Resolve a running process to a curated game. -/
def lookupExe (exe exePath : Text) : Option CatalogueEntry :=
  let key := exe.map Char.toLower
  let candidates := (h.byExe.filter fun entry => entry.1 = key).map Prod.snd
  if candidates = [] then none else h.lookupAmong (exePath.map Char.toLower) none candidates

end Head

end Mello.Core.CatalogueHead
