import Mello.Library.Extents
import Mello.Replay.Mp4Box

/-!
The clip demux, over files from other users. The only reads that the source makes
without a check beside them are those of the sample tables; a read past the end of
a table is a fault here. An allocation succeeds.
-/

namespace Mello.Replay.Mp4Demux
open Mello.Library BigEndian Mp4Box

def kMaxMoov : Nat := 32 * 2 ^ 20
def kMaxSamples : Nat := 2000000
def kVisual : Nat := 78
def kAudio : Nat := 28

structure Mp4Sample where
  offset : Nat
  size : Nat
  time : Int := 0
  duration : Nat := 0
  sync : Bool := false
  deriving DecidableEq, Repr

inductive Kind where
  | video
  | audio
  | other
  deriving DecidableEq, Repr

structure Mp4Track where
  kind : Kind := .other
  trackId : Nat := 0
  codec : Nat := 0
  supported : Bool := false
  timescale : Nat := 0
  editMediaTime : Int := 0
  samples : List Mp4Sample := []
  width : Nat := 0
  height : Nat := 0
  nalLengthSize : Nat := 4
  sps : List (List Byte) := []
  pps : List (List Byte) := []
  channels : Nat := 0
  sampleRate : Nat := 0
  preSkip : Nat := 0
  rollDistance : Int := 0
  deriving DecidableEq, Repr

structure Mp4Movie where
  fileSize : Nat
  durationUs : Nat
  tracks : List Mp4Track
  deriving DecidableEq, Repr

namespace Mp4Movie

def video (movie : Mp4Movie) : Option Mp4Track := movie.tracks.find? fun t => t.kind = .video ∧ t.supported

def audio (movie : Mp4Movie) : Option Mp4Track := movie.tracks.find? fun t => t.kind = .audio ∧ t.supported

end Mp4Movie

/-- A value, the text of a failure, or a read past the end of a table. -/
inductive Outcome (α : Type) where
  | ok (value : α)
  | failed (error : String)
  | fault
  deriving DecidableEq, Repr

namespace Outcome

variable {α β : Type}

def andThen (first : Outcome α) (next : α → Outcome β) : Outcome β :=
  match first with
  | .ok value => next value
  | .failed error => .failed error
  | .fault => .fault

instance : Monad Outcome where
  pure := .ok
  bind := andThen

/-- An element of a table. -/
def at_ (table : List α) (i : Nat) : Outcome α :=
  match table[i]? with
  | some value => .ok value
  | none => .fault

@[simp] theorem pure_eq (value : α) : (pure value : Outcome α) = .ok value := rfl

@[simp] theorem ok_bind (value : α) (next : α → Outcome β) : (Outcome.ok value >>= next) = next value := rfl

@[simp] theorem failed_bind (error : String) (next : α → Outcome β) :
    (Outcome.failed error >>= next) = .failed error := rfl

theorem bind_ok (first : Outcome α) : (first >>= fun value => (.ok value : Outcome α)) = first := by cases first <;> rfl

theorem bind_assoc {γ : Type} (first : Outcome α) (next : α → Outcome β) (last : β → Outcome γ) :
    (first >>= next) >>= last = first >>= fun value => next value >>= last := by cases first <;> rfl

@[simp] theorem fault_bind (next : α → Outcome β) : ((Outcome.fault : Outcome α) >>= next) = .fault := rfl

end Outcome

/-! ## The cursor -/

/-- What is left of a box body. A read past the end sets `bad` and gives 0. -/
structure Cursor where
  rest : List Byte
  bad : Bool := false

namespace Cursor

variable (c : Cursor)

def ok : Bool := !c.bad

def left : Nat := if c.bad then 0 else c.rest.length

theorem left_le : c.left ≤ c.rest.length := by
  unfold left
  split_ifs
  · exact Nat.zero_le _
  · exact le_rfl

def skip (count : Nat) : Cursor :=
  if c.left < count then { c with bad := true } else { c with rest := c.rest.drop count }

def here (count : Nat) (inside : count ≤ c.left) : List Byte :=
  slice c.rest 0 count (by rw [Nat.zero_add]; exact inside.trans c.left_le)

/-- The next bytes as a number. -/
def take (count : Nat) : Nat × Cursor :=
  if inside : count ≤ c.left then (number (c.here count inside), c.skip count) else (0, { c with bad := true })

def u8 : Nat × Cursor := c.take 1
def u16 : Nat × Cursor := c.take 2
def u24 : Nat × Cursor := c.take 3
def u32 : Nat × Cursor := c.take 4
def u64 : Nat × Cursor := c.take 8

end Cursor

/-! ## The sample entry -/

/-- Up to `count` parameter sets, until one is empty or does not fit. -/
def parameterSets : Nat → Cursor → List (List Byte) → Bool × Cursor × List (List Byte)
  | 0, c, sets => (true, c, sets)
  | count + 1, c, sets =>
    if c.bad then (true, c, sets)
    else
      let (n, c) := c.u16
      if n = 0 then (false, c, sets)
      else if inside : n ≤ c.left then parameterSets count (c.skip n) (sets ++ [c.here n inside])
      else (false, c, sets)

def parseAvcc (body : List Byte) (t : Mp4Track) : Bool × Mp4Track :=
  let (version, c) := Cursor.u8 { rest := body }
  if version ≠ 1 then (false, t)
  else
    let c := c.skip 3
    let (lengths, c) := c.u8
    let t := { t with nalLengthSize := lengths % 4 + 1 }
    let (spsCount, c) := c.u8
    let (fits, c, sps) := parameterSets (spsCount % 32) c t.sps
    let t := { t with sps }
    if !fits then (false, t)
    else
      let (ppsCount, c) := c.u8
      let (fits, c, pps) := parameterSets ppsCount c t.pps
      let t := { t with pps }
      if !fits then (false, t)
      else (c.ok && t.nalLengthSize ≠ 3, t)

def parseDops (body : List Byte) (t : Mp4Track) : Bool × Mp4Track :=
  let (version, c) := Cursor.u8 { rest := body }
  if version ≠ 0 then (false, t)
  else
    let (channels, c) := c.u8
    let (preSkip, c) := c.u16
    let t := { t with channels, preSkip }
    let (_, c) := c.u32
    let (_, c) := c.u16
    let (family, c) := c.u8
    (c.ok && family = 0 && (channels = 1 || channels = 2), t)

/-- The first box of a kind that parses. -/
def firstOf (type : Nat) (parse : List Byte → Mp4Track → Bool × Mp4Track) (s : Bool × Mp4Track) (b : BoxRef) :
    Bool × Mp4Track :=
  if b.type = type ∧ s.1 = false then parse b.body s.2 else s

/-- `ok`, `first` and the track. -/
def stsdEntry (s : Bool × Bool × Mp4Track) (entry : BoxRef) : Bool × Bool × Mp4Track :=
  let (ok, first, t) := s
  if !first then s
  else
    let t := { t with codec := entry.type }
    if entry.type = fourcc 'a' 'v' 'c' '1' ∨ entry.type = fourcc 'a' 'v' 'c' '3' then
      if visual : kVisual ≤ entry.body.length then
        have inside : 26 + 2 ≤ entry.body.length := le_trans (by decide) visual
        let t := { t with
          width := be16 entry.body 24 (le_trans (by decide) inside)
          height := be16 entry.body 26 inside }
        let (ok, haveAvcc, t) := forEachBox (firstOf (fourcc 'a' 'v' 'c' 'C') parseAvcc) (entry.body.drop kVisual) (false, t)
        (ok, false, { t with supported := ok && (haveAvcc || entry.type = fourcc 'a' 'v' 'c' '3') })
      else (false, false, t)
    else if entry.type = fourcc 'O' 'p' 'u' 's' then
      if audio : kAudio ≤ entry.body.length then
        let t := { t with sampleRate := be32 entry.body 24 audio / 2 ^ 16 }
        let (ok, haveDops, t) := forEachBox (firstOf (fourcc 'd' 'O' 'p' 's') parseDops) (entry.body.drop kAudio) (false, t)
        (ok, false, { t with supported := ok && haveDops })
      else (false, false, t)
    else (ok, false, t)

def parseStsd (body : List Byte) (t : Mp4Track) : Bool × Mp4Track :=
  let (_, c) := Cursor.u32 { rest := body }
  let (count, c) := c.u32
  if c.ok = false ∨ count = 0 then (false, t)
  else
    let (_, ok, _, t) := forEachBox stsdEntry c.rest (true, true, t)
    (ok, t)

/-! ## The sample tables -/

structure StscEntry where
  firstChunk : Nat
  samples : Nat
  deriving DecidableEq, Repr

structure Tables where
  stts : List (Nat × Nat) := []
  ctts : List (Nat × Int) := []
  stss : List Nat := []
  hasStss : Bool := false
  stsc : List StscEntry := []
  stszFixed : Nat := 0
  stszCount : Nat := 0
  stsz : List Nat := []
  chunks : List Nat := []
  deriving DecidableEq, Repr

def entries {α : Type} (entry : Cursor → α × Cursor) : Nat → Cursor → List α × Cursor
  | 0, c => ([], c)
  | count + 1, c =>
    let (first, c) := entry c
    let (rest, c) := entries entry count c
    (first :: rest, c)

/-- The count and the entries of a table behind its version and flags. None when
the box is too short for them. -/
def tableOf {α : Type} (width : Nat) (entry : Cursor → α × Cursor) (body : List Byte) : Option (List α × Cursor) :=
  let (_, c) := Cursor.u32 { rest := body }
  let (n, c) := c.u32
  if n > c.left / width then none else some (entries entry n c)

def sttsEntry (c : Cursor) : (Nat × Nat) × Cursor :=
  let (count, c) := c.u32
  let (delta, c) := c.u32
  ((count, delta), c)

def cttsEntry (c : Cursor) : (Nat × Int) × Cursor :=
  let (count, c) := c.u32
  let (raw, c) := c.u32
  ((count, (BitVec.ofNat 32 raw).toInt), c)

def stscEntry (c : Cursor) : StscEntry × Cursor :=
  let (firstChunk, c) := c.u32
  let (samples, c) := c.u32
  let (_, c) := c.u32
  ({ firstChunk, samples }, c)

/-- A failed box leaves its count behind. -/
def parseStsz (body : List Byte) (tab : Tables) : Bool × Tables :=
  let (_, c) := Cursor.u32 { rest := body }
  let (stszFixed, c) := c.u32
  let (stszCount, c) := c.u32
  let tab := { tab with stszFixed, stszCount }
  if stszCount > kMaxSamples then (false, tab)
  else if stszFixed = 0 then
    if stszCount > c.left / 4 then (false, tab)
    else
      let (sizes, c) := entries Cursor.u32 stszCount c
      (c.ok, { tab with stsz := tab.stsz ++ sizes })
  else (c.ok, tab)

def parseSgpd (body : List Byte) (t : Mp4Track) : Bool × Mp4Track :=
  let (version, c) := Cursor.u8 { rest := body }
  let (_, c) := c.u24
  let (grouping, c) := c.u32
  if grouping ≠ fourcc 'r' 'o' 'l' 'l' then (true, t)
  else
    let (length, c) := if version = 1 then c.u32 else (2, c)
    let (_, c) := if 2 ≤ version then c.u32 else (0, c)
    let (count, c) := c.u32
    if count = 0 then (true, t)
    else
      let (_, c) := if version = 1 ∧ length = 0 then c.u32 else (0, c)
      let (roll, c) := c.u16
      (c.ok, { t with rollDistance := (BitVec.ofNat 16 roll).toInt })

/-- `ok`, the track and its tables. -/
def stblBox (s : Bool × Mp4Track × Tables) (b : BoxRef) : Bool × Mp4Track × Tables :=
  let (ok, t, tab) := s
  if !ok then s
  else if b.type = fourcc 's' 't' 's' 'd' then
    let (ok, t) := parseStsd b.body t
    (ok, t, tab)
  else if b.type = fourcc 's' 't' 't' 's' then
    match tableOf 8 sttsEntry b.body with
    | none => (false, t, tab)
    | some (stts, c) => (c.ok, t, { tab with stts := tab.stts ++ stts })
  else if b.type = fourcc 'c' 't' 't' 's' then
    match tableOf 8 cttsEntry b.body with
    | none => (false, t, tab)
    | some (ctts, c) => (c.ok, t, { tab with ctts := tab.ctts ++ ctts })
  else if b.type = fourcc 's' 't' 's' 's' then
    match tableOf 4 Cursor.u32 b.body with
    | none => (false, t, tab)
    | some (stss, c) => (c.ok, t, { tab with hasStss := true, stss := tab.stss ++ stss })
  else if b.type = fourcc 's' 't' 's' 'c' then
    match tableOf 12 stscEntry b.body with
    | none => (false, t, tab)
    | some (stsc, c) => (c.ok, t, { tab with stsc := tab.stsc ++ stsc })
  else if b.type = fourcc 's' 't' 's' 'z' then
    let (ok, tab) := parseStsz b.body tab
    (ok, t, tab)
  else if b.type = fourcc 's' 't' 'c' 'o' then
    match tableOf 4 Cursor.u32 b.body with
    | none => (false, t, tab)
    | some (chunks, c) => (c.ok, t, { tab with chunks := tab.chunks ++ chunks })
  else if b.type = fourcc 'c' 'o' '6' '4' then
    match tableOf 8 Cursor.u64 b.body with
    | none => (false, t, tab)
    | some (chunks, c) => (c.ok, t, { tab with chunks := tab.chunks ++ chunks })
  else if b.type = fourcc 's' 'g' 'p' 'd' then
    let (ok, t) := parseSgpd b.body t
    (ok, t, tab)
  else (true, t, tab)

def parseStbl (body : List Byte) (t : Mp4Track) (tab : Tables) : Bool × Mp4Track × Tables :=
  let (walked, ok, t, tab) := forEachBox stblBox body (true, t, tab)
  (walked && ok, t, tab)

/-! ## The samples -/

section Samples

variable (tab : Tables) (fileSize : Nat)

def sampleSize (s : Nat) : Outcome Nat := if tab.stszFixed ≠ 0 then .ok tab.stszFixed else .at_ tab.stsz s

/-- Up to `k` samples of one chunk, behind those placed so far. -/
def placeChunk : Nat → Nat → List Mp4Sample → Outcome (List Mp4Sample)
  | 0, _, placed => .ok placed
  | k + 1, offset, placed =>
    if placed.length < tab.stszCount then do
      let size ← sampleSize tab placed.length
      if offset > fileSize ∨ size > fileSize - offset then .failed "a sample lies outside the file"
      else placeChunk k (offset + size) (placed ++ [{ offset, size }])
    else .ok placed

/-- The chunks of one stsc entry with `samples` samples each. -/
def placeChunks (samples : Nat) : Nat → Nat → List Mp4Sample → Outcome (List Mp4Sample)
  | 0, _, placed => .ok placed
  | n + 1, chunk, placed =>
    if placed.length < tab.stszCount then do
      let offset ← .at_ tab.chunks (chunk - 1)
      let placed ← placeChunk tab fileSize samples offset placed
      placeChunks samples n (chunk + 1) placed
    else .ok placed

/-- The chunk after those of an entry, from the entries behind it. -/
def lastOf : List StscEntry → Nat
  | next :: _ => next.firstChunk
  | [] => (tab.chunks.length + 1) % 2 ^ 32

def badEntry (e : StscEntry) (last : Nat) : Prop :=
  e.firstChunk = 0 ∨ last < e.firstChunk ∨ last > tab.chunks.length + 1 ∨ e.samples = 0

instance (e : StscEntry) (last : Nat) : Decidable (badEntry tab e last) := by
  unfold badEntry
  infer_instance

def placeEntries : List StscEntry → List Mp4Sample → Outcome (List Mp4Sample)
  | [], placed => .ok placed
  | e :: rest, placed =>
    if placed.length < tab.stszCount then
      if badEntry tab e (lastOf tab rest) then .failed "a bad stsc entry"
      else do
        let placed ← placeChunks tab fileSize e.samples (lastOf tab rest - e.firstChunk) e.firstChunk placed
        placeEntries rest placed
    else .ok placed

end Samples

/-- stts in order; samples behind a short one take its end. -/
def stamp : List (Nat × Nat) → Int → List Mp4Sample → List Mp4Sample
  | [], dts, samples => samples.map fun sample => { sample with time := dts }
  | (count, delta) :: runs, dts, samples =>
    (samples.take count).mapIdx (fun k sample => { sample with time := dts + k * delta, duration := delta }) ++
      stamp runs (dts + (samples.take count).length * delta) (samples.drop count)

/-- ctts in order. -/
def shift : List (Nat × Int) → List Mp4Sample → List Mp4Sample
  | [], samples => samples
  | (count, delta) :: runs, samples =>
    (samples.take count).map (fun sample => { sample with time := sample.time + delta }) ++ shift runs (samples.drop count)

def markSync (count : Nat) (samples : List Mp4Sample) (index : Nat) : Outcome (List Mp4Sample) :=
  if 1 ≤ index ∧ index ≤ count then do
    let sample ← .at_ samples (index - 1)
    .ok (samples.set (index - 1) { sample with sync := true })
  else .ok samples

/-- No stss: every sample is one. -/
def markAll (tab : Tables) (samples : List Mp4Sample) : Outcome (List Mp4Sample) :=
  if tab.hasStss then tab.stss.foldlM (markSync tab.stszCount) samples
  else .ok (samples.map fun sample => { sample with sync := true })

def buildSamples (tab : Tables) (fileSize : Nat) (t : Mp4Track) : Outcome Mp4Track :=
  if tab.stszCount = 0 then .ok t
  else if tab.stsc = [] ∨ tab.chunks = [] ∨ tab.stts = [] then
    .failed "a track has samples but no chunk or time table"
  else do
    let placed ← placeEntries tab fileSize tab.stsc []
    if placed.length ≠ tab.stszCount then .failed "the chunks hold fewer samples than stsz"
    else
      let samples ← markAll tab (shift tab.ctts (stamp tab.stts 0 placed))
      .ok { t with samples }

/-! ## Tracks and movies -/

def parseTkhd (body : List Byte) (t : Mp4Track) : Bool × Mp4Track :=
  let (version, c) := Cursor.u8 { rest := body }
  let (_, c) := c.u24
  let c := c.skip (if version = 1 then 16 else 8)
  let (trackId, c) := c.u32
  (c.ok, { t with trackId })

/-- The media time of the first entry that is not an empty edit. -/
def elstStart (version : Nat) : Nat → Cursor → Option Int
  | 0, _ => none
  | n + 1, c =>
    if c.bad then none
    else
      let (_, c) := if version = 1 then c.u64 else c.u32
      let (media, c) : Int × Cursor :=
        if version = 1 then ((BitVec.ofNat 64 c.u64.1).toInt, c.u64.2) else ((BitVec.ofNat 32 c.u32.1).toInt, c.u32.2)
      let (_, c) := c.u32
      if 0 ≤ media then some media else elstStart version n c

/-- `has_edit` and the track. -/
def edtsBox (s : Bool × Mp4Track) (e : BoxRef) : Bool × Mp4Track :=
  if e.type ≠ fourcc 'e' 'l' 's' 't' then s
  else
    let (version, c) := Cursor.u8 { rest := e.body }
    let (_, c) := c.u24
    let (n, c) := c.u32
    match elstStart version n c with
    | some editMediaTime => (true, { s.2 with editMediaTime })
    | none => s

def parseMdhd (body : List Byte) (t : Mp4Track) : Mp4Track :=
  let (version, c) := Cursor.u8 { rest := body }
  let (_, c) := c.u24
  let c := c.skip (if version = 1 then 16 else 8)
  { t with timescale := c.u32.1 }

def parseHdlr (body : List Byte) (t : Mp4Track) : Mp4Track :=
  let (_, c) := Cursor.u32 { rest := body }
  let (_, c) := c.u32
  let (handler, _) := c.u32
  if handler = fourcc 'v' 'i' 'd' 'e' then { t with kind := .video }
  else if handler = fourcc 's' 'o' 'u' 'n' then { t with kind := .audio }
  else t

def minfBox (s : Bool × Mp4Track × Tables) (b : BoxRef) : Bool × Mp4Track × Tables :=
  if b.type = fourcc 's' 't' 'b' 'l' then
    let (parsed, t, tab) := parseStbl b.body s.2.1 s.2.2
    (s.1 && parsed, t, tab)
  else s

def mdiaBox (s : Bool × Mp4Track × Tables) (m : BoxRef) : Bool × Mp4Track × Tables :=
  let (ok, t, tab) := s
  if m.type = fourcc 'm' 'd' 'h' 'd' then (ok, parseMdhd m.body t, tab)
  else if m.type = fourcc 'h' 'd' 'l' 'r' then (ok, parseHdlr m.body t, tab)
  else if m.type = fourcc 'm' 'i' 'n' 'f' then (forEachBox minfBox m.body s).2
  else s

/-- The variables of `parse_trak`. -/
structure Trak where
  ok : Bool := true
  hasEdit : Bool := false
  t : Mp4Track := {}
  tab : Tables := {}

/-- The walk over an mdia sets `ok` anew, whatever its sample tables did to it. -/
def trakBox (s : Trak) (b : BoxRef) : Trak :=
  if !s.ok then s
  else if b.type = fourcc 't' 'k' 'h' 'd' then
    let (ok, t) := parseTkhd b.body s.t
    { s with ok, t }
  else if b.type = fourcc 'e' 'd' 't' 's' then
    let (ok, hasEdit, t) := forEachBox edtsBox b.body (s.hasEdit, s.t)
    { s with ok, hasEdit, t }
  else if b.type = fourcc 'm' 'd' 'i' 'a' then
    let (walked, _, t, tab) := forEachBox mdiaBox b.body (s.ok, s.t, s.tab)
    { s with ok := walked, t, tab }
  else s

/-- The start of play with no edit list. -/
def startOfPlay (s : Trak) : Mp4Track :=
  if s.t.codec = fourcc 'O' 'p' 'u' 's' ∧ s.hasEdit = false then { s.t with editMediaTime := s.t.preSkip } else s.t

def parseTrak (body : List Byte) (fileSize : Nat) : Outcome Mp4Track :=
  let (walked, s) := forEachBox trakBox body {}
  if walked = false ∨ s.ok = false then .failed "a track's boxes do not parse"
  else if s.t.timescale = 0 then .failed "a track has no timescale"
  else buildSamples s.tab fileSize (startOfPlay s)

/-- The variables of `parse_moov`. -/
structure Moov where
  movieScale : Nat := 0
  movieDuration : Nat := 0
  tracks : List Mp4Track := []

def parseMvhd (body : List Byte) (m : Moov) : Moov :=
  let (version, c) := Cursor.u8 { rest := body }
  let (_, c) := c.u24
  let c := c.skip (if version = 1 then 16 else 8)
  let (movieScale, c) := c.u32
  { m with movieScale, movieDuration := if version = 1 then c.u64.1 else c.u32.1 }

/-- A track that fails ends the walk's work with its text. -/
def moovBox (fileSize : Nat) (m : Moov) (b : BoxRef) : Outcome Moov :=
  if b.type = fourcc 'm' 'v' 'h' 'd' then .ok (parseMvhd b.body m)
  else if b.type = fourcc 't' 'r' 'a' 'k' then
    if 16 ≤ m.tracks.length then .ok m
    else do
      let t ← parseTrak b.body fileSize
      .ok { m with tracks := m.tracks ++ [t] }
  else .ok m

def parseMoov (body : List Byte) (fileSize : Nat) : Outcome Mp4Movie := do
  let (boxes, walked) := boxesOf body
  let m ← boxes.foldlM (moovBox fileSize) {}
  if walked = false then .failed "the moov box does not parse"
  else
    let durationUs := if m.movieScale = 0 then 0 else m.movieDuration * 1000000 % 2 ^ 64 / m.movieScale
    .ok { fileSize, durationUs, tracks := m.tracks }

/-! ## The file -/

/-- A reader gives as many bytes as it is asked for, or fails. -/
structure Mp4ReadAt where
  read : Nat → Nat → Option (List Byte)
  whole : ∀ offset count bytes, read offset count = some bytes → bytes.length = count

/-- The size and the type of a top-level box, and whether its size is the 64-bit one. -/
def readHeader (read : Mp4ReadAt) (fileSize offset : Nat) : Option (Nat × Bool × Nat) :=
  match front : read.read offset 8 with
  | none => none
  | some h =>
    have eight : h.length = 8 := read.whole _ _ _ front
    let box := be32 h 0 (by omega)
    let type := be32 h 4 (by omega)
    if box = 1 then
      if (offset + 16) % 2 ^ 64 > fileSize then none
      else
        match back : read.read ((offset + 8) % 2 ^ 64) 8 with
        | none => none
        | some h => some (be64 h 0 (read.whole _ _ _ back).ge, true, type)
    else if box = 0 then some (fileSize - offset, false, type)
    else some (box, false, type)

/-- The body of the first moov box from an offset on, or the text of a failure. -/
def findMoov (read : Mp4ReadAt) (fileSize offset : Nat) : Except String (List Byte) :=
  if (offset + 8) % 2 ^ 64 ≤ fileSize then
    match readHeader read fileSize offset with
    | none => .error "a read failed"
    | some (box, wide, type) =>
      if box < headerSize wide ∨ box > fileSize - offset then .error "a top-level box does not fit the file"
      else if type = fourcc 'm' 'o' 'o' 'v' then
        if box - headerSize wide > kMaxMoov then .error "the moov box is too large"
        else
          match read.read (offset + headerSize wide) (box - headerSize wide) with
          | none => .error "a read failed"
          | some moov => .ok moov
      else findMoov read fileSize (offset + box)
  else .error "no moov box"
termination_by fileSize - offset
decreasing_by
  have some := headerSize_pos wide
  omega

def openMp4 (read : Mp4ReadAt) (fileSize : Nat) : Outcome Mp4Movie :=
  match findMoov read fileSize 0 with
  | .error text => .failed text
  | .ok moov => parseMoov moov fileSize

def readSample (read : Mp4ReadAt) (sample : Mp4Sample) : Option (List Byte) :=
  if sample.size = 0 then some [] else read.read sample.offset sample.size

/-- NAL units behind their lengths, as Annex B. None when a length does not fit. -/
def annexBFrom (lengthSize : Nat) (data : List Byte) : Option (List Byte) :=
  if data.length = 0 then some []
  else if short : data.length < lengthSize then none
  else
    let n := number (slice data 0 lengthSize (by omega))
    if n = 0 ∨ n > data.length - lengthSize then none
    else (annexBFrom lengthSize (data.drop (lengthSize + n))).map ([0, 0, 0, 1] ++ (data.drop lengthSize).take n ++ ·)
termination_by data.length
decreasing_by
  rw [List.length_drop]
  omega

def avccToAnnexB (data : List Byte) (lengthSize : Nat) : Option (List Byte) :=
  if lengthSize ≠ 1 ∧ lengthSize ≠ 2 ∧ lengthSize ≠ 4 then none else annexBFrom lengthSize data

/-- A reader over the bytes of a file. -/
def fileReader (file : List Byte) : Mp4ReadAt where
  read := Extents.readAt file
  whole := by
    intro offset count bytes found
    unfold Extents.readAt at found
    split_ifs at found with inside
    obtain rfl := Option.some.inj found
    rw [List.length_take, List.length_drop]
    omega

end Mello.Replay.Mp4Demux
