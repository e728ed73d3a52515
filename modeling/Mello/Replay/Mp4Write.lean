import Mello.Replay.Mp4Box
import Mello.Replay.VideoRing

/-!
The clip writer. The moov box stands before the media, so the sizes and the chunks
are laid out first and the units are read twice. The disk takes what is written; the
Opus encoder is a parameter.
-/

namespace Mello.Replay.Mp4Write
open Mello.Library BigEndian Mp4Box
open VideoRing (AccessUnitRef)

def kMovieScale : Nat := 1000
def kVideoScale : Nat := 90000
def kAudioRate : Nat := 48000
def kOpusFrame : Nat := 960
def kOpusRoll : Int := -4
def kChunkUs : Nat := 500000
def kNalSps : Nat := 7
def kNalPps : Nat := 8

/-! ## NAL units -/

/-- The size of the start code at the front, 0 for none. -/
def startCodeAt : List Byte → Nat
  | 0 :: 0 :: 0 :: 1 :: _ => 4
  | 0 :: 0 :: 1 :: _ => 3
  | _ => 0

/-- A NAL unit and what is left from the next start code on. -/
def splitNal : List Byte → List Byte × List Byte
  | [] => ([], [])
  | byte :: rest =>
    if startCodeAt (byte :: rest) ≠ 0 then ([], byte :: rest)
    else
      let (nal, next) := splitNal rest
      (byte :: nal, next)

theorem length_splitNal (data : List Byte) : (splitNal data).2.length ≤ data.length := by
  induction data with
  | nil => exact le_rfl
  | cons byte rest ih =>
    unfold splitNal
    split_ifs
    · exact le_rfl
    · exact ih.trans (Nat.le_succ _)

theorem length_of_startCodeAt {data : List Byte} (starts : startCodeAt data ≠ 0) : 0 < data.length := by
  cases data with
  | nil => exact absurd rfl starts
  | cons byte rest => exact Nat.succ_pos _

/-- `for_each_nal`: the NAL units in order, without the empty ones. -/
def nalsOf (data : List Byte) : List (List Byte) :=
  if startCodeAt data = 0 then []
  else
    let split := splitNal (data.drop (startCodeAt data))
    (if split.1 = [] then [] else [split.1]) ++ nalsOf split.2
termination_by data.length
decreasing_by
  have starts : startCodeAt data ≠ 0 := by assumption
  have some := length_of_startCodeAt starts
  have shorter := length_splitNal (data.drop (startCodeAt data))
  rw [List.length_drop] at shorter
  change (splitNal (data.drop (startCodeAt data))).2.length < data.length
  omega

def nalType (nal : List Byte) : Nat := (nal.headD 0).toNat % 32

def avccSize (annexB : List Byte) : Nat := ((nalsOf annexB).map fun nal => 4 + nal.length).sum

def toAvcc (annexB : List Byte) : List Byte := (nalsOf annexB).flatMap fun nal => digits 4 nal.length ++ nal

/-! ## The sample tables -/

structure Run where
  count : Nat
  value : Nat
  deriving DecidableEq, Repr

def addRun (runs : List Run) (value : Nat) : List Run :=
  match runs.getLast? with
  | some last =>
    if last.value = value then runs.dropLast ++ [{ last with count := last.count + 1 }] else runs ++ [⟨1, value⟩]
  | none => [⟨1, value⟩]

/-- The chunk offsets are from the start of the mdat payload. -/
structure Track where
  sizes : List Nat
  durations : List Run
  sync : List Nat
  chunkAt : List Nat
  chunkSamples : List Nat
  deriving DecidableEq, Repr

/-- Runs of chunks with the same sample count: the first chunk and the count of each. -/
def stscOf : Nat → Option Nat → List Nat → List (Nat × Nat)
  | _, _, [] => []
  | c, last, samples :: rest =>
    if last = some samples then stscOf (c + 1) last rest else (c + 1, samples) :: stscOf (c + 1) (some samples) rest

def u8 (v : Nat) : List Byte := digits 1 v
def u16 (v : Nat) : List Byte := digits 2 v
def u32 (v : Nat) : List Byte := digits 4 v
def zeros (n : Nat) : List Byte := List.replicate n 0
def text (chars : List Char) : List Byte := chars.map fun c => BitVec.ofNat 8 c.toNat

def writeMatrix : List Byte :=
  u32 0x00010000 ++ u32 0 ++ u32 0 ++ u32 0 ++ u32 0x00010000 ++ u32 0 ++ u32 0 ++ u32 0 ++ u32 0x40000000

/-- A full box with a count and its rows. -/
def table {Row : Type} (type : Nat) (rows : List Row) (row : Row → List Byte) : List Byte :=
  fullBox type 0 0 (u32 rows.length ++ rows.flatMap row)

def writeStblTables (t : Track) (base : Nat) : List Byte :=
  table (fourcc 's' 't' 't' 's') t.durations (fun r => u32 r.count ++ u32 r.value) ++
  (if t.sync = [] then [] else table (fourcc 's' 't' 's' 's') t.sync u32) ++
  table (fourcc 's' 't' 's' 'c') (stscOf 0 none t.chunkSamples) (fun e => u32 e.1 ++ (u32 e.2 ++ u32 1)) ++
  fullBox (fourcc 's' 't' 's' 'z') 0 0 (u32 0 ++ (u32 t.sizes.length ++ t.sizes.flatMap u32)) ++
  table (fourcc 's' 't' 'c' 'o') t.chunkAt (fun offset => u32 (base + offset))

def writeDinf : List Byte :=
  box (fourcc 'd' 'i' 'n' 'f') (fullBox (fourcc 'd' 'r' 'e' 'f') 0 0 (u32 1 ++ fullBox (fourcc 'u' 'r' 'l' ' ') 0 1 []))

/-! ## The moov box -/

structure MovieInfo where
  width : Nat
  height : Nat
  sps : List Byte
  pps : List Byte
  videoTicks : Nat
  audioFrames : Nat
  audioPackets : Nat
  preSkip : Nat
  audioBitrate : Nat

def toMovie (value scale : Nat) : Nat := (value * kMovieScale + scale / 2) % 2 ^ 64 / scale % 2 ^ 32

def mvhd (duration nextTrack : Nat) : List Byte :=
  fullBox (fourcc 'm' 'v' 'h' 'd') 0 0
    (u32 0 ++ (u32 0 ++ (u32 kMovieScale ++ (u32 duration ++ (u32 0x00010000 ++ u16 0x0100 ++ zeros 10 ++ writeMatrix ++
      zeros 24 ++ u32 nextTrack)))))

def tkhd (trackId duration group volume width height : Nat) : List Byte :=
  fullBox (fourcc 't' 'k' 'h' 'd') 0 3
    (u32 0 ++ (u32 0 ++ (u32 trackId ++ (u32 0 ++ u32 duration ++ zeros 8 ++ u16 0 ++ u16 group ++ u16 volume ++ u16 0 ++
      writeMatrix ++ u32 width ++ u32 height))))

def edts (duration mediaTime : Nat) : List Byte :=
  box (fourcc 'e' 'd' 't' 's') (fullBox (fourcc 'e' 'l' 's' 't') 0 0
    (u32 1 ++ (u32 duration ++ (u32 mediaTime ++ u32 0x00010000))))

def mdhd (scale duration : Nat) : List Byte :=
  fullBox (fourcc 'm' 'd' 'h' 'd') 0 0 (u32 0 ++ (u32 0 ++ (u32 scale ++ (u32 duration ++ u16 0x55C4 ++ u16 0))))

def hdlr (handler : Nat) (name : List Byte) : List Byte :=
  fullBox (fourcc 'h' 'd' 'l' 'r') 0 0 (u32 0 ++ (u32 handler ++ (zeros 12 ++ name)))

def avcC (sps pps : List Byte) : List Byte :=
  box (fourcc 'a' 'v' 'c' 'C')
    (u8 1 ++ (u8 (sps.getD 1 0).toNat ++ u8 (sps.getD 2 0).toNat ++ u8 (sps.getD 3 0).toNat ++ (u8 0xFF ++ (u8 0xE1 ++
      (u16 sps.length ++ (sps ++ (u8 1 ++ (u16 pps.length ++ (pps ++
        (if (sps.getD 1 0).toNat ∈ [100, 110, 122, 144] then u8 (0xFC ||| 1) ++ u8 0xF8 ++ u8 0xF8 ++ u8 0
          else []))))))))))

def avc1 (m : MovieInfo) : List Byte :=
  box (fourcc 'a' 'v' 'c' '1')
    ((zeros 6 ++ u16 1 ++ zeros 16 ++ u16 m.width ++ u16 m.height ++ u32 0x00480000 ++ u32 0x00480000 ++ u32 0 ++ u16 1 ++
      zeros 32 ++ u16 0x0018 ++ u16 0xFFFF) ++
      (avcC m.sps m.pps ++ box (fourcc 'p' 'a' 's' 'p') (u32 1 ++ u32 1)))

def dOps (preSkip : Nat) : List Byte :=
  box (fourcc 'd' 'O' 'p' 's')
    (u8 0 ++ (u8 2 ++ (u16 preSkip ++ (u32 kAudioRate ++ (u16 0 ++ u8 0)))))

def opus (m : MovieInfo) : List Byte :=
  box (fourcc 'O' 'p' 'u' 's')
    ((zeros 6 ++ u16 1 ++ zeros 8 ++ u16 2 ++ u16 16 ++ u16 0 ++ u16 0 ++ u32 (kAudioRate * 2 ^ 16)) ++
      (dOps m.preSkip ++ box (fourcc 'b' 't' 'r' 't') (u32 0 ++ u32 m.audioBitrate ++ u32 m.audioBitrate)))

def stsd (entry : List Byte) : List Byte := fullBox (fourcc 's' 't' 's' 'd') 0 0 (u32 1 ++ entry)

def sgpd : List Byte :=
  fullBox (fourcc 's' 'g' 'p' 'd') 1 0
    (u32 (fourcc 'r' 'o' 'l' 'l') ++ (u32 2 ++ (u32 1 ++ u16 (BitVec.ofInt 16 kOpusRoll).toNat)))

def sbgp (packets : Nat) : List Byte :=
  let head := min 4 packets
  fullBox (fourcc 's' 'b' 'g' 'p') 0 0
    (u32 (fourcc 'r' 'o' 'l' 'l') ++ u32 (if packets > head then 2 else 1) ++ u32 head ++ u32 0 ++
      if packets > head then u32 (packets - head) ++ u32 1 else [])

def minf (header stbl : List Byte) : List Byte :=
  box (fourcc 'm' 'i' 'n' 'f') (header ++ (writeDinf ++ box (fourcc 's' 't' 'b' 'l') stbl))

def videoTrak (m : MovieInfo) (video : Track) (base : Nat) : List Byte :=
  let videoMs := toMovie m.videoTicks kVideoScale
  box (fourcc 't' 'r' 'a' 'k')
    (tkhd 1 videoMs 0 0 (m.width * 2 ^ 16) (m.height * 2 ^ 16) ++ (edts videoMs 0 ++
      box (fourcc 'm' 'd' 'i' 'a')
        (mdhd kVideoScale m.videoTicks ++
          (hdlr (fourcc 'v' 'i' 'd' 'e') (text ['V', 'i', 'd', 'e', 'o', 'H', 'a', 'n', 'd', 'l', 'e', 'r'] ++ zeros 1) ++
          minf (fullBox (fourcc 'v' 'm' 'h' 'd') 0 1 (zeros 8)) (stsd (avc1 m) ++ writeStblTables video base)))))

def audioTrak (m : MovieInfo) (audio : Track) (base : Nat) : List Byte :=
  let audioMs := toMovie m.audioFrames kAudioRate
  box (fourcc 't' 'r' 'a' 'k')
    (tkhd 2 audioMs 1 0x0100 0 0 ++ (edts audioMs m.preSkip ++
      box (fourcc 'm' 'd' 'i' 'a')
        (mdhd kAudioRate (m.audioPackets * kOpusFrame) ++
          (hdlr (fourcc 's' 'o' 'u' 'n') (text ['S', 'o', 'u', 'n', 'd', 'H', 'a', 'n', 'd', 'l', 'e', 'r'] ++ zeros 1) ++
          minf (fullBox (fourcc 's' 'm' 'h' 'd') 0 0 (zeros 4))
            (stsd (opus m) ++ (writeStblTables audio base ++ (sgpd ++ sbgp m.audioPackets)))))))

def moovBody (m : MovieInfo) (video : Track) (audio : Option Track) (base : Nat) : List Byte :=
  let videoMs := toMovie m.videoTicks kVideoScale
  let audioMs := if audio.isSome then toMovie m.audioFrames kAudioRate else 0
  mvhd (max videoMs audioMs) (if audio.isSome then 3 else 2) ++ (videoTrak m video base ++
    match audio with
    | some audio => audioTrak m audio base
    | none => [])

def buildMoov (m : MovieInfo) (video : Track) (audio : Option Track) (base : Nat) : List Byte :=
  box (fourcc 'm' 'o' 'o' 'v') (moovBody m video audio base)

def buildFtyp : List Byte :=
  box (fourcc 'f' 't' 'y' 'p')
    (u32 (fourcc 'i' 's' 'o' 'm') ++ u32 0x200 ++ u32 (fourcc 'i' 's' 'o' 'm') ++ u32 (fourcc 'i' 's' 'o' '2') ++
      u32 (fourcc 'a' 'v' 'c' '1') ++ u32 (fourcc 'm' 'p' '4' '1'))

/-! ## The clip -/

structure ClipMuxInput where
  units : List AccessUnitRef
  readUnit : AccessUnitRef → Option (List Byte)
  width : Nat
  height : Nat
  fps : Nat := 60
  endUs : Nat := 0
  audio : List Int := []
  audioBitrate : Nat := 160000

structure ClipMuxResult where
  durationUs : Nat
  videoFrames : Nat
  bytes : Nat
  deriving DecidableEq, Repr

/-- What `encode_opus` gives. Its buffer for a packet is 4000 bytes. -/
structure OpusPackets where
  packets : List (List Byte)
  preSkip : Nat
  narrow : preSkip < 2 ^ 16
  small : ∀ packet ∈ packets, packet.length ≤ 4000

/-- Each capture time from the first one; one that does not move forward moves 0.1 ms on. -/
def atUs (t0 : Nat) : Option Nat → List AccessUnitRef → List Nat
  | _, [] => []
  | previous, unit :: rest =>
    let here :=
      match previous with
      | some before => if unit.captureUs - t0 ≤ before then before + 100 else unit.captureUs - t0
      | none => unit.captureUs - t0
    here :: atUs t0 (some here) rest

def ticks (us : Nat) : Nat := (us * kVideoScale + 500000) % 2 ^ 64 / 1000000

def gap (here next : Nat) : Nat := if ticks next > ticks here then ticks next - ticks here else 1

/-- How long each unit lasts, the last one until the end. -/
def gaps (last : Nat) : List Nat → List Nat
  | [] => []
  | [here] => [gap here last]
  | here :: next :: rest => gap here next :: gaps last (next :: rest)

def videoEndUs (input : ClipMuxInput) (t0 lastAt : Nat) : Nat :=
  if input.endUs - t0 > lastAt then input.endUs - t0 else lastAt + 1000000 / max input.fps 1

def syncOf (units : List AccessUnitRef) : List Nat :=
  ((units.zipIdx 1).filter fun unit => unit.1.keyframe).map Prod.snd

/-- When a packet's first sample after the pre-skip is heard. -/
def heardUs (preSkip packet : Nat) : Int := (((packet : Int) * kOpusFrame - preSkip) * 1000000).tdiv kAudioRate

structure Chunk where
  isVideo : Bool
  first : Nat
  count : Nat
  deriving DecidableEq, Repr

/-- What has been laid out of one track. -/
structure Placed where
  taken : Nat := 0
  chunkAt : List Nat := []
  chunkSamples : List Nat := []

structure Layout where
  video : Placed := {}
  audio : Placed := {}
  payload : Nat := 0
  chunks : List Chunk := []

/-- A chunk of the next `count` samples of a track, none of none. -/
def pushChunk (isVideo : Bool) (sizes : List Nat) (count : Nat) (l : Layout) : Layout :=
  if count = 0 then l
  else
    let placed := if isVideo then l.video else l.audio
    let after : Placed :=
      { taken := placed.taken + count
        chunkAt := placed.chunkAt ++ [l.payload]
        chunkSamples := placed.chunkSamples ++ [count] }
    { video := if isVideo then after else l.video
      audio := if isVideo then l.audio else after
      payload := l.payload + ((sizes.drop placed.taken).take count).sum
      chunks := l.chunks ++ [⟨isVideo, placed.taken, count⟩] }

/-- The times and the sizes of the samples of both tracks. -/
structure Timeline where
  videoAt : List Nat
  videoSizes : List Nat
  heardAt : List Int
  audioSizes : List Nat

/-- The video of one window, then the sound of the same window. -/
def window (line : Timeline) (windowEnd : Nat) (l : Layout) : Layout :=
  let l := pushChunk true line.videoSizes ((line.videoAt.drop l.video.taken).takeWhile fun at_ => at_ < windowEnd).length l
  pushChunk false line.audioSizes ((line.heardAt.drop l.audio.taken).takeWhile fun heard => heard < (windowEnd : Int)).length l

def windowsFrom (line : Timeline) : Nat → Nat → Layout → Layout
  | 0, _, l => l
  | fuel + 1, windowEnd, l =>
    if l.video.taken < line.videoAt.length ∨ l.audio.taken < line.heardAt.length then
      windowsFrom line fuel (windowEnd + kChunkUs) (window line windowEnd l)
    else l

/-- The windows end when all samples are laid out; the last time says how many
windows that takes at most. -/
def windows (line : Timeline) : Layout :=
  windowsFrom line (max (line.videoAt.getLastD 0) (line.heardAt.getLastD 0).toNat / kChunkUs + 1) kChunkUs {}

/-- The second pass over a chunk. A unit that has changed fails. -/
def chunkBytes (input : ClipMuxInput) (sizes : List Nat) (packets : List (List Byte)) (c : Chunk) : Option (List Byte) :=
  if c.isVideo then
    ((((input.units.zip sizes).drop c.first).take c.count).mapM fun (unit, size) => do
      let bytes ← input.readUnit unit
      if (toAvcc bytes).length = size then some (toAvcc bytes) else none).map List.flatten
  else some ((packets.drop c.first).take c.count).flatten

/-- The parameter sets of the first unit and the table of the video track but for
its chunks. -/
structure VideoPlan where
  sps : List Byte
  pps : List Byte
  at_ : List Nat
  sizes : List Nat
  gaps : List Nat

def planVideo (input : ClipMuxInput) : Option VideoPlan :=
  match input.units with
  | [] => none
  | front :: _ => do
    if input.width = 0 ∨ input.height = 0 ∨ input.width > 0xFFFF ∨ input.height > 0xFFFF then none
    else if front.keyframe = false then none
    else
      let bytes ← input.readUnit front
      let sps := ((nalsOf bytes).find? fun nal => nalType nal = kNalSps).getD []
      let pps := ((nalsOf bytes).find? fun nal => nalType nal = kNalPps).getD []
      if sps.length < 4 ∨ pps = [] then none
      else
        let at_ := atUs front.captureUs none input.units
        let sizes ← input.units.mapM fun unit => (input.readUnit unit).map fun bytes => avccSize bytes % 2 ^ 32
        if 0 ∈ sizes then none
        else some { sps, pps, at_, sizes, gaps := gaps (videoEndUs input front.captureUs (at_.getLastD 0)) at_ }

/-- What the file is made of: the first pass over the units, and the sound. -/
structure ClipPlan where
  input : ClipMuxInput
  video : VideoPlan
  sound : OpusPackets

def planClip (encodeOpus : List Int → Nat → Option OpusPackets) (input : ClipMuxInput) : Option ClipPlan := do
  let video ← planVideo input
  let sound ← if input.audio ≠ [] then encodeOpus input.audio input.audioBitrate else some ⟨[], 0, by decide, nofun⟩
  some { input, video, sound }

namespace ClipPlan

variable (clip : ClipPlan)

def line : Timeline where
  videoAt := clip.video.at_
  videoSizes := clip.video.sizes
  heardAt := (List.range clip.sound.packets.length).map (heardUs clip.sound.preSkip)
  audioSizes := clip.sound.packets.map List.length

def layout : Layout := windows clip.line

def videoTrack : Track where
  sizes := clip.video.sizes
  durations := (clip.video.gaps.map fun d => d % 2 ^ 32).foldl addRun []
  sync := syncOf clip.input.units
  chunkAt := clip.layout.video.chunkAt
  chunkSamples := clip.layout.video.chunkSamples

def audioTrack : Track where
  sizes := clip.sound.packets.map List.length
  durations := [⟨clip.sound.packets.length, kOpusFrame⟩]
  sync := []
  chunkAt := clip.layout.audio.chunkAt
  chunkSamples := clip.layout.audio.chunkSamples

def movie : MovieInfo where
  width := clip.input.width
  height := clip.input.height
  sps := clip.video.sps
  pps := clip.video.pps
  videoTicks := clip.video.gaps.sum
  audioFrames := if clip.input.audio ≠ [] then clip.input.audio.length / 2 else 0
  audioPackets := clip.sound.packets.length
  preSkip := clip.sound.preSkip
  audioBitrate := if clip.input.audio ≠ [] then clip.input.audioBitrate else 0

def sounding : Option Track := if clip.input.audio ≠ [] then some clip.audioTrack else none

/-- The offset of the mdat payload: behind the ftyp, the moov and the mdat header. -/
def base : Nat := buildFtyp.length + (buildMoov clip.movie clip.videoTrack clip.sounding 0).length + 8

end ClipPlan

def writeClipMp4 (encodeOpus : List Int → Nat → Option OpusPackets) (input : ClipMuxInput) :
    Option (List Byte × ClipMuxResult) := do
  let clip ← planClip encodeOpus input
  if clip.base + clip.layout.payload > 0xFFFFFFFF then none
  else
    let media ← clip.layout.chunks.mapM (chunkBytes input clip.video.sizes clip.sound.packets)
    let file := buildFtyp ++ (buildMoov clip.movie clip.videoTrack clip.sounding clip.base ++
      (u32 (8 + clip.layout.payload) ++ u32 (fourcc 'm' 'd' 'a' 't') ++ media.flatten))
    some (file, {
      durationUs := clip.video.gaps.sum * 1000000 / kVideoScale
      videoFrames := input.units.length
      bytes := clip.base + clip.layout.payload })

end Mello.Replay.Mp4Write
