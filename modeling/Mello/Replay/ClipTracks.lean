import Mello.Replay.ClipLayout

/-!
The moov box of a clip read back: both tracks with all that their boxes say, and the
walk over the file that finds the moov box.
-/

namespace Mello.Replay.ClipTracks
open Mello.Library BigEndian Extents Mp4Box Mp4Demux Mp4Write Mp4Parse Mp4Samples Mp4Tables

/-! ## A track -/

section Samples

variable {written : Mp4Write.Track} {base fileSize : Nat}

theorem samplesOf_nil (none : written.sizes = []) : samplesOf written base = [] := by
  have empty : extentsOf written base = [] := by
    unfold extentsOf
    rw [none]
    cases spotsAt (written.chunkAt.map (base + ·)) written.chunkSamples <;> rfl
  have same : extents (samplesOf written base) = [] := extents_samplesOf.trans empty
  exact List.map_eq_nil_iff.mp same

/-- A track of no samples is read as well. -/
theorem buildSamples_all (filled : Filled written base fileSize) {t : Mp4Track} (bare : t.samples = []) :
    buildSamples (tablesRead written base) fileSize t = .ok { t with samples := samplesOf written base } := by
  by_cases none : written.sizes = []
  · have count : (tablesRead written base).stszCount = 0 := by
      unfold tablesRead
      rw [none]
      rfl
    unfold buildSamples
    rw [if_pos count, samplesOf_nil none, ← bare]
  · exact filled.buildSamples_written none t

end Samples

/-- What the demux makes of the two tracks. -/
def videoRead (m : MovieInfo) (video : Mp4Write.Track) (base : Nat) : Mp4Track where
  kind := .video
  trackId := 1
  codec := fourcc 'a' 'v' 'c' '1'
  supported := true
  timescale := kVideoScale
  samples := samplesOf video base
  width := m.width
  height := m.height
  sps := [m.sps]
  pps := [m.pps]

def audioRead (m : MovieInfo) (audio : Mp4Write.Track) (base : Nat) : Mp4Track where
  kind := .audio
  trackId := 2
  codec := fourcc 'O' 'p' 'u' 's'
  supported := true
  timescale := kAudioRate
  editMediaTime := m.preSkip
  samples := samplesOf audio base
  channels := 2
  sampleRate := kAudioRate
  preSkip := m.preSkip
  rollDistance := kOpusRoll

def videoBody (m : MovieInfo) (video : Mp4Write.Track) (base : Nat) : List Byte :=
  tkhd 1 (toMovie m.videoTicks kVideoScale) 0 0 (m.width * 2 ^ 16) (m.height * 2 ^ 16) ++
    (edts (toMovie m.videoTicks kVideoScale) 0 ++ box (fourcc 'm' 'd' 'i' 'a')
      (mdhd kVideoScale m.videoTicks ++
        (hdlr (fourcc 'v' 'i' 'd' 'e') (text ['V', 'i', 'd', 'e', 'o', 'H', 'a', 'n', 'd', 'l', 'e', 'r'] ++ zeros 1) ++
        minf (fullBox (fourcc 'v' 'm' 'h' 'd') 0 1 (zeros 8)) (stsd (avc1 m) ++ writeStblTables video base))))

def audioBody (m : MovieInfo) (audio : Mp4Write.Track) (base : Nat) : List Byte :=
  tkhd 2 (toMovie m.audioFrames kAudioRate) 1 0x0100 0 0 ++
    (edts (toMovie m.audioFrames kAudioRate) m.preSkip ++ box (fourcc 'm' 'd' 'i' 'a')
      (mdhd kAudioRate (m.audioPackets * kOpusFrame) ++
        (hdlr (fourcc 's' 'o' 'u' 'n') (text ['S', 'o', 'u', 'n', 'd', 'H', 'a', 'n', 'd', 'l', 'e', 'r'] ++ zeros 1) ++
        minf (fullBox (fourcc 's' 'm' 'h' 'd') 0 0 (zeros 4))
          (stsd (opus m) ++ (writeStblTables audio base ++ (sgpd ++ sbgp m.audioPackets))))))

section Tracks

variable {m : MovieInfo} {video audio : Mp4Write.Track} {base fileSize : Nat}

theorem videoTrak_eq : videoTrak m video base = box (fourcc 't' 'r' 'a' 'k') (videoBody m video base) := rfl

theorem audioTrak_eq : audioTrak m audio base = box (fourcc 't' 'r' 'a' 'k') (audioBody m audio base) := rfl

theorem toMovie_lt (value scale : Nat) : toMovie value scale < 2 ^ 32 := Nat.mod_lt _ (Nat.two_pow_pos 32)

/-- A track whose boxes parse, with a timescale and an edit list, is what its tables make of it. -/
theorem parseTrak_walked {body : List Byte} {t : Mp4Track} {tab : Tables}
    (walked : forEachBox trakBox body {} = (true, { ok := true, hasEdit := true, t, tab })) (scaled : t.timescale ≠ 0) :
    parseTrak body fileSize = buildSamples tab fileSize t := by
  unfold parseTrak
  dsimp only
  rw [walked]
  dsimp only
  rw [if_neg (by decide), if_neg scaled]
  unfold startOfPlay
  rw [if_neg fun edited => Bool.noConfusion edited.2]

theorem parseTrak_video (narrow : Narrow video base) (filled : Filled video base fileSize) (wide : m.width < 2 ^ 16)
    (high : m.height < 2 ^ 16) (someSps : m.sps ≠ []) (narrowSps : m.sps.length < 2 ^ 16) (somePps : m.pps ≠ [])
    (narrowPps : m.pps.length < 2 ^ 16) (fits : (videoBody m video base).length < 2 ^ 32) :
    parseTrak (videoBody m video base) fileSize = .ok (videoRead m video base) := by
  have stbl := parseStbl_video
    (t := { trackId := 1, editMediaTime := (0 : Nat), timescale := kVideoScale, kind := .video })
    narrow wide high someSps narrowSps somePps narrowPps
  unfold videoBody minf at fits
  simp only [List.length_append, length_box] at fits
  have mdia : forEachBox minfBox (fullBox (fourcc 'v' 'm' 'h' 'd') 0 1 (zeros 8) ++ (writeDinf ++ box (fourcc 's' 't' 'b' 'l')
      (stsd (avc1 m) ++ writeStblTables video base)))
      (true, { trackId := 1, editMediaTime := (0 : Nat), timescale := kVideoScale, kind := .video }, {}) = _ :=
    walk_minf (by decide) (by decide) (by decide) (by rw [List.length_append]; omega) stbl
  have walked : forEachBox trakBox (videoBody m video base) {} = _ :=
    walk_trak (by decide) (toMovie_lt m.videoTicks kVideoScale) (by decide)
      (by simp only [minf, List.length_append, length_box]; omega)
      (walk_mdia (by decide) (by decide) (by decide) (by simp only [List.length_append, length_box]; omega) (fun t => if_pos rfl) mdia)
  rw [parseTrak_walked walked (show kVideoScale ≠ 0 by decide)]
  exact buildSamples_all filled rfl

theorem parseTrak_audio (narrow : Narrow audio base) (filled : Filled audio base fileSize) (skips : m.preSkip < 2 ^ 16)
    (fits : (audioBody m audio base).length < 2 ^ 32) :
    parseTrak (audioBody m audio base) fileSize = .ok (audioRead m audio base) := by
  have stbl := parseStbl_audio
    (t := { trackId := 2, editMediaTime := m.preSkip, timescale := kAudioRate, kind := .audio }) narrow skips
  unfold audioBody minf at fits
  simp only [List.length_append, length_box] at fits
  have mdia : forEachBox minfBox (fullBox (fourcc 's' 'm' 'h' 'd') 0 0 (zeros 4) ++ (writeDinf ++ box (fourcc 's' 't' 'b' 'l')
      (stsd (opus m) ++ (writeStblTables audio base ++ (sgpd ++ sbgp m.audioPackets)))))
      (true, { trackId := 2, editMediaTime := m.preSkip, timescale := kAudioRate, kind := .audio }, {}) = _ :=
    walk_minf (by decide) (by decide) (by decide) (by simp only [List.length_append]; omega) stbl
  have walked : forEachBox trakBox (audioBody m audio base) {} = _ :=
    walk_trak (by decide) (toMovie_lt m.audioFrames kAudioRate) (skips.trans (by decide))
      (by simp only [minf, List.length_append, length_box]; omega)
      (walk_mdia (by decide) (by decide) (by decide) (by simp only [List.length_append, length_box]; omega)
        (fun t => (if_neg (by decide)).trans (if_pos rfl)) mdia)
  rw [parseTrak_walked walked (show kAudioRate ≠ 0 by decide)]
  exact buildSamples_all filled rfl

/-! ## The moov box -/

theorem parseMvhd_mvhd {duration : Nat} (lasts : duration < 2 ^ 32) (rest : List Byte) :
    parseMvhd (fullBody 0 0 (u32 0 ++ (u32 0 ++ (u32 kMovieScale ++ (u32 duration ++ rest))))) {} =
      { movieScale := kMovieScale, movieDuration := duration } := by
  unfold parseMvhd fullBody
  rw [u8_version (by decide)]
  dsimp only
  rw [u24_flags (by decide)]
  dsimp only
  rw [if_neg (by decide), skip_times, u32_digits (by decide)]
  dsimp only
  rw [if_neg (by decide), u32_digits lasts]

end Tracks

theorem moovBox_trak {fileSize : Nat} (moov : Moov) {body : List Byte} {t : Mp4Track} (room : moov.tracks.length < 16)
    (read : parseTrak body fileSize = .ok t) :
    moovBox fileSize moov ⟨fourcc 't' 'r' 'a' 'k', body⟩ = .ok { moov with tracks := moov.tracks ++ [t] } := by
  unfold moovBox
  rw [if_neg (show fourcc 't' 'r' 'a' 'k' ≠ fourcc 'm' 'v' 'h' 'd' by decide), if_pos rfl, if_neg (not_le.mpr room), read]
  rfl

/-- The body of the movie header. -/
def mvhdBody (duration nextTrack : Nat) : List Byte :=
  fullBody 0 0 (u32 0 ++ (u32 0 ++ (u32 kMovieScale ++ (u32 duration ++ (u32 0x00010000 ++ u16 0x0100 ++ zeros 10 ++
    writeMatrix ++ zeros 24 ++ u32 nextTrack)))))

theorem moovBox_mvhd {duration : Nat} (lasts : duration < 2 ^ 32) (fileSize nextTrack : Nat) :
    moovBox fileSize {} ⟨fourcc 'm' 'v' 'h' 'd', mvhdBody duration nextTrack⟩ =
      .ok { movieScale := kMovieScale, movieDuration := duration } := by
  unfold moovBox mvhdBody
  rw [if_pos rfl, parseMvhd_mvhd lasts]

theorem boxesOf_mvhd (duration nextTrack : Nat) (rest : List Byte) :
    boxesOf (mvhd duration nextTrack ++ rest) =
      (⟨fourcc 'm' 'v' 'h' 'd', mvhdBody duration nextTrack⟩ :: (boxesOf rest).1, (boxesOf rest).2) := by
  apply boxesOf_box rest (by decide)
  simp only [writeMatrix, zeros, u16, List.length_append, length_u32, length_digits, List.length_replicate]
  decide

section Moov

variable {m : MovieInfo} {video : Mp4Write.Track} {audio : Option Mp4Write.Track} {base fileSize : Nat}

/-- The duration of the movie in its scale. -/
def movieMs (m : MovieInfo) (audio : Option Mp4Write.Track) : Nat :=
  max (toMovie m.videoTicks kVideoScale) (if audio.isSome then toMovie m.audioFrames kAudioRate else 0)

theorem movieMs_lt : movieMs m audio < 2 ^ 32 := by
  apply max_lt (toMovie_lt _ _)
  split_ifs
  · exact toMovie_lt _ _
  · exact Nat.two_pow_pos 32

/-- What the demux makes of a clip. -/
def movieRead (m : MovieInfo) (video : Mp4Write.Track) (audio : Option Mp4Write.Track) (base fileSize : Nat) : Mp4Movie where
  fileSize := fileSize
  durationUs := movieMs m audio * 1000
  tracks := videoRead m video base :: (audio.map fun audio => audioRead m audio base).toList

theorem durationUs_movieMs {ms : Nat} (lasts : ms < 2 ^ 32) :
    (if kMovieScale = 0 then 0 else ms * 1000000 % 2 ^ 64 / kMovieScale) = ms * 1000 := by
  rw [if_neg (by decide), Nat.mod_eq_of_lt (by omega)]
  unfold kMovieScale
  omega

theorem parseMoov_moovBody (fits : (moovBody m video audio base).length < 2 ^ 32)
    (readVideo : parseTrak (videoBody m video base) fileSize = .ok (videoRead m video base))
    (readAudio : ∀ track, audio = some track → parseTrak (audioBody m track base) fileSize = .ok (audioRead m track base)) :
    parseMoov (moovBody m video audio base) fileSize = .ok (movieRead m video audio base fileSize) := by
  have lasts : movieMs m audio < 2 ^ 32 := movieMs_lt
  cases audio with
  | none =>
    have body : moovBody m video none base = mvhd (movieMs m none) 2 ++ (box (fourcc 't' 'r' 'a' 'k') (videoBody m video base) ++ []) :=
      rfl
    rw [body] at fits ⊢
    simp only [List.length_append, length_box] at fits
    unfold parseMoov
    rw [boxesOf_mvhd, boxesOf_box [] (by decide) (by omega), boxesOf_nil]
    dsimp only
    rw [List.foldlM_cons, moovBox_mvhd lasts, Outcome.ok_bind, List.foldlM_cons, moovBox_trak { movieScale := kMovieScale, movieDuration := _ } (Nat.succ_pos 15) readVideo,
      Outcome.ok_bind, List.foldlM_nil, Outcome.pure_eq, Outcome.ok_bind, if_neg (by decide), durationUs_movieMs lasts]
    rfl
  | some track =>
    have body : moovBody m video (some track) base = mvhd (movieMs m (some track)) 3 ++
        (box (fourcc 't' 'r' 'a' 'k') (videoBody m video base) ++ (box (fourcc 't' 'r' 'a' 'k') (audioBody m track base))) := rfl
    rw [body, ← List.append_nil (box (fourcc 't' 'r' 'a' 'k') (audioBody m track base))] at fits ⊢
    simp only [List.length_append, length_box] at fits
    have one : ([] ++ [videoRead m video base]).length < 16 := by
      rw [List.nil_append, List.length_singleton]
      decide
    unfold parseMoov
    rw [boxesOf_mvhd, boxesOf_box _ (by decide) (by omega), boxesOf_box [] (by decide) (by omega), boxesOf_nil]
    dsimp only
    rw [List.foldlM_cons, moovBox_mvhd lasts, Outcome.ok_bind, List.foldlM_cons, moovBox_trak { movieScale := kMovieScale, movieDuration := _ } (Nat.succ_pos 15) readVideo,
      Outcome.ok_bind, List.foldlM_cons, moovBox_trak _ one (readAudio track rfl), Outcome.ok_bind, List.foldlM_nil,
      Outcome.pure_eq, Outcome.ok_bind, if_neg (by decide), durationUs_movieMs lasts]
    rfl

end Moov

/-! ## Sizes -/

section Sizes

variable {m : MovieInfo} {video audio : Mp4Write.Track} {base : Nat}

theorem length_videoBody : (videoBody m video base).length = 285 + (stsd (avc1 m)).length + (writeStblTables video base).length := by
  simp only [videoBody, tkhd, edts, mdhd, hdlr, minf, writeDinf, writeMatrix, text, zeros, u16, length_fullBox, length_box,
    List.length_append, length_u32, length_digits, List.length_replicate, List.length_map, List.length_cons, List.length_nil]
  omega

theorem length_audioBody : (audioBody m audio base).length =
    281 + (stsd (opus m)).length + (writeStblTables audio base).length + (sgpd ++ sbgp m.audioPackets).length := by
  simp only [audioBody, tkhd, edts, mdhd, hdlr, minf, writeDinf, writeMatrix, text, zeros, u16, length_fullBox, length_box,
    List.length_append, length_u32, length_digits, List.length_replicate, List.length_map, List.length_cons, List.length_nil]
  omega

theorem length_avc1 : (stsd (avc1 m)).length ≤ 141 + m.sps.length + m.pps.length := by
  have sets := length_avcC m.sps m.pps
  simp only [stsd, avc1, zeros, u16, length_fullBox, length_box, List.length_append, length_u32, length_digits,
    List.length_replicate]
  omega

theorem length_opus : (stsd (opus m)).length = 91 := by
  simp only [stsd, opus, dOps, zeros, u8, u16, length_fullBox, length_box, List.length_append, length_u32, length_digits,
    List.length_replicate]

theorem length_roll (packets : Nat) : (sgpd ++ sbgp packets).length ≤ 62 := by
  have group := length_sbgp packets
  have distance : sgpd.length = 26 := by decide
  rw [List.length_append, distance]
  omega

theorem length_moovBody (audio : Option Mp4Write.Track) :
    (moovBody m video audio base).length =
      116 + (videoBody m video base).length + (audio.elim 0 fun track => 8 + (audioBody m track base).length) := by
  have header : ∀ duration next, (mvhd duration next).length = 108 := by
    intro duration next
    simp only [mvhd, writeMatrix, zeros, u16, length_fullBox, List.length_append, length_u32, length_digits, List.length_replicate]
  unfold moovBody
  dsimp only
  rw [List.length_append, header, List.length_append, videoTrak_eq, length_box]
  cases audio with
  | none =>
    simp only [List.length_nil, Option.elim_none]
    omega
  | some track =>
    simp only [audioTrak_eq, length_box, Option.elim_some]
    omega

end Sizes

/-! ## The file -/

section File

variable {front rest body : List Byte} {type : Nat}

theorem fileReader_read (file : List Byte) (offset count : Nat) : (fileReader file).read offset count = readAt file offset count := rfl

theorem readHeader_box (named : type < 2 ^ 32) (fits : 8 + body.length < 2 ^ 32) :
    readHeader (fileReader (front ++ (box type body ++ rest))) (front ++ (box type body ++ rest)).length front.length =
      some (8 + body.length, false, type) := by
  have header : (fileReader (front ++ (box type body ++ rest))).read front.length 8 =
      some (digits 4 (8 + body.length) ++ digits 4 type) := by
    have first : readAt (front ++ (box type body ++ rest)) (front.length + 0) 8 = _ := readAt_append_right
    rw [Nat.add_zero] at first
    rw [fileReader_read, first]
    unfold readAt box
    simp only [← List.append_assoc]
    rw [List.append_assoc (digits 4 _ ++ digits 4 _), if_pos (by simp only [List.length_append, length_digits]; omega), List.drop_zero,
      List.take_left' (by rw [List.length_append, length_digits, length_digits])]
  unfold readHeader
  split
  · next none =>
    rw [header] at none
    cases none
  · next bytes found =>
    rw [header] at found
    obtain rfl := Option.some.inj found
    have size : ∀ inside, be32 (digits 4 (8 + body.length) ++ digits 4 type) 0 inside = 8 + body.length := by
      intro inside
      unfold be32 slice
      rw [List.drop_zero, List.take_left' (length_digits 4 _), number_digits fits]
    have kind : ∀ inside, be32 (digits 4 (8 + body.length) ++ digits 4 type) 4 inside = type := by
      intro inside
      unfold be32 slice
      rw [List.drop_left' (length_digits 4 _), List.take_of_length_le (length_digits 4 _).le, number_digits named]
    dsimp only
    rw [size, kind, if_neg (by omega), if_neg (by omega)]

/-- The walk passes a box of another type. -/
theorem findMoov_skip (named : type < 2 ^ 32) (other : type ≠ fourcc 'm' 'o' 'o' 'v') (fits : 8 + body.length < 2 ^ 32)
    (small : (front ++ (box type body ++ rest)).length < 2 ^ 64) :
    findMoov (fileReader (front ++ (box type body ++ rest))) (front ++ (box type body ++ rest)).length front.length =
      findMoov (fileReader (front ++ (box type body ++ rest))) (front ++ (box type body ++ rest)).length
        (front ++ box type body).length := by
  have length : (front ++ (box type body ++ rest)).length = front.length + (8 + body.length + rest.length) := by
    rw [List.length_append, List.length_append, length_box]
  have next : (front ++ box type body).length = front.length + (8 + body.length) := by
    rw [List.length_append, length_box]
  have header : readHeader (fileReader (front ++ (box type body ++ rest))) _ front.length = _ := readHeader_box named fits
  rw [next]
  generalize front ++ (box type body ++ rest) = file at *
  conv => lhs; rw [findMoov]
  rw [if_pos (by omega), header]
  dsimp only
  unfold headerSize
  rw [if_neg Bool.false_ne_true, if_neg (by omega), if_neg other]

theorem findMoov_ftyp (small : (buildFtyp ++ rest).length < 2 ^ 64) :
    findMoov (fileReader (buildFtyp ++ rest)) (buildFtyp ++ rest).length 0 =
      findMoov (fileReader (buildFtyp ++ rest)) (buildFtyp ++ rest).length buildFtyp.length := by
  obtain ⟨body, short, made⟩ : ∃ body, body.length = 24 ∧ buildFtyp = box (fourcc 'f' 't' 'y' 'p') body := ⟨_, by decide, rfl⟩
  rw [made] at small ⊢
  exact @findMoov_skip [] rest body _ (by decide) (by decide) (by omega) small

/-- The body of the moov box. -/
theorem findMoov_moov (fits : body.length ≤ kMaxMoov) (small : (front ++ (box (fourcc 'm' 'o' 'o' 'v') body ++ rest)).length < 2 ^ 64) :
    findMoov (fileReader (front ++ (box (fourcc 'm' 'o' 'o' 'v') body ++ rest)))
      (front ++ (box (fourcc 'm' 'o' 'o' 'v') body ++ rest)).length front.length = .ok body := by
  have limit : kMaxMoov < 2 ^ 31 := by decide
  have length : (front ++ (box (fourcc 'm' 'o' 'o' 'v') body ++ rest)).length = front.length + (8 + body.length + rest.length) := by
    rw [List.length_append, List.length_append, length_box]
  have header : readHeader (fileReader (front ++ (box (fourcc 'm' 'o' 'o' 'v') body ++ rest))) _ front.length = _ :=
    readHeader_box (by decide) (by omega)
  have read : (fileReader (front ++ (box (fourcc 'm' 'o' 'o' 'v') body ++ rest))).read (front.length + 8) body.length = some body := by
    rw [fileReader_read, readAt_append_right]
    unfold readAt box
    rw [← List.append_assoc, List.append_assoc _ body, if_pos (by simp only [List.length_append, length_digits]; omega),
      List.drop_left' (by rw [List.length_append, length_digits, length_digits]), List.take_left]
  generalize front ++ (box (fourcc 'm' 'o' 'o' 'v') body ++ rest) = file at *
  rw [findMoov, if_pos (by omega), header]
  dsimp only
  unfold headerSize
  rw [if_neg Bool.false_ne_true, if_neg (by omega), if_pos rfl, Nat.add_sub_cancel_left, if_neg (not_lt.mpr fits), read]

end File

end Mello.Replay.ClipTracks
