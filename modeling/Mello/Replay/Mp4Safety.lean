import Mello.Replay.Mp4Samples

/-!
Hostile files. Every read of bytes is there by its type and every walk ends, so what
is left to go wrong is a read past the end of a sample table. A track does that
exactly when a sample table box that failed left a count behind that its size table
does not have, and the chunk map goes on past the table.
-/

namespace Mello.Replay.Mp4Safety
open Mello.Library BigEndian Mp4Box Mp4Demux Mp4Samples

/-! ## What is claimed -/

def SoundTrack (fileSize : Nat) (t : Mp4Track) : Prop :=
  t.timescale ≠ 0 ∧ ∀ sample ∈ t.samples, sample.offset + sample.size ≤ fileSize

/-- No fault, and tracks inside the file on success. -/
def Safe (fileSize : Nat) : Outcome Mp4Movie → Prop
  | .ok movie => ∀ t ∈ movie.tracks, SoundTrack fileSize t
  | .failed _ => True
  | .fault => False

/-- The size table ends before its count, the chunk map goes on, and the samples up
to there lie in the file. -/
def Overruns (fileSize : Nat) (tab : Tables) : Prop :=
  tab.stszFixed = 0 ∧ tab.stsz.length < tab.stszCount ∧ tab.stts ≠ [] ∧
    tab.stsz.length < (spots tab tab.stsc).length ∧ Inside fileSize (spots tab tab.stsc) tab.stsz 0

/-- The tables of a track whose boxes parse. -/
def tablesOf (body : List Byte) : Option Tables :=
  let (walked, s) := forEachBox trakBox body {}
  if walked = false ∨ s.ok = false ∨ s.t.timescale = 0 then none else some s.tab

def TrakHolds (fileSize : Nat) (body : List Byte) : Prop := ∀ tab, tablesOf body = some tab → ¬Overruns fileSize tab

/-- The tables of the track boxes hold: of the first that is read, of the next one
when that is accepted, and so on up to 16. -/
def TraksHold (fileSize : Nat) : List BoxRef → Nat → Prop
  | [], _ => True
  | b :: rest, n =>
    if b.type = fourcc 't' 'r' 'a' 'k' ∧ n < 16 then
      TrakHolds fileSize b.body ∧ ((∃ t, parseTrak b.body fileSize = .ok t) → TraksHold fileSize rest (n + 1))
    else TraksHold fileSize rest n

/-! ## The boxes leave the samples to the tables -/

section Walk

variable {State Kept : Type} {fn : State → BoxRef → State}

/-- What no box changes, the walk does not change. -/
theorem forEachBox_keeps (kept : State → Kept) (keeps : ∀ s b, kept (fn s b) = kept s) (data : List Byte) (s : State) :
    kept (forEachBox fn data s).2 = kept s := by
  unfold forEachBox
  induction (boxesOf data).1 generalizing s with
  | nil => rfl
  | cons b rest ih => exact (ih (fn s b)).trans (keeps s b)

end Walk

theorem samples_parseAvcc (body : List Byte) (t : Mp4Track) : (parseAvcc body t).2.samples = t.samples := by
  unfold parseAvcc
  dsimp only
  split_ifs <;> rfl

theorem samples_parseDops (body : List Byte) (t : Mp4Track) : (parseDops body t).2.samples = t.samples := by
  unfold parseDops
  dsimp only
  split_ifs <;> rfl

theorem samples_firstOf (type : Nat) {parse : List Byte → Mp4Track → Bool × Mp4Track}
    (keeps : ∀ body t, (parse body t).2.samples = t.samples) (s : Bool × Mp4Track) (b : BoxRef) :
    (firstOf type parse s b).2.samples = s.2.samples := by
  unfold firstOf
  split_ifs
  · exact keeps b.body s.2
  · rfl

def samplesOfPair (s : Bool × Mp4Track) : List Mp4Sample := s.2.samples

theorem samples_stsdEntry (s : Bool × Bool × Mp4Track) (entry : BoxRef) :
    (stsdEntry s entry).2.2.samples = s.2.2.samples := by
  have avcc := fun t => forEachBox_keeps samplesOfPair (samples_firstOf (fourcc 'a' 'v' 'c' 'C') samples_parseAvcc)
    (entry.body.drop kVisual) (false, t)
  have dops := fun t => forEachBox_keeps samplesOfPair (samples_firstOf (fourcc 'd' 'O' 'p' 's') samples_parseDops)
    (entry.body.drop kAudio) (false, t)
  unfold stsdEntry
  dsimp only
  split_ifs
  · rfl
  · exact avcc _
  · rfl
  · exact dops _
  · rfl
  · rfl

theorem samples_parseStsd (body : List Byte) (t : Mp4Track) : (parseStsd body t).2.samples = t.samples := by
  unfold parseStsd
  dsimp only
  split_ifs
  · rfl
  · exact forEachBox_keeps (fun s : Bool × Bool × Mp4Track => s.2.2.samples) samples_stsdEntry _ _

theorem samples_parseSgpd (body : List Byte) (t : Mp4Track) : (parseSgpd body t).2.samples = t.samples := by
  unfold parseSgpd
  dsimp only
  split_ifs <;> rfl

def samplesOf (s : Bool × Mp4Track × Tables) : List Mp4Sample := s.2.1.samples

/-- What a box does to the sample tables. Whether it parsed is told of the sizes only. -/
inductive TableRead (body : List Byte) (tab : Tables) : Bool → Tables → Prop
  | same {ok : Bool} : TableRead body tab ok tab
  | stts {ok : Bool} {rows : List (Nat × Nat)} {c : Cursor} (read : tableOf 8 sttsEntry body = some (rows, c)) :
    TableRead body tab ok { tab with stts := tab.stts ++ rows }
  | ctts {ok : Bool} {rows : List (Nat × Int)} {c : Cursor} (read : tableOf 8 cttsEntry body = some (rows, c)) :
    TableRead body tab ok { tab with ctts := tab.ctts ++ rows }
  | stss {ok : Bool} {rows : List Nat} : TableRead body tab ok { tab with hasStss := true, stss := tab.stss ++ rows }
  | stsc {ok : Bool} {rows : List StscEntry} : TableRead body tab ok { tab with stsc := tab.stsc ++ rows }
  | stsz : TableRead body tab (parseStsz body tab).1 (parseStsz body tab).2
  | chunks {ok : Bool} {rows : List Nat} : TableRead body tab ok { tab with chunks := tab.chunks ++ rows }

/-- A box is read into one of the tables, or into the track, which keeps its samples. -/
theorem stblBox_reads (t : Mp4Track) (tab : Tables) (b : BoxRef) :
    (stblBox (true, t, tab) b).2.1.samples = t.samples ∧
      TableRead b.body tab (stblBox (true, t, tab) b).1 (stblBox (true, t, tab) b).2.2 := by
  unfold stblBox
  dsimp only
  rw [if_neg (by decide)]
  split_ifs
  · exact ⟨samples_parseStsd b.body t, .same⟩
  · rcases read : tableOf 8 sttsEntry b.body with _ | ⟨rows, c⟩
    · exact ⟨rfl, .same⟩
    · exact ⟨rfl, .stts read⟩
  · rcases read : tableOf 8 cttsEntry b.body with _ | ⟨rows, c⟩
    · exact ⟨rfl, .same⟩
    · exact ⟨rfl, .ctts read⟩
  · rcases tableOf 4 Cursor.u32 b.body with _ | ⟨rows, c⟩
    · exact ⟨rfl, .same⟩
    · exact ⟨rfl, .stss⟩
  · rcases tableOf 12 stscEntry b.body with _ | ⟨rows, c⟩
    · exact ⟨rfl, .same⟩
    · exact ⟨rfl, .stsc⟩
  · exact ⟨rfl, .stsz⟩
  · rcases tableOf 4 Cursor.u32 b.body with _ | ⟨rows, c⟩
    · exact ⟨rfl, .same⟩
    · exact ⟨rfl, .chunks⟩
  · rcases tableOf 8 Cursor.u64 b.body with _ | ⟨rows, c⟩
    · exact ⟨rfl, .same⟩
    · exact ⟨rfl, .chunks⟩
  · exact ⟨samples_parseSgpd b.body t, .same⟩
  · exact ⟨rfl, .same⟩

theorem samples_stblBox (s : Bool × Mp4Track × Tables) (b : BoxRef) : samplesOf (stblBox s b) = samplesOf s := by
  obtain ⟨ok, t, tab⟩ := s
  cases ok with
  | false => rfl
  | true => exact (stblBox_reads t tab b).1

theorem samples_minfBox (s : Bool × Mp4Track × Tables) (b : BoxRef) : samplesOf (minfBox s b) = samplesOf s := by
  unfold minfBox
  split_ifs
  · exact forEachBox_keeps samplesOf samples_stblBox b.body (true, s.2.1, s.2.2)
  · rfl

theorem samples_mdiaBox (s : Bool × Mp4Track × Tables) (m : BoxRef) : samplesOf (mdiaBox s m) = samplesOf s := by
  unfold mdiaBox
  dsimp only
  split_ifs
  · rfl
  · unfold samplesOf parseHdlr
    dsimp only
    split_ifs <;> rfl
  · exact forEachBox_keeps samplesOf samples_minfBox m.body s
  · rfl

theorem samples_edtsBox (s : Bool × Mp4Track) (e : BoxRef) : samplesOfPair (edtsBox s e) = samplesOfPair s := by
  unfold edtsBox
  split_ifs
  · rfl
  · dsimp only
    split <;> rfl

theorem samples_trakBox (s : Trak) (b : BoxRef) : (trakBox s b).t.samples = s.t.samples := by
  unfold trakBox
  split_ifs
  · rfl
  · rfl
  · exact forEachBox_keeps samplesOfPair samples_edtsBox b.body (s.hasEdit, s.t)
  · exact forEachBox_keeps samplesOf samples_mdiaBox b.body (s.ok, s.t, s.tab)
  · rfl

/-! ## A track -/

section Tracks

variable {fileSize : Nat} {tab : Tables} {t built : Mp4Track}

/-- With a count, the track is built of what the chunk map places. -/
theorem buildSamples_some (some : tab.stszCount ≠ 0)
    (tables : ¬(tab.stsc = [] ∨ tab.chunks = [] ∨ tab.stts = [])) :
    buildSamples tab fileSize t = (do
      let placed ← place tab fileSize (spots tab tab.stsc) 0 [] >>= ending tab tab.stsc
      if placed.length ≠ tab.stszCount then .failed "the chunks hold fewer samples than stsz"
      else
        let samples ← markAll tab (shift tab.ctts (stamp tab.stts 0 placed))
        .ok { t with samples }) := by
  unfold buildSamples
  rw [if_neg some, if_neg tables, placeEntries_eq]

theorem length_timed (placed : List Mp4Sample) :
    (shift tab.ctts (stamp tab.stts 0 placed)).length = placed.length := by
  rw [length_shift, length_stamp]

/-- Behind the walk nothing faults, and the samples keep their extents. -/
theorem timed_ok {placed : List Mp4Sample} (all : placed.length = tab.stszCount) :
    ∃ samples, markAll tab (shift tab.ctts (stamp tab.stts 0 placed)) = .ok samples ∧ extents samples = extents placed := by
  have length : (shift tab.ctts (stamp tab.stts 0 placed)).length = placed.length := length_timed placed
  obtain ⟨samples, marked, same⟩ := markAll_ok (length.trans all)
  exact ⟨samples, marked, same.trans ((extents_shift _ _).trans (extents_stamp _ _ _))⟩

theorem ending_ne_fault (entries : List StscEntry) (placed : List Mp4Sample) : ending tab entries placed ≠ .fault := by
  induction entries with
  | nil =>
    intro same
    cases same
  | cons e rest ih =>
    unfold ending
    intro same
    split_ifs at same
    exact ih same

theorem ending_ok {entries : List StscEntry} {placed all : List Mp4Sample} (ended : ending tab entries placed = .ok all) :
    all = placed := by
  induction entries with
  | nil =>
    cases ended
    rfl
  | cons e rest ih =>
    unfold ending at ended
    split_ifs at ended
    · cases ended
      rfl
    · exact ih ended

theorem spots_nil (nothing : tab.chunks = []) (entries : List StscEntry) : spots tab entries = [] := by
  induction entries with
  | nil => rfl
  | cons e rest ih =>
    unfold spots
    split_ifs with bad
    · rfl
    · unfold badEntry at bad
      push Not at bad
      obtain ⟨positive, ordered, inside, -⟩ := bad
      rw [nothing, List.length_nil] at inside
      have empty : lastOf tab rest - e.firstChunk = 0 := by omega
      rw [empty, ih]
      rfl

theorem buildSamples_fault_iff : buildSamples tab fileSize t = .fault ↔ Overruns fileSize tab := by
  by_cases none : tab.stszCount = 0
  · rw [buildSamples, if_pos none]
    refine iff_of_false nofun fun overruns => ?_
    have less := overruns.2.1
    omega
  by_cases tables : tab.stsc = [] ∨ tab.chunks = [] ∨ tab.stts = []
  · rw [buildSamples, if_neg none, if_pos tables]
    refine iff_of_false nofun ?_
    rintro ⟨-, -, times, more, -⟩
    rcases tables with nothing | nothing | nothing
    · rw [nothing] at more
      exact absurd more (Nat.not_lt_zero _)
    · rw [spots_nil nothing] at more
      exact absurd more (Nat.not_lt_zero _)
    · exact times nothing
  have times : tab.stts ≠ [] := fun nothing => tables (.inr (.inr nothing))
  have reads : place tab fileSize (spots tab tab.stsc) 0 [] = .fault ↔ Overruns fileSize tab := by
    rw [place_fault_iff fun _ => Nat.zero_le _, Overruns, and_iff_right times]
    rfl
  rw [buildSamples_some none tables, ← reads]
  cases place tab fileSize (spots tab tab.stsc) 0 [] with
  | failed error => exact iff_of_false (fun fault : Outcome.failed error = .fault => nomatch fault) nofun
  | fault => exact iff_of_true rfl rfl
  | ok placed =>
    refine iff_of_false ?_ nofun
    rw [Outcome.ok_bind]
    cases ended : ending tab tab.stsc placed with
    | failed error => exact nofun
    | fault => exact absurd ended (ending_ne_fault _ _)
    | ok all =>
      rw [Outcome.ok_bind]
      split_ifs with short
      · exact nofun
      · obtain ⟨samples, marked, -⟩ := timed_ok (not_not.mp short)
        rw [marked]
        exact nofun

theorem buildSamples_ok (none : t.samples = []) (ran : buildSamples tab fileSize t = .ok built) :
    built.timescale = t.timescale ∧ ∀ sample ∈ built.samples, sample.offset + sample.size ≤ fileSize := by
  by_cases empty : tab.stszCount = 0
  · rw [buildSamples, if_pos empty] at ran
    cases ran
    refine ⟨rfl, fun sample member => ?_⟩
    rw [none] at member
    cases member
  by_cases tables : tab.stsc = [] ∨ tab.chunks = [] ∨ tab.stts = []
  · rw [buildSamples, if_neg empty, if_pos tables] at ran
    cases ran
  rw [buildSamples_some empty tables] at ran
  cases walked : place tab fileSize (spots tab tab.stsc) 0 [] with
  | failed error => simp [walked] at ran
  | fault => simp [walked] at ran
  | ok placed =>
    rw [walked, Outcome.ok_bind] at ran
    cases ended : ending tab tab.stsc placed with
    | failed error => simp [ended] at ran
    | fault => simp [ended] at ran
    | ok all =>
      obtain rfl := ending_ok ended
      rw [ended, Outcome.ok_bind] at ran
      split_ifs at ran with short
      obtain ⟨samples, marked, same⟩ := timed_ok (not_not.mp short)
      rw [marked, Outcome.ok_bind] at ran
      cases ran
      refine ⟨rfl, fun sample member => ?_⟩
      have here : (sample.offset, sample.size) ∈ extents all := same ▸ List.mem_map_of_mem member
      obtain ⟨source, listed, extent⟩ := List.mem_map.mp here
      have offset : source.offset = sample.offset := congrArg Prod.fst extent
      have size : source.size = sample.size := congrArg Prod.snd extent
      rw [← offset, ← size]
      exact place_inside (fun _ nothing => absurd nothing List.not_mem_nil) walked source listed

theorem samples_startOfPlay (body : List Byte) : (startOfPlay (forEachBox trakBox body {}).2).samples = [] := by
  have kept := forEachBox_keeps (fun s : Trak => s.t.samples) samples_trakBox body {}
  unfold startOfPlay
  split_ifs <;> exact kept

theorem timescale_startOfPlay (s : Trak) : (startOfPlay s).timescale = s.t.timescale := by
  unfold startOfPlay
  split_ifs <;> rfl

theorem parseTrak_fault_iff {body : List Byte} : parseTrak body fileSize = .fault ↔ ¬TrakHolds fileSize body := by
  unfold parseTrak TrakHolds tablesOf
  dsimp only
  by_cases unparsed : (forEachBox trakBox body {}).1 = false ∨ (forEachBox trakBox body {}).2.ok = false
  · rw [if_pos unparsed, if_pos (unparsed.imp_right Or.inl)]
    exact iff_of_false nofun fun holds => holds nofun
  by_cases unscaled : (forEachBox trakBox body {}).2.t.timescale = 0
  · rw [if_neg unparsed, if_pos unscaled, if_pos (.inr (.inr unscaled))]
    exact iff_of_false nofun fun holds => holds nofun
  · have parsed : ¬((forEachBox trakBox body {}).1 = false ∨ (forEachBox trakBox body {}).2.ok = false ∨
        (forEachBox trakBox body {}).2.t.timescale = 0) := by
      rw [← or_assoc]
      exact not_or.mpr ⟨unparsed, unscaled⟩
    rw [if_neg unparsed, if_neg unscaled, if_neg parsed, buildSamples_fault_iff]
    simp only [Option.some.injEq, forall_eq', not_not]

theorem parseTrak_ok {body : List Byte} (ran : parseTrak body fileSize = .ok built) : SoundTrack fileSize built := by
  unfold parseTrak at ran
  dsimp only at ran
  split_ifs at ran with unparsed unscaled
  obtain ⟨scale, inside⟩ := buildSamples_ok (samples_startOfPlay body) ran
  refine ⟨?_, inside⟩
  rw [scale, timescale_startOfPlay]
  exact unscaled

/-! ## Tables that parse -/

def Sized (tab : Tables) : Prop := tab.stszFixed ≠ 0 ∨ tab.stszCount ≤ tab.stsz.length

theorem Sized.not_overruns (sized : Sized tab) : ¬Overruns fileSize tab := by
  rintro ⟨fixed, less, -⟩
  rcases sized with some | enough
  · exact some fixed
  · omega

theorem length_entries {α : Type} (entry : Cursor → α × Cursor) (count : Nat) (c : Cursor) :
    (entries entry count c).1.length = count := by
  induction count generalizing c with
  | zero => rfl
  | succ count ih => exact congrArg Nat.succ (ih (entry c).2)

theorem sized_parseStsz {body : List Byte} (parsed : (parseStsz body tab).1 = true) : Sized (parseStsz body tab).2 := by
  unfold parseStsz at parsed ⊢
  dsimp only at parsed ⊢
  split_ifs at parsed ⊢ with many fixed short
  · right
    change _ ≤ (tab.stsz ++ _).length
    rw [List.length_append, length_entries]
    exact Nat.le_add_left _ _
  · exact .inl fixed

theorem sized_stblBox {s : Bool × Mp4Track × Tables} (sized : s.1 = true → Sized s.2.2) (b : BoxRef) :
    (stblBox s b).1 = true → Sized (stblBox s b).2.2 := by
  obtain ⟨ok, t, tab⟩ := s
  cases ok with
  | false => exact nofun
  | true =>
    have before : Sized tab := sized rfl
    have reads := (stblBox_reads t tab b).2
    generalize stblBox (true, t, tab) b = after at reads
    obtain ⟨ok, t', tab'⟩ := after
    cases reads with
    | stsz => exact sized_parseStsz
    | same | stts | ctts | stss | stsc | chunks => exact fun _ => before

/-- A sample table box that parses leaves a size for every sample: only tables of
which a box failed can overrun. -/
theorem sized_parseStbl (sized : Sized tab) {body : List Byte} (parsed : (parseStbl body t tab).1 = true) :
    Sized (parseStbl body t tab).2.2 := by
  have kept : ∀ (boxes : List BoxRef) (s : Bool × Mp4Track × Tables), (s.1 = true → Sized s.2.2) →
      (boxes.foldl stblBox s).1 = true → Sized (boxes.foldl stblBox s).2.2 := by
    intro boxes
    induction boxes with
    | nil => exact fun s sized => sized
    | cons b rest ih => exact fun s sized => ih (stblBox s b) (sized_stblBox sized b)
  exact kept _ (true, t, tab) (fun _ => sized) ((Bool.and_eq_true _ _).mp parsed).2

/-! ## A movie -/

theorem moovBoxes_spec (fileSize : Nat) (boxes : List BoxRef) {m : Moov} (sound : ∀ t ∈ m.tracks, SoundTrack fileSize t) :
    (boxes.foldlM (moovBox fileSize) m = .fault ↔ ¬TraksHold fileSize boxes m.tracks.length) ∧
      ∀ all, boxes.foldlM (moovBox fileSize) m = .ok all → ∀ t ∈ all.tracks, SoundTrack fileSize t := by
  induction boxes generalizing m with
  | nil =>
    refine ⟨iff_of_false nofun fun broken => broken trivial, ?_⟩
    rintro all ⟨⟩
    exact sound
  | cons b rest ih =>
    rw [List.foldlM_cons, TraksHold]
    unfold moovBox
    by_cases header : b.type = fourcc 'm' 'v' 'h' 'd'
    · have other : ¬(b.type = fourcc 't' 'r' 'a' 'k' ∧ m.tracks.length < 16) := by
        rw [header]
        exact fun both => absurd both.1 (by decide)
      rw [if_pos header, if_neg other, Outcome.ok_bind]
      exact ih sound
    by_cases track : b.type = fourcc 't' 'r' 'a' 'k'
    · rw [if_neg header, if_pos track]
      by_cases full : 16 ≤ m.tracks.length
      · rw [if_pos full, if_neg fun both => absurd full (not_le.mpr both.2), Outcome.ok_bind]
        exact ih sound
      · rw [if_neg full, if_pos ⟨track, not_le.mp full⟩]
        cases ran : parseTrak b.body fileSize with
        | failed error =>
          have holds : TrakHolds fileSize b.body := by
            by_contra broken
            rw [parseTrak_fault_iff.mpr broken] at ran
            cases ran
          refine ⟨iff_of_false nofun fun broken => broken ⟨holds, ?_⟩, nofun⟩
          rintro ⟨t, accepted⟩
          cases accepted
        | fault =>
          have broken := parseTrak_fault_iff.mp ran
          exact ⟨iff_of_true rfl fun hold => broken hold.1, nofun⟩
        | ok t =>
          have holds : TrakHolds fileSize b.body := by
            by_contra broken
            rw [parseTrak_fault_iff.mpr broken] at ran
            cases ran
          have later : ∀ other ∈ m.tracks ++ [t], SoundTrack fileSize other := by
            intro other member
            rcases List.mem_append.mp member with old | new
            · exact sound other old
            · rw [List.mem_singleton.mp new]
              exact parseTrak_ok ran
          have next := ih (m := { m with tracks := m.tracks ++ [t] }) later
          rw [List.length_append] at next
          rw [and_iff_right holds, Outcome.ok_bind, Outcome.ok_bind]
          refine ⟨next.1.trans (not_congr ⟨fun hold _ => hold, fun hold => hold ⟨t, rfl⟩⟩), next.2⟩
    · rw [if_neg header, if_neg track, if_neg fun both => track both.1, Outcome.ok_bind]
      exact ih sound

theorem safe_parseMoov_iff (body : List Byte) (fileSize : Nat) :
    Safe fileSize (parseMoov body fileSize) ↔ TraksHold fileSize (boxesOf body).1 0 := by
  obtain ⟨faults, tracks⟩ := moovBoxes_spec fileSize (boxesOf body).1 (m := {}) nofun
  unfold parseMoov
  dsimp only
  cases ran : (boxesOf body).1.foldlM (moovBox fileSize) {} with
  | fault => exact iff_of_false id (faults.mp ran)
  | failed error =>
    refine iff_of_true trivial (not_not.mp fun broken => ?_)
    rw [faults.mpr broken] at ran
    cases ran
  | ok m =>
    have hold : TraksHold fileSize (boxesOf body).1 0 := by
      refine not_not.mp fun broken => ?_
      rw [faults.mpr broken] at ran
      cases ran
    refine iff_of_true ?_ hold
    rw [Outcome.ok_bind]
    split_ifs
    · trivial
    · exact tracks m ran
    · exact tracks m ran

/-- Every byte string and every reader, whatever the file size. -/
theorem safe_iff (body : List Byte) (read : Mp4ReadAt) (fileSize : Nat) :
    (Safe fileSize (parseMoov body fileSize) ↔ TraksHold fileSize (boxesOf body).1 0) ∧
      (Safe fileSize (openMp4 read fileSize) ↔
        ∀ moov, findMoov read fileSize 0 = .ok moov → TraksHold fileSize (boxesOf moov).1 0) := by
  refine ⟨safe_parseMoov_iff body fileSize, ?_⟩
  unfold openMp4
  cases findMoov read fileSize 0 with
  | error text => exact iff_of_true trivial nofun
  | ok moov =>
    dsimp only
    rw [safe_parseMoov_iff]
    constructor
    · rintro hold other ⟨⟩
      exact hold
    · intro hold
      exact hold moov rfl

end Tracks

/-- A count of one sample, and no size behind it. -/
def shortStsz : List Byte :=
  fullBox (fourcc 's' 't' 't' 's') 0 0 (digits 4 1 ++ digits 4 1 ++ digits 4 1) ++
    fullBox (fourcc 's' 't' 's' 'c') 0 0 (digits 4 1 ++ digits 4 1 ++ digits 4 1 ++ digits 4 1) ++
    fullBox (fourcc 's' 't' 'c' 'o') 0 0 (digits 4 1 ++ digits 4 0) ++
    fullBox (fourcc 's' 't' 's' 'z') 0 0 (digits 4 0 ++ digits 4 1)

def shortMoov : List Byte :=
  box (fourcc 't' 'r' 'a' 'k') (box (fourcc 'm' 'd' 'i' 'a')
    (fullBox (fourcc 'm' 'd' 'h' 'd') 0 0 (digits 4 0 ++ digits 4 0 ++ digits 4 1) ++
      box (fourcc 'm' 'i' 'n' 'f') (box (fourcc 's' 't' 'b' 'l') shortStsz)))

theorem shortMoov_faults :
    parseMoov shortMoov 156 = .fault ∧ openMp4 (fileReader (box (fourcc 'm' 'o' 'o' 'v') shortMoov)) 156 = .fault := by
  decide +kernel

end Mello.Replay.Mp4Safety
