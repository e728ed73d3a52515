import Mello.Replay.Mp4Safety
import Mello.Replay.Mp4Tables

/-!
The times of a hostile clip. The decode times are sums of 32-bit deltas, the start of play is any
64-bit number of the edit list, and the microseconds are a product of 64 bits: what the file has to
say for the sums and the products to be exact.
-/

namespace Mello.Replay.Mp4Times
open Mello.Library BigEndian Mp4Box Mp4Demux Mp4Samples Mp4Safety Mp4Tables

def InInt64 (value : Int) : Prop := -9223372036854775808 ≤ value ∧ value ≤ 9223372036854775807

instance (value : Int) : Decidable (InInt64 value) := by
  unfold InInt64
  infer_instance

/-- `time` from the start of play, in microseconds. None where a signed 64-bit step overflows. -/
def timeUs (t : Mp4Track) (time : Int) : Option Int :=
  if t.timescale = 0 then some 0
  else
    let elapsed := time - t.editMediaTime
    let product := elapsed * 1000000
    if InInt64 elapsed ∧ InInt64 product then some (product.tdiv t.timescale) else none

/-! ## What is claimed -/

/-- The sum of the deltas before sample `i`. -/
def decodeTime : List (Nat × Nat) → Nat → Int
  | [], _ => 0
  | (count, delta) :: runs, i => if i < count then i * delta else count * delta + decodeTime runs (i - count)

def compositionOffset : List (Nat × Int) → Nat → Int
  | [], _ => 0
  | (count, delta) :: runs, i => if i < count then delta else compositionOffset runs (i - count)

def presentationTime (tab : Tables) (i : Nat) : Int := decodeTime tab.stts i + compositionOffset tab.ctts i

/-- What the boxes of a track say. -/
def trakOf (body : List Byte) : Trak := (forEachBox trakBox body {}).2

def isHeader (b : BoxRef) : Bool := b.type = fourcc 'm' 'v' 'h' 'd'

def isTrak (b : BoxRef) : Bool := b.type = fourcc 't' 'r' 'a' 'k'

/-- The track boxes that are read. -/
def trakBoxes (body : List Byte) : List BoxRef := ((boxesOf body).1.filter isTrak).take 16

/-- The scale and the duration of the last movie header. -/
def movieHeader (body : List Byte) : Moov :=
  ((boxesOf body).1.filter isHeader).foldl (fun m b => parseMvhd b.body m) {}

/-- The sums of the deltas do not overflow: all that `build_samples` adds up. -/
def SumsFit (tab : Tables) : Prop :=
  (∀ i ≤ tab.stszCount, InInt64 (decodeTime tab.stts i)) ∧ ∀ i < tab.stszCount, InInt64 (presentationTime tab i)

/-- The exact quotients, with no overflow on the way to them. -/
structure TimesExact (body : List Byte) (movie : Mp4Movie) : Prop where
  sums : ∀ b ∈ trakBoxes body, SumsFit (trakOf b.body).tab
  us : ∀ t ∈ movie.tracks, ∀ sample ∈ t.samples,
    timeUs t sample.time = some (((sample.time - t.editMediaTime) * 1000000).tdiv t.timescale)
  duration : movie.durationUs = (movieHeader body).movieDuration * 1000000 / (movieHeader body).movieScale

/-- The most ticks whose microseconds, times the timescale, fit 64 bits. -/
def kMaxElapsed : Int := 9223372036854

/-- All presentation times of a track are at most so far from its start of play. -/
def TrakFits (body : List Byte) : Prop :=
  ∀ i < (trakOf body).tab.stszCount,
    -kMaxElapsed ≤ presentationTime (trakOf body).tab i - (startOfPlay (trakOf body)).editMediaTime ∧
      presentationTime (trakOf body).tab i - (startOfPlay (trakOf body)).editMediaTime ≤ kMaxElapsed

instance (body : List Byte) : Decidable (TrakFits body) := by
  unfold TrakFits
  infer_instance

def Fits (body : List Byte) : Prop :=
  (∀ b ∈ trakBoxes body, TrakFits b.body) ∧
    ((movieHeader body).movieScale = 0 ∨ (movieHeader body).movieDuration ≤ 18446744073709)

/-! ## The times of a track -/

/-- The samples of one run, and behind them those of the other runs. -/
theorem getElem?_run {samples front rest : List Mp4Sample} {count : Nat} (own : front.length = (samples.take count).length)
    (others : rest.length = (samples.drop count).length) (i : Nat) :
    (front ++ rest)[i]? = if i < count then front[i]? else rest[i - count]? := by
  rw [List.length_take] at own
  rw [List.length_drop] at others
  rw [List.getElem?_append]
  by_cases here : i < front.length
  · rw [if_pos here, if_pos (by omega)]
  · rw [if_neg here]
    split_ifs with early
    · rw [List.getElem?_eq_none (by omega), List.getElem?_eq_none (by omega)]
    · rcases le_or_gt count samples.length with whole | short
      · rw [own, min_eq_left whole]
      · rw [List.getElem?_eq_none (by omega), List.getElem?_eq_none (by omega)]

theorem getElem?_stamp (runs : List (Nat × Nat)) (dts : Int) (samples : List Mp4Sample) (i : Nat) :
    ((stamp runs dts samples)[i]?).map Mp4Sample.time = samples[i]?.map fun _ => dts + decodeTime runs i := by
  induction runs generalizing dts samples i with
  | nil =>
    rw [stamp, List.getElem?_map, Option.map_map, decodeTime, Int.add_zero]
    rfl
  | cons run rest ih =>
    obtain ⟨count, delta⟩ := run
    rw [stamp, getElem?_run List.length_mapIdx (length_stamp _ _ _), decodeTime]
    by_cases early : i < count
    · rw [if_pos early, if_pos early, List.getElem?_mapIdx, List.getElem?_take_of_lt early, Option.map_map]
      rfl
    · rw [if_neg early, if_neg early, ih, List.getElem?_drop, Nat.add_sub_cancel' (not_lt.mp early)]
      rcases lt_or_ge i samples.length with here | past
      · have whole : min count samples.length = count := by omega
        rw [List.length_take, whole, Int.add_assoc]
      · rw [List.getElem?_eq_none past]
        rfl

theorem getElem?_shift (runs : List (Nat × Int)) (samples : List Mp4Sample) (i : Nat) :
    ((shift runs samples)[i]?).map Mp4Sample.time = samples[i]?.map fun sample => sample.time + compositionOffset runs i := by
  induction runs generalizing samples i with
  | nil => simp only [shift, compositionOffset, Int.add_zero]
  | cons run rest ih =>
    obtain ⟨count, delta⟩ := run
    rw [shift, getElem?_run (List.length_map _) (length_shift _ _), compositionOffset]
    by_cases early : i < count
    · rw [if_pos early, if_pos early, List.getElem?_map, List.getElem?_take_of_lt early, Option.map_map]
      rfl
    · rw [if_neg early, if_neg early, ih, List.getElem?_drop, Nat.add_sub_cancel' (not_lt.mp early)]

theorem times_markAll {tab : Tables} {samples marked : List Mp4Sample} (all : samples.length = tab.stszCount)
    (ran : markAll tab samples = .ok marked) : marked.map Mp4Sample.time = samples.map Mp4Sample.time := by
  unfold markAll at ran
  split_ifs at ran
  · rw [foldlM_mark tab.stss all] at ran
    cases ran
    exact map_mark (fun _ => rfl) tab.stss samples
  · cases ran
    rw [List.map_map]
    rfl

/-- The samples' times, in order, by the tables alone. -/
theorem times_timed {tab : Tables} {placed samples : List Mp4Sample} (all : placed.length = tab.stszCount)
    (ran : markAll tab (shift tab.ctts (stamp tab.stts 0 placed)) = .ok samples) :
    samples.map Mp4Sample.time = (List.range tab.stszCount).map (presentationTime tab) := by
  rw [times_markAll (by rw [length_timed]; exact all) ran]
  apply List.ext_getElem?
  intro i
  rw [List.getElem?_map, getElem?_shift, List.getElem?_map]
  have stamped := getElem?_stamp tab.stts 0 placed i
  rcases timed : (stamp tab.stts 0 placed)[i]? with _ | sample
  · have short : tab.stszCount ≤ i := by
      rw [← all, ← length_stamp tab.stts 0 placed]
      exact List.getElem?_eq_none_iff.mp timed
    rw [List.getElem?_eq_none (by rwa [List.length_range])]
    rfl
  · have inside : i < placed.length := by
      by_contra outside
      rw [timed, List.getElem?_eq_none (not_lt.mp outside)] at stamped
      cases stamped
    rw [timed, List.getElem?_eq_getElem inside, Option.map_some, Option.map_some, Option.some.injEq, Int.zero_add] at stamped
    rw [List.getElem?_range (by omega), Option.map_some, Option.map_some, stamped]
    rfl

theorem times_buildSamples {tab : Tables} {fileSize : Nat} {t built : Mp4Track} (none : t.samples = [])
    (ran : buildSamples tab fileSize t = .ok built) :
    built.timescale = t.timescale ∧ built.editMediaTime = t.editMediaTime ∧
      built.samples.map Mp4Sample.time = (List.range tab.stszCount).map (presentationTime tab) := by
  by_cases empty : tab.stszCount = 0
  · rw [buildSamples, if_pos empty] at ran
    cases ran
    refine ⟨rfl, rfl, ?_⟩
    rw [none, empty]
    rfl
  by_cases tables : tab.stsc = [] ∨ tab.chunks = [] ∨ tab.stts = []
  · rw [buildSamples, if_neg empty, if_pos tables] at ran
    cases ran
  rw [buildSamples_some empty tables] at ran
  cases walked : place tab fileSize (spots tab tab.stsc) 0 [] >>= ending tab tab.stsc with
  | failed error => simp [walked] at ran
  | fault => simp [walked] at ran
  | ok placed =>
    rw [walked, Outcome.ok_bind] at ran
    split_ifs at ran with short
    have all := not_not.mp short
    obtain ⟨samples, marked, -⟩ := timed_ok all
    rw [marked, Outcome.ok_bind] at ran
    cases ran
    exact ⟨rfl, rfl, times_timed all marked⟩

/-- What a track that parses has of its boxes. -/
theorem times_parseTrak {body : List Byte} {fileSize : Nat} {t : Mp4Track} (ran : parseTrak body fileSize = .ok t) :
    t.timescale ≠ 0 ∧ t.editMediaTime = (startOfPlay (trakOf body)).editMediaTime ∧
      t.samples.map Mp4Sample.time = (List.range (trakOf body).tab.stszCount).map (presentationTime (trakOf body).tab) := by
  have scaled := (parseTrak_ok ran).1
  unfold parseTrak at ran
  dsimp only at ran
  split_ifs at ran with unparsed unscaled
  obtain ⟨-, edit, times⟩ := times_buildSamples (samples_startOfPlay body) ran
  exact ⟨scaled, edit, times⟩

theorem timeUs_iff {t : Mp4Track} (scaled : t.timescale ≠ 0) (time : Int) :
    timeUs t time = some (((time - t.editMediaTime) * 1000000).tdiv t.timescale) ↔
      -kMaxElapsed ≤ time - t.editMediaTime ∧ time - t.editMediaTime ≤ kMaxElapsed := by
  unfold timeUs kMaxElapsed
  dsimp only
  rw [if_neg scaled]
  by_cases fits : InInt64 (time - t.editMediaTime) ∧ InInt64 ((time - t.editMediaTime) * 1000000)
  · rw [if_pos fits]
    unfold InInt64 at fits
    exact iff_of_true rfl (by omega)
  · rw [if_neg fits]
    refine iff_of_false nofun fun small => fits ?_
    unfold InInt64
    omega

/-- The products of a track are exact when its times are near its start of play. -/
theorem us_iff {body : List Byte} {fileSize : Nat} {t : Mp4Track} (ran : parseTrak body fileSize = .ok t) :
    (∀ sample ∈ t.samples, timeUs t sample.time = some (((sample.time - t.editMediaTime) * 1000000).tdiv t.timescale)) ↔
      TrakFits body := by
  obtain ⟨scaled, edit, times⟩ := times_parseTrak ran
  have same : ∀ holds : Int → Prop, (∀ sample ∈ t.samples, holds sample.time) ↔
      ∀ i < (trakOf body).tab.stszCount, holds (presentationTime (trakOf body).tab i) := by
    intro holds
    rw [← List.forall_mem_map, times, List.forall_mem_map]
    simp only [List.mem_range]
  rw [same fun time => timeUs t time = some (((time - t.editMediaTime) * 1000000).tdiv t.timescale)]
  unfold TrakFits
  rw [← edit]
  exact forall_congr' fun i => forall_congr' fun _ => timeUs_iff scaled _

/-! ## Narrow tables -/

/-- Deltas of 32 bits. -/
structure NarrowTables (tab : Tables) : Prop where
  stts : ∀ run ∈ tab.stts, run.2 < 2 ^ 32
  ctts : ∀ run ∈ tab.ctts, -(2 ^ 31) ≤ run.2 ∧ run.2 < 2 ^ 31

theorem entries_all {α : Type} {entry : Cursor → α × Cursor} (holds : α → Prop) (each : ∀ c, holds (entry c).1)
    (count : Nat) (c : Cursor) : ∀ x ∈ (entries entry count c).1, holds x := by
  induction count generalizing c with
  | zero => exact fun _ member => (List.not_mem_nil member).elim
  | succ count ih =>
    intro x member
    rcases List.mem_cons.mp member with rfl | later
    · exact each c
    · exact ih _ x later

theorem u32_lt (c : Cursor) : c.u32.1 < 2 ^ 32 := by
  unfold Cursor.u32 Cursor.take
  split_ifs with inside
  · have bound := number_lt (c.here 4 inside)
    have length : (c.here 4 inside).length ≤ 4 := List.length_take_le _ _
    exact lt_of_lt_of_le bound (Nat.pow_le_pow_right (by decide) length)
  · exact Nat.two_pow_pos 32

theorem narrow_entries {tab : Tables} (narrow : NarrowTables tab) (body : List Byte) :
    (∀ stts c, tableOf 8 sttsEntry body = some (stts, c) → NarrowTables { tab with stts := tab.stts ++ stts }) ∧
      ∀ ctts c, tableOf 8 cttsEntry body = some (ctts, c) → NarrowTables { tab with ctts := tab.ctts ++ ctts } := by
  constructor
  · intro stts c read
    refine ⟨fun run member => ?_, narrow.ctts⟩
    rcases List.mem_append.mp member with old | new
    · exact narrow.stts run old
    · unfold tableOf at read
      dsimp only at read
      split_ifs at read
      obtain ⟨rfl, rfl⟩ := Prod.mk.inj (Option.some.inj read)
      exact entries_all (fun run : Nat × Nat => run.2 < 2 ^ 32) (fun c => u32_lt c.u32.2) _ _ run new
  · intro ctts c read
    refine ⟨narrow.stts, fun run member => ?_⟩
    rcases List.mem_append.mp member with old | new
    · exact narrow.ctts run old
    · unfold tableOf at read
      dsimp only at read
      split_ifs at read
      obtain ⟨rfl, rfl⟩ := Prod.mk.inj (Option.some.inj read)
      exact entries_all (fun run : Nat × Int => -(2 ^ 31) ≤ run.2 ∧ run.2 < 2 ^ 31)
        (fun c => ⟨BitVec.le_toInt _, BitVec.toInt_lt⟩) _ _ run new

theorem forEachBox_holds {State : Type} {fn : State → BoxRef → State} (holds : State → Prop)
    (kept : ∀ s b, holds s → holds (fn s b)) (data : List Byte) {s : State} (start : holds s) :
    holds (forEachBox fn data s).2 := by
  unfold forEachBox
  induction (boxesOf data).1 generalizing s with
  | nil => exact start
  | cons b rest ih => exact ih (kept s b start)

theorem narrow_parseStsz {tab : Tables} (narrow : NarrowTables tab) (body : List Byte) :
    NarrowTables (parseStsz body tab).2 := by
  unfold parseStsz
  dsimp only
  split_ifs <;> exact ⟨narrow.stts, narrow.ctts⟩

theorem narrow_stblBox (s : Bool × Mp4Track × Tables) (b : BoxRef) (narrow : NarrowTables s.2.2) :
    NarrowTables (stblBox s b).2.2 := by
  obtain ⟨ok, t, tab⟩ := s
  cases ok with
  | false => exact narrow
  | true =>
    have before : NarrowTables tab := narrow
    have reads := (stblBox_reads t tab b).2
    generalize stblBox (true, t, tab) b = after at reads ⊢
    obtain ⟨ok, t', tab'⟩ := after
    cases reads with
    | same => exact before
    | stts read => exact (narrow_entries before b.body).1 _ _ read
    | ctts read => exact (narrow_entries before b.body).2 _ _ read
    | stsz => exact narrow_parseStsz before b.body
    | stss | stsc | chunks => exact ⟨before.stts, before.ctts⟩

theorem narrow_minfBox (s : Bool × Mp4Track × Tables) (b : BoxRef) (narrow : NarrowTables s.2.2) :
    NarrowTables (minfBox s b).2.2 := by
  unfold minfBox
  split_ifs
  · exact forEachBox_holds (fun s : Bool × Mp4Track × Tables => NarrowTables s.2.2) narrow_stblBox b.body narrow
  · exact narrow

theorem narrow_mdiaBox (s : Bool × Mp4Track × Tables) (m : BoxRef) (narrow : NarrowTables s.2.2) :
    NarrowTables (mdiaBox s m).2.2 := by
  unfold mdiaBox
  dsimp only
  split_ifs
  · exact narrow
  · exact narrow
  · exact forEachBox_holds (fun s : Bool × Mp4Track × Tables => NarrowTables s.2.2) narrow_minfBox m.body narrow
  · exact narrow

theorem narrow_trakBox (s : Trak) (b : BoxRef) (narrow : NarrowTables s.tab) : NarrowTables (trakBox s b).tab := by
  unfold trakBox
  split_ifs
  · exact narrow
  · exact narrow
  · exact narrow
  · exact forEachBox_holds (fun s : Bool × Mp4Track × Tables => NarrowTables s.2.2) narrow_mdiaBox b.body narrow
  · exact narrow

theorem narrow_trakOf (body : List Byte) : NarrowTables (trakOf body).tab :=
  forEachBox_holds (fun s : Trak => NarrowTables s.tab) narrow_trakBox body
    ⟨fun _ member => (List.not_mem_nil member).elim, fun _ member => (List.not_mem_nil member).elim⟩

/-! ## The sums -/

theorem decodeTime_zero (runs : List (Nat × Nat)) : decodeTime runs 0 = 0 := by
  induction runs with
  | nil => rfl
  | cons run rest ih =>
    obtain ⟨count, delta⟩ := run
    rw [decodeTime]
    split_ifs with some
    · exact Int.zero_mul _
    · have none : count = 0 := by omega
      rw [none, ih, Int.add_zero]
      exact Int.zero_mul _

theorem decodeTime_nonneg (runs : List (Nat × Nat)) (i : Nat) : 0 ≤ decodeTime runs i := by
  induction runs generalizing i with
  | nil => exact Int.le_refl 0
  | cons run rest ih =>
    obtain ⟨count, delta⟩ := run
    rw [decodeTime]
    split_ifs
    · positivity
    · have later := ih (i - count)
      positivity

/-- One delta more. -/
theorem decodeTime_succ {runs : List (Nat × Nat)} (narrow : ∀ run ∈ runs, run.2 < 2 ^ 32) (i : Nat) :
    decodeTime runs (i + 1) < decodeTime runs i + 2 ^ 32 := by
  induction runs generalizing i with
  | nil => exact show (0 : Int) < 0 + 2 ^ 32 by norm_num
  | cons run rest ih =>
    obtain ⟨count, delta⟩ := run
    have small : (delta : Int) < 2 ^ 32 := by exact_mod_cast narrow (count, delta) List.mem_cons_self
    have later := ih (fun run member => narrow run (List.mem_cons_of_mem _ member)) (i - count)
    rw [decodeTime, decodeTime]
    rcases lt_trichotomy (i + 1) count with inside | last | behind
    · rw [if_pos inside, if_pos (by omega)]
      push_cast
      linarith
    · rw [if_neg (by omega), if_pos (by omega), ← last, Nat.sub_self, decodeTime_zero]
      push_cast
      linarith
    · rw [if_neg (by omega), if_neg (by omega), Nat.sub_add_comm (by omega)]
      linarith

theorem compositionOffset_bounds {runs : List (Nat × Int)} (narrow : ∀ run ∈ runs, -(2 ^ 31) ≤ run.2 ∧ run.2 < 2 ^ 31)
    (i : Nat) : -(2 ^ 31) ≤ compositionOffset runs i ∧ compositionOffset runs i < 2 ^ 31 := by
  induction runs generalizing i with
  | nil => exact ⟨by norm_num [compositionOffset], by norm_num [compositionOffset]⟩
  | cons run rest ih =>
    obtain ⟨count, delta⟩ := run
    rw [compositionOffset]
    split_ifs
    · exact narrow _ List.mem_cons_self
    · exact ih (fun run member => narrow run (List.mem_cons_of_mem _ member)) _

/-- The first sample is near the start of play, so the start of play is small, and all sums are. -/
theorem sums_of_fits {body : List Byte} (fits : TrakFits body) : SumsFit (trakOf body).tab := by
  have narrow := narrow_trakOf body
  have offset := compositionOffset_bounds narrow.ctts
  have start := decodeTime_nonneg (trakOf body).tab.stts
  have early : ∀ i < (trakOf body).tab.stszCount,
      decodeTime (trakOf body).tab.stts i ≤ 2 * kMaxElapsed + 2 ^ 32 := by
    intro i inside
    have first := fits 0 (by omega)
    have here := fits i inside
    unfold presentationTime at first here
    rw [decodeTime_zero] at first
    have low := offset 0
    have high := offset i
    omega
  have all : ∀ i ≤ (trakOf body).tab.stszCount, decodeTime (trakOf body).tab.stts i ≤ 2 * kMaxElapsed + 2 ^ 33 := by
    intro i inside
    rcases i with _ | i
    · rw [decodeTime_zero]
      decide
    · have before := early i (by omega)
      have step := decodeTime_succ narrow.stts i
      omega
  unfold kMaxElapsed at early all
  constructor
  · intro i inside
    have low := start i
    have high := all i inside
    unfold InInt64
    omega
  · intro i inside
    have low := start i
    have high := early i inside
    have bounds := offset i
    unfold InInt64 presentationTime
    omega

/-! ## The movie -/

/-- The wrapped product gives the quotient when it does not wrap. -/
theorem duration_iff {scale : Nat} (small : scale < 2 ^ 32) (duration : Nat) :
    (if scale = 0 then 0 else duration * 1000000 % 2 ^ 64 / scale) = duration * 1000000 / scale ↔
      scale = 0 ∨ duration ≤ 18446744073709 := by
  by_cases none : scale = 0
  · rw [if_pos none, none, Nat.div_zero]
    exact iff_of_true rfl (.inl rfl)
  rw [if_neg none, or_iff_right none]
  constructor
  · intro same
    by_contra long
    have wrapped : duration * 1000000 % 2 ^ 64 + scale ≤ duration * 1000000 := by omega
    have less := Nat.div_le_div_right (c := scale) wrapped
    rw [Nat.add_div_right _ (Nat.pos_of_ne_zero none), same] at less
    omega
  · intro short
    rw [Nat.mod_eq_of_lt (by omega)]

/-- A header does not read the tracks. -/
theorem header_tracks (boxes : List BoxRef) (m : Moov) (tracks : List Mp4Track) :
    boxes.foldl (fun m b => parseMvhd b.body m) { m with tracks } =
      { boxes.foldl (fun m b => parseMvhd b.body m) m with tracks } := by
  induction boxes generalizing m with
  | nil => rfl
  | cons b rest ih => exact ih (parseMvhd b.body m)

/-- The walk of a moov that parses: its header is the last one, its tracks are those of the first boxes. -/
theorem moov_boxes {fileSize : Nat} {boxes : List BoxRef} {m all : Moov} (ran : boxes.foldlM (moovBox fileSize) m = .ok all) :
    ∃ tracks, List.Forall₂ (fun b t => parseTrak b.body fileSize = .ok t)
        ((boxes.filter isTrak).take (16 - m.tracks.length)) tracks ∧
      all = { (boxes.filter isHeader).foldl (fun m b => parseMvhd b.body m) m with tracks := m.tracks ++ tracks } := by
  induction boxes generalizing m with
  | nil =>
    cases ran
    refine ⟨[], ?_, ?_⟩
    · rw [List.filter_nil, List.take_nil]
      exact .nil
    · rw [List.append_nil]
      rfl
  | cons b rest ih =>
    rw [List.foldlM_cons] at ran
    by_cases header : b.type = fourcc 'm' 'v' 'h' 'd'
    · have moved : moovBox fileSize m b = .ok (parseMvhd b.body m) := if_pos header
      have other : ¬isTrak b = true := by
        unfold isTrak
        rw [header]
        decide
      rw [moved, Outcome.ok_bind] at ran
      obtain ⟨tracks, each, same⟩ := ih ran
      rw [List.filter_cons_of_neg (p := isTrak) other, List.filter_cons_of_pos (p := isHeader) (decide_eq_true header)]
      exact ⟨tracks, each, same⟩
    have plain : ¬isHeader b = true := fun same => header (of_decide_eq_true same)
    rw [List.filter_cons_of_neg (p := isHeader) plain]
    by_cases track : b.type = fourcc 't' 'r' 'a' 'k'
    · rw [List.filter_cons_of_pos (p := isTrak) (decide_eq_true track)]
      by_cases full : 16 ≤ m.tracks.length
      · have moved : moovBox fileSize m b = .ok m := by
          unfold moovBox
          rw [if_neg header, if_pos track, if_pos full]
        rw [moved, Outcome.ok_bind] at ran
        obtain ⟨tracks, each, same⟩ := ih ran
        rw [Nat.sub_eq_zero_of_le full, List.take_zero] at each ⊢
        exact ⟨tracks, each, same⟩
      · have moved : moovBox fileSize m b = parseTrak b.body fileSize >>= fun t => .ok { m with tracks := m.tracks ++ [t] } := by
          unfold moovBox
          rw [if_neg header, if_pos track, if_neg full]
        rw [moved] at ran
        rcases parsed : parseTrak b.body fileSize with t | error | _
        · rw [parsed, Outcome.ok_bind, Outcome.ok_bind] at ran
          obtain ⟨tracks, each, same⟩ := ih ran
          have room : 16 - m.tracks.length = 16 - (m.tracks ++ [t]).length + 1 := by
            rw [List.length_append, List.length_singleton]
            omega
          rw [room, List.take_succ_cons]
          refine ⟨t :: tracks, .cons parsed each, ?_⟩
          rw [same, header_tracks, List.append_assoc]
          rfl
        · rw [parsed] at ran
          cases ran
        · rw [parsed] at ran
          cases ran
    · have moved : moovBox fileSize m b = .ok m := by
        unfold moovBox
        rw [if_neg header, if_neg track]
      rw [moved, Outcome.ok_bind] at ran
      rw [List.filter_cons_of_neg (p := isTrak) fun same => track (of_decide_eq_true same)]
      exact ih ran

theorem exists_right {α β : Type*} {related : α → β → Prop} {xs : List α} {ys : List β}
    (each : List.Forall₂ related xs ys) : ∀ x ∈ xs, ∃ y ∈ ys, related x y := by
  induction each with
  | nil => exact fun _ member => (List.not_mem_nil member).elim
  | cons here _ ih =>
    intro x member
    rcases List.mem_cons.mp member with rfl | later
    · exact ⟨_, List.mem_cons_self, here⟩
    · obtain ⟨y, listed, holds⟩ := ih x later
      exact ⟨y, List.mem_cons_of_mem _ listed, holds⟩

theorem scale_lt (body : List Byte) : (movieHeader body).movieScale < 2 ^ 32 := by
  unfold movieHeader
  generalize (boxesOf body).1.filter isHeader = boxes
  have kept : ∀ m : Moov, m.movieScale < 2 ^ 32 → (boxes.foldl (fun m b => parseMvhd b.body m) m).movieScale < 2 ^ 32 := by
    induction boxes with
    | nil => exact fun m small => small
    | cons b rest ih => exact fun m _ => ih (parseMvhd b.body m) (u32_lt _)
  exact kept {} (Nat.two_pow_pos 32)

/-- A moov that parses has exact times exactly when its fields are small enough. -/
theorem times_exact_iff {body : List Byte} {fileSize : Nat} {movie : Mp4Movie}
    (accepted : parseMoov body fileSize = .ok movie) : TimesExact body movie ↔ Fits body := by
  unfold parseMoov at accepted
  dsimp only at accepted
  rcases ran : (boxesOf body).1.foldlM (moovBox fileSize) {} with all | error | _
  · rw [ran, Outcome.ok_bind] at accepted
    by_cases walked : (boxesOf body).2 = false
    · rw [if_pos walked] at accepted
      cases accepted
    rw [if_neg walked] at accepted
    obtain ⟨tracks, each, rfl⟩ := moov_boxes ran
    cases accepted
    have duration := duration_iff (scale_lt body) (movieHeader body).movieDuration
    have read : ∀ b ∈ trakBoxes body, ∃ t ∈ tracks, parseTrak b.body fileSize = .ok t := exists_right each
    have made : ∀ t ∈ tracks, ∃ b ∈ trakBoxes body, parseTrak b.body fileSize = .ok t := exists_right each.flip
    constructor
    · intro exactly
      refine ⟨fun b member => ?_, duration.mp exactly.duration⟩
      obtain ⟨t, listed, parsed⟩ := read b member
      exact (us_iff parsed).mp (exactly.us t listed)
    · intro fits
      refine ⟨fun b member => sums_of_fits (fits.1 b member), fun t listed => ?_, duration.mpr fits.2⟩
      obtain ⟨b, member, parsed⟩ := made t listed
      exact (us_iff parsed).mpr (fits.1 b member)
  · rw [ran] at accepted
    cases accepted
  · rw [ran] at accepted
    cases accepted

/-! ## Two clips -/

/-- A track of one sample of one byte, with an edit list that starts at `media`. -/
def editedTrak (media : Nat) : List Byte :=
  box (fourcc 't' 'r' 'a' 'k')
    (box (fourcc 'e' 'd' 't' 's')
        (fullBox (fourcc 'e' 'l' 's' 't') 1 0 (digits 4 1 ++ (digits 8 0 ++ (digits 8 media ++ digits 4 65536)))) ++
      box (fourcc 'm' 'd' 'i' 'a')
        (fullBox (fourcc 'm' 'd' 'h' 'd') 0 0 (digits 4 0 ++ (digits 4 0 ++ digits 4 1000)) ++
          box (fourcc 'm' 'i' 'n' 'f') (box (fourcc 's' 't' 'b' 'l')
            (fullBox (fourcc 's' 't' 't' 's') 0 0 (digits 4 1 ++ (digits 4 1 ++ digits 4 1)) ++
              (fullBox (fourcc 's' 't' 's' 'c') 0 0 (digits 4 1 ++ (digits 4 1 ++ (digits 4 1 ++ digits 4 1))) ++
                (fullBox (fourcc 's' 't' 'c' 'o') 0 0 (digits 4 1 ++ digits 4 0) ++
                  fullBox (fourcc 's' 't' 's' 'z') 0 0 (digits 4 1 ++ digits 4 1)))))))

/-- A moov with that track and a duration in milliseconds. -/
def editedMoov (duration media : Nat) : List Byte :=
  fullBox (fourcc 'm' 'v' 'h' 'd') 1 0 (digits 8 0 ++ (digits 8 0 ++ (digits 4 1000 ++ digits 8 duration))) ++
    editedTrak media

def editedMovie (duration : Nat) (media : Int) : Mp4Movie where
  fileSize := 300
  durationUs := duration
  tracks := [{
    timescale := 1000, editMediaTime := media
    samples := [{ offset := 0, size := 1, time := 0, duration := 1, sync := true }] }]

theorem times_exact_edited :
    parseMoov (editedMoov 2000 40) 300 = .ok (editedMovie 2000000 40) ∧ TimesExact (editedMoov 2000 40) (editedMovie 2000000 40) := by
  have accepted : parseMoov (editedMoov 2000 40) 300 = .ok (editedMovie 2000000 40) := by decide +kernel
  exact ⟨accepted, (times_exact_iff accepted).mpr ⟨by decide +kernel, .inr (by decide +kernel)⟩⟩

/-- The product of the start of play overflows, and that of the duration wraps to zero. -/
theorem edited_overflows :
    (¬ ∀ body fileSize movie, parseMoov body fileSize = .ok movie → TimesExact body movie) ∧
      parseMoov (editedMoov (2 ^ 60) (2 ^ 62)) 300 = .ok (editedMovie 0 (2 ^ 62)) ∧
      ∀ t ∈ (editedMovie 0 (2 ^ 62)).tracks, timeUs t 0 = none := by
  have accepted : parseMoov (editedMoov (2 ^ 60) (2 ^ 62)) 300 = .ok (editedMovie 0 (2 ^ 62)) := by decide +kernel
  have overflow : ∀ t ∈ (editedMovie 0 (2 ^ 62)).tracks, timeUs t 0 = none := by decide +kernel
  refine ⟨fun all => ?_, accepted, overflow⟩
  have wrong := (all _ _ _ accepted).duration
  exact absurd wrong (by decide +kernel)

end Mello.Replay.Mp4Times
