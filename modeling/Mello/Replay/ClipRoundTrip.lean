import Mello.Replay.AvccRoundTrip
import Mello.Replay.ClipTracks

/-!
A written clip read back. The demux finds both tracks in the file, and each sample has the
bytes, the time and the mark that the writer put in.
-/

namespace Mello.Replay.ClipRoundTrip
open Mello.Library BigEndian Extents Mp4Box Mp4Demux Mp4Write Mp4Parse Mp4Tables
open ClipLayout ClipTracks AvccRoundTrip
open VideoRing (AccessUnitRef)

/-! ## What is claimed -/

/-- The neighbours among the first times that fall on one tick. -/
def merged (at_ : List Nat) : Nat → Nat
  | 0 => 0
  | i + 1 => merged at_ i + if ticks (at_.getD (i + 1) 0) = ticks (at_.getD i 0) then 1 else 0

/-- The sample is the unit: its NAL units, and its mark. -/
def Kept (input : ClipMuxInput) (file : List Byte) (t : Mp4Track) (unit : AccessUnitRef)
    (sample : Mp4Sample) : Prop :=
  sample.sync = unit.keyframe ∧ ∃ bytes data, input.readUnit unit = some bytes ∧
    readSample (fileReader file) sample = some data ∧
      avccToAnnexB data t.nalLengthSize = some (withStartCodes (nalsOf bytes))

structure VideoKept (clip : ClipPlan) (file : List Byte) (t : Mp4Track) : Prop where
  size : t.width = clip.input.width ∧ t.height = clip.input.height
  sets : t.sps = [clip.video.sps] ∧ t.pps = [clip.video.pps]
  clock : t.timescale = kVideoScale ∧ t.editMediaTime = 0
  units : List.Forall₂ (Kept clip.input file t) clip.input.units t.samples
  times : t.samples.map Mp4Sample.time =
    (List.range clip.video.at_.length).map fun i =>
      ((ticks (clip.video.at_.getD i 0) + merged clip.video.at_ i : Nat) : Int)

structure AudioKept (clip : ClipPlan) (file : List Byte) (t : Mp4Track) : Prop where
  coding : t.channels = 2 ∧ t.sampleRate = kAudioRate ∧ t.preSkip = clip.sound.preSkip ∧
    t.rollDistance = kOpusRoll
  clock : t.timescale = kAudioRate ∧ t.editMediaTime = clip.sound.preSkip
  packets : List.Forall₂
    (fun packet sample => readSample (fileReader file) sample = some packet ∧ sample.sync = true)
    clip.sound.packets t.samples
  times : t.samples.map Mp4Sample.time =
    (List.range clip.sound.packets.length).map fun i => ((i * kOpusFrame : Nat) : Int)

/-- The clip is short enough for the fields of its boxes. -/
structure Fits (clip : ClipPlan) : Prop where
  sps : clip.video.sps.length < 2 ^ 16
  pps : clip.video.pps.length < 2 ^ 16
  samples : clip.input.units.length + clip.sound.packets.length ≤ 1000000
  lasts : ∀ at_ ∈ clip.video.at_, at_ * kVideoScale + 500000 < 2 ^ 32 * 1000000

/-! ## The plan -/

theorem forall₂_of_mapM {α β : Type*} {f : α → Option β} {xs : List α} {ys : List β}
    (ran : xs.mapM f = some ys) :
    List.Forall₂ (fun x y => f x = some y) xs ys := by
  induction xs generalizing ys with
  | nil =>
    obtain rfl := Option.some.inj ran
    exact .nil
  | cons x rest ih =>
    simp only [List.mapM_cons, Option.pure_def, Option.bind_eq_bind, Option.bind_eq_some_iff,
      Option.some.injEq] at ran
    obtain ⟨y, here, others, later, rfl⟩ := ran
    exact .cons here (ih later)

/-- What the first pass over the units finds. -/
structure Planned (input : ClipMuxInput) (video : VideoPlan) : Prop where
  width : input.width < 2 ^ 16
  height : input.height < 2 ^ 16
  sps : video.sps ≠ []
  pps : video.pps ≠ []
  front : ∃ front rest, input.units = front :: rest ∧ front.keyframe = true ∧
    video.at_ = atUs front.captureUs none input.units
  gaps : ∃ last, video.gaps = gaps last video.at_
  sizes : List.Forall₂
    (fun unit size => ∃ bytes, input.readUnit unit = some bytes ∧ size = avccSize bytes % 2 ^ 32)
    input.units video.sizes

theorem planned_of {input : ClipMuxInput} {video : VideoPlan}
    (planned : planVideo input = some video) : Planned input video := by
  unfold planVideo at planned
  split at planned
  · cases planned
  · next front rest units =>
    split_ifs at planned with shape still
    obtain ⟨bytes, -, planned⟩ := Option.bind_eq_some_iff.mp planned
    dsimp only at planned
    split_ifs at planned with sets
    obtain ⟨sizes, sized, planned⟩ := Option.bind_eq_some_iff.mp planned
    split_ifs at planned
    obtain rfl := Option.some.inj planned
    rw [not_or] at sets
    refine ⟨by omega, by omega, fun none => ?_, sets.2,
      ⟨front, rest, units, Bool.eq_true_of_not_eq_false still, rfl⟩, ⟨_, rfl⟩, ?_⟩
    · have short := sets.1
      dsimp only at none
      rw [none] at short
      exact short (by decide)
    · apply (forall₂_of_mapM sized).imp
      intro unit size read
      obtain ⟨bytes, found, same⟩ := Option.map_eq_some_iff.mp read
      exact ⟨bytes, found, same.symm⟩

/-! ## The times -/

section Times

theorem length_atUs (t0 : Nat) (previous : Option Nat) (units : List AccessUnitRef) :
    (atUs t0 previous units).length = units.length := by
  induction units generalizing previous with
  | nil => rfl
  | cons unit rest ih =>
    unfold atUs
    rw [List.length_cons, ih, List.length_cons]

/-- Each time is behind the one before it. -/
theorem ordered_atUs (t0 : Nat) (previous : Option Nat) (units : List AccessUnitRef) :
    (∀ before, previous = some before → ∀ at_ ∈ atUs t0 previous units, before < at_) ∧
      (atUs t0 previous units).Pairwise (· < ·) := by
  induction units generalizing previous with
  | nil => exact ⟨fun _ _ _ member => (List.not_mem_nil member).elim, .nil⟩
  | cons unit rest ih =>
    have first (here : Nat) (later : ∀ before, previous = some before → before < here) :
        (∀ before, previous = some before → ∀ at_ ∈ here :: atUs t0 (some here) rest, before < at_) ∧
          (here :: atUs t0 (some here) rest).Pairwise (· < ·) := by
      obtain ⟨behind, ordered⟩ := ih (some here)
      refine ⟨?_, List.pairwise_cons.mpr ⟨behind _ rfl, ordered⟩⟩
      intro before known at_ member
      rcases List.mem_cons.mp member with rfl | inside
      · exact later before known
      · exact (later before known).trans (behind _ rfl at_ inside)
    unfold atUs
    apply first
    intro before known
    subst known
    dsimp only
    split_ifs <;> omega

theorem heardUs_mono (preSkip : Nat) {first second : Nat} (ordered : first ≤ second) :
    heardUs preSkip first ≤ heardUs preSkip second := by
  unfold heardUs
  apply Int.tdiv_le_tdiv (by decide)
  have frames : (first : Int) * kOpusFrame ≤ second * kOpusFrame := by gcongr
  omega

theorem ticks_mono {first second : Nat} (ordered : first ≤ second)
    (small : second * kVideoScale + 500000 < 2 ^ 64) :
    ticks first ≤ ticks second := by
  have less : first * kVideoScale + 500000 ≤ second * kVideoScale + 500000 := by gcongr
  unfold ticks
  rw [Nat.mod_eq_of_lt (less.trans_lt small), Nat.mod_eq_of_lt small]
  exact Nat.div_le_div_right less

theorem length_gaps (last : Nat) (at_ : List Nat) : (gaps last at_).length = at_.length := by
  induction at_ with
  | nil => rfl
  | cons here rest ih =>
    cases rest with
    | nil => rw [gaps, List.length_singleton, List.length_singleton]
    | cons next rest => simp only [gaps, List.length_cons, ih]

theorem getElem?_gaps (last : Nat) {at_ : List Nat} {i : Nat} (inside : i + 1 < at_.length) :
    (gaps last at_)[i]? = some (gap (at_.getD i 0) (at_.getD (i + 1) 0)) := by
  induction at_ generalizing i with
  | nil => cases inside
  | cons here rest ih =>
    cases rest with
    | nil =>
      rw [List.length_singleton] at inside
      omega
    | cons next rest =>
      cases i with
      | zero => rfl
      | succ i =>
        rw [gaps, List.getElem?_cons_succ, ih (Nat.lt_of_succ_lt_succ inside)]
        rfl

/-- The gaps before a time add up to its tick, with one more for each pair on one tick. -/
theorem sum_gaps {at_ : List Nat} (ordered : at_.Pairwise (· < ·))
    (lasts : ∀ time ∈ at_, time * kVideoScale + 500000 < 2 ^ 32 * 1000000)
    (start : ticks (at_.getD 0 0) = 0) (last : Nat) {i : Nat} (inside : i < at_.length) :
    (((gaps last at_).map fun d => d % 2 ^ 32).take i).sum = ticks (at_.getD i 0) + merged at_ i := by
  induction i with
  | zero =>
    rw [List.take_zero, start]
    rfl
  | succ i ih =>
    have here := ih (Nat.lt_of_succ_lt inside)
    have first := List.getD_eq_getElem at_ 0 (Nat.lt_of_succ_lt inside)
    have second := List.getD_eq_getElem at_ 0 inside
    have before : at_.getD i 0 < at_.getD (i + 1) 0 := by
      rw [first, second]
      exact List.pairwise_iff_getElem.mp ordered i (i + 1) _ _ (Nat.lt_succ_self i)
    have small : at_.getD (i + 1) 0 * kVideoScale + 500000 < 2 ^ 32 * 1000000 := by
      rw [second]
      exact lasts _ (List.getElem_mem inside)
    have later := ticks_mono before.le (small.trans (by decide))
    have bound : ticks (at_.getD (i + 1) 0) < 2 ^ 32 := by
      unfold ticks
      rw [Nat.mod_eq_of_lt (small.trans (by decide))]
      exact Nat.div_lt_of_lt_mul (by omega)
    have one : ((gaps last at_).map fun d => d % 2 ^ 32)[i]? =
        some (gap (at_.getD i 0) (at_.getD (i + 1) 0) % 2 ^ 32) := by
      rw [List.getElem?_map, getElem?_gaps last inside]
      rfl
    rw [List.take_add_one, one, Option.toList_some, List.sum_append, List.sum_singleton, here, merged]
    unfold gap
    split_ifs with moves same same
    · omega
    · rw [Nat.mod_eq_of_lt (by omega)]
      omega
    · rw [Nat.mod_eq_of_lt (by decide)]
      omega
    · omega

end Times

/-! ## The tables -/

section Tables

theorem mem_syncOf {units : List AccessUnitRef} {i : Nat} {unit : AccessUnitRef} (found : units[i]? = some unit) :
    i + 1 ∈ syncOf units ↔ unit.keyframe = true := by
  unfold syncOf
  rw [List.mem_map]
  constructor
  · rintro ⟨⟨other, k⟩, member, rfl⟩
    obtain ⟨listed, key⟩ := List.mem_filter.mp member
    obtain ⟨-, here⟩ := List.mk_mem_zipIdx_iff_le_and_getElem?_sub.mp listed
    rw [Nat.add_sub_cancel, found] at here
    obtain rfl := Option.some.inj here
    exact key
  · intro key
    refine ⟨(unit, i + 1),
      List.mem_filter.mpr ⟨List.mk_mem_zipIdx_iff_le_and_getElem?_sub.mpr ⟨Nat.le_add_left 1 i, ?_⟩, key⟩, rfl⟩
    rw [Nat.add_sub_cancel]
    exact found

theorem le_of_mem_syncOf {units : List AccessUnitRef} {k : Nat} (member : k ∈ syncOf units) :
    k ≤ units.length := by
  obtain ⟨⟨unit, i⟩, listed, rfl⟩ := List.mem_map.mp member
  obtain ⟨positive, here⟩ := List.mk_mem_zipIdx_iff_le_and_getElem?_sub.mp (List.mem_of_mem_filter listed)
  obtain ⟨inside, -⟩ := List.getElem?_eq_some_iff.mp here
  dsimp only
  omega

theorem length_syncOf (units : List AccessUnitRef) : (syncOf units).length ≤ units.length := by
  unfold syncOf
  rw [List.length_map]
  exact (List.length_filter_le _ _).trans List.length_zipIdx.le

theorem length_addRun (runs : List Run) (value : Nat) : (addRun runs value).length ≤ runs.length + 1 := by
  unfold addRun
  split
  · split_ifs
    · rw [List.length_append, List.length_dropLast, List.length_singleton]
      omega
    · rw [List.length_append, List.length_singleton]
  · exact Nat.le_add_left 1 _

theorem length_runs (values : List Nat) (runs : List Run) :
    (values.foldl addRun runs).length ≤ runs.length + values.length := by
  induction values generalizing runs with
  | nil => exact Nat.le_add_right _ _
  | cons value rest ih =>
    have one := length_addRun runs value
    have later := ih (addRun runs value)
    rw [List.foldl_cons, List.length_cons]
    omega

theorem values_addRun {holds : Nat → Prop} {runs : List Run} {value : Nat}
    (old : ∀ r ∈ runs, holds r.value) (new : holds value) :
    ∀ r ∈ addRun runs value, holds r.value := by
  intro r member
  unfold addRun at member
  cases last : runs.getLast? with
  | none =>
    simp only [last, List.mem_singleton] at member
    rwa [member]
  | some final =>
    rw [last] at member
    dsimp only at member
    split_ifs at member with same
    · rcases List.mem_append.mp member with front | back
      · exact old r (List.mem_of_mem_dropLast front)
      · rw [List.mem_singleton.mp back]
        exact old final (List.mem_of_getLast? last)
    · rcases List.mem_append.mp member with front | back
      · exact old r front
      · rwa [List.mem_singleton.mp back]

theorem values_runs (holds : Nat → Prop) {values : List Nat}
    (new : ∀ value ∈ values, holds value) {runs : List Run}
    (old : ∀ r ∈ runs, holds r.value) : ∀ r ∈ values.foldl addRun runs, holds r.value := by
  induction values generalizing runs with
  | nil => exact old
  | cons value rest ih =>
    obtain ⟨here, later⟩ := List.forall_mem_cons.mp new
    exact ih later (values_addRun old here)

theorem count_le_expand {runs : List Run} {r : Run} (member : r ∈ runs) : r.count ≤ (expand runs).length := by
  induction runs with
  | nil => cases member
  | cons first rest ih =>
    have split : (expand (first :: rest)).length = first.count + (expand rest).length := by
      unfold expand
      rw [List.flatMap_cons, List.length_append, List.length_replicate]
    rcases List.mem_cons.mp member with rfl | later
    · omega
    · have bound := ih later
      omega

theorem length_stscOf (c : Nat) (last : Option Nat) (counts : List Nat) :
    (stscOf c last counts).length ≤ counts.length := by
  induction counts generalizing c last with
  | nil => exact le_rfl
  | cons count rest ih =>
    unfold stscOf
    split_ifs
    · exact (ih _ _).trans (Nat.le_succ _)
    · exact Nat.succ_le_succ (ih _ _)

theorem mem_stscOf {c : Nat} {last : Option Nat} {counts : List Nat} {e : Nat × Nat}
    (member : e ∈ stscOf c last counts) :
    e.1 ≤ c + counts.length ∧ e.2 ∈ counts := by
  induction counts generalizing c last with
  | nil => cases member
  | cons count rest ih =>
    unfold stscOf at member
    rw [List.length_cons]
    split_ifs at member
    · obtain ⟨chunk, listed⟩ := ih member
      exact ⟨by omega, List.mem_cons_of_mem _ listed⟩
    · rcases List.mem_cons.mp member with rfl | later
      · exact ⟨by dsimp only; omega, List.mem_cons_self⟩
      · obtain ⟨chunk, listed⟩ := ih later
        exact ⟨by omega, List.mem_cons_of_mem _ listed⟩

end Tables

/-- With no sync table, every sample is marked. -/
theorem all_sync {written : Mp4Write.Track} {base : Nat} (none : written.sync = []) :
    ∀ sample ∈ samplesOf written base, sample.sync = true := by
  intro sample member
  unfold samplesOf at member
  dsimp only at member
  rw [if_pos none] at member
  obtain ⟨other, -, rfl⟩ := List.mem_map.mp member
  rfl

/-! ## The media -/

/-- A unit as it is stored. -/
def storedOf (input : ClipMuxInput) (unit : AccessUnitRef) : List Byte := toAvcc ((input.readUnit unit).getD [])

/-- The samples of both tracks as they are stored. -/
def itemsOf (clip : ClipPlan) (isVideo : Bool) : List (List Byte) :=
  if isVideo then clip.input.units.map (storedOf clip.input) else clip.sound.packets

def trackOf (clip : ClipPlan) (isVideo : Bool) : Mp4Write.Track :=
  if isVideo then clip.videoTrack else clip.audioTrack

/-- All that stands before the media. -/
def head (clip : ClipPlan) : List Byte :=
  buildFtyp ++ (buildMoov clip.movie clip.videoTrack clip.sounding clip.base ++
    (u32 (8 + clip.layout.payload) ++ u32 (fourcc 'm' 'd' 'a' 't')))

section Media

variable {clip : ClipPlan}

theorem map_of_forall₂ {α β γ : Type*} {f : α → γ} {g : β → γ} {xs : List α} {ys : List β}
    (each : List.Forall₂ (fun x y => f x = g y) xs ys) : xs.map f = ys.map g := by
  induction each with
  | nil => rfl
  | cons here _ ih => rw [List.map_cons, List.map_cons, here, ih]

theorem exists_left {α β : Type*} {related : α → β → Prop} {xs : List α} {ys : List β}
    (each : List.Forall₂ related xs ys) :
    ∀ y ∈ ys, ∃ x ∈ xs, related x y := by
  induction each with
  | nil => exact fun _ member => (List.not_mem_nil member).elim
  | cons here _ ih =>
    intro y member
    rcases List.mem_cons.mp member with rfl | later
    · exact ⟨_, List.mem_cons_self, here⟩
    · obtain ⟨x, listed, holds⟩ := ih y later
      exact ⟨x, List.mem_cons_of_mem _ listed, holds⟩

theorem writes_clip (sized : clip.input.units.length = clip.video.sizes.length) :
    Writes clip.line (itemsOf clip) (chunkBytes clip.input clip.video.sizes clip.sound.packets) := by
  intro c bytes written
  unfold chunkBytes at written
  split_ifs at written with isVideo
  · obtain ⟨stored, ran, rfl⟩ := Option.map_eq_some_iff.mp written
    have each := forall₂_of_mapM ran
    have units : ((clip.input.units.zip clip.video.sizes).drop c.first |>.take c.count).map Prod.fst =
        (clip.input.units.drop c.first).take c.count := by
      rw [List.map_take, List.map_drop, List.map_fst_zip sized.le]
    have sizes : ((clip.input.units.zip clip.video.sizes).drop c.first |>.take c.count).map Prod.snd =
        (clip.video.sizes.drop c.first).take c.count := by
      rw [List.map_take, List.map_drop, List.map_snd_zip sized.ge]
    have pair : ∀ (row : AccessUnitRef × Nat) (item : List Byte),
        (do let bytes ← clip.input.readUnit row.1; if (toAvcc bytes).length = row.2 then some (toAvcc bytes) else none) = some item →
          storedOf clip.input row.1 = item ∧ item.length = row.2 := by
      intro row item made
      obtain ⟨bytes, read, made⟩ := Option.bind_eq_some_iff.mp made
      split_ifs at made with same
      obtain rfl := Option.some.inj made
      refine ⟨?_, same⟩
      unfold storedOf
      rw [read, Option.getD_some]
    have items := map_of_forall₂ (g := id) (each.imp fun row item made => (pair row item made).1)
    have lengths := map_of_forall₂ (f := Prod.snd) (g := List.length)
      (each.imp fun row item made => (pair row item made).2.symm)
    rw [List.map_id] at items
    have same : ((itemsOf clip c.isVideo).drop c.first).take c.count = stored := by
      unfold itemsOf
      rw [if_pos isVideo, ← items, ← List.map_drop, ← List.map_take, ← units, List.map_map]
      rfl
    rw [same, ← lengths, sizes]
    refine ⟨rfl, ?_⟩
    unfold sizesOf
    rw [if_pos isVideo]
    rfl
  · obtain rfl := Option.some.inj written
    unfold itemsOf sizesOf
    rw [if_neg isVideo, if_neg isVideo]
    refine ⟨rfl, ?_⟩
    rw [List.map_take, List.map_drop]
    rfl

theorem timed_clip (planned : Planned clip.input clip.video) : Timed clip.line := by
  obtain ⟨front, rest, -, -, times⟩ := planned.front
  have ordered := (ordered_atUs front.captureUs none clip.input.units).2
  rw [← times] at ordered
  refine ⟨?_, ?_, ordered.imp fun less => less.le, ?_⟩
  · change clip.video.at_.length = clip.video.sizes.length
    rw [times, length_atUs]
    exact planned.sizes.length_eq
  · change ((List.range clip.sound.packets.length).map _).length = (clip.sound.packets.map List.length).length
    rw [List.length_map, List.length_map, List.length_range]
  · exact List.pairwise_map.mpr (List.pairwise_lt_range.imp fun less => heardUs_mono _ less.le)

/-- The size of the moov box does not depend on the offsets in it. -/
theorem length_moovBody_base (m : MovieInfo) (video : Mp4Write.Track) (audio : Option Mp4Write.Track)
    (base other : Nat) :
    (moovBody m video audio base).length = (moovBody m video audio other).length := by
  have tables : ∀ written : Mp4Write.Track,
      (writeStblTables written base).length = (writeStblTables written other).length := by
    intro written
    rw [length_writeStblTables, length_writeStblTables]
  rw [length_moovBody, length_moovBody, length_videoBody, length_videoBody, tables]
  cases audio with
  | none => rw [Option.elim_none, Option.elim_none]
  | some track => rw [Option.elim_some, Option.elim_some, length_audioBody, length_audioBody, tables]

theorem length_head : (head clip).length = clip.base := by
  have same := length_moovBody_base clip.movie clip.videoTrack clip.sounding clip.base 0
  unfold head
  rw [List.length_append, List.length_append, List.length_append, length_u32, length_u32]
  unfold buildMoov
  rw [length_box, same]
  unfold ClipPlan.base buildMoov
  rw [length_box]
  omega

end Media

/-! ## Both tracks in the file -/

/-- A clip that was written, with the bytes of its chunks. -/
structure Written (clip : ClipPlan) (file : List Byte) (media : List (List Byte)) : Prop where
  planned : Planned clip.input clip.video
  small : clip.base + clip.layout.payload ≤ 0xFFFFFFFF
  stored : clip.layout.chunks.mapM (chunkBytes clip.input clip.video.sizes clip.sound.packets) = some media
  file : file = head clip ++ media.flatten

theorem written_of {encodeOpus : List Int → Nat → Option OpusPackets} {input : ClipMuxInput} {clip : ClipPlan}
    {file : List Byte} {result : ClipMuxResult} (planned : planClip encodeOpus input = some clip)
    (written : writeClipMp4 encodeOpus input = some (file, result)) : ∃ media, Written clip file media := by
  unfold writeClipMp4 at written
  rw [planned] at written
  unfold planClip at planned
  obtain ⟨video, plan, planned⟩ := Option.bind_eq_some_iff.mp planned
  have same : clip.input = input ∧ clip.video = video := by
    dsimp only at planned
    split_ifs at planned
    · obtain ⟨sound, -, made⟩ := Option.bind_eq_some_iff.mp planned
      obtain rfl := Option.some.inj made
      exact ⟨rfl, rfl⟩
    · obtain rfl := Option.some.inj planned
      exact ⟨rfl, rfl⟩
  obtain ⟨rfl, rfl⟩ := same
  rw [Option.bind_eq_bind, Option.bind_some] at written
  split_ifs at written with large
  obtain ⟨media, stored, written⟩ := Option.bind_eq_some_iff.mp written
  obtain ⟨rfl, -⟩ := Prod.mk.inj (Option.some.inj written)
  refine ⟨media, planned_of plan, not_lt.mp large, stored, ?_⟩
  unfold head
  simp only [List.append_assoc]

section Tracks

variable {clip : ClipPlan} {file : List Byte} {media : List (List Byte)}

theorem sizes_trackOf (isVideo : Bool) : (trackOf clip isVideo).sizes = sizesOf clip.line isVideo := by
  cases isVideo <;> rfl

theorem expand_durations (isVideo : Bool) :
    expand (trackOf clip isVideo).durations =
      if isVideo then clip.video.gaps.map fun d => d % 2 ^ 32
      else List.replicate clip.sound.packets.length kOpusFrame := by
  cases isVideo with
  | true => exact expand_foldl _ []
  | false => exact List.flatMap_singleton _ _

namespace Written

variable (written : Written clip file media)
include written

theorem laid : Laid clip.line (itemsOf clip)
      (chunkBytes clip.input clip.video.sizes clip.sound.packets) clip.layout ∧
    ∀ isVideo, (placedOf clip.layout isVideo).taken = (sizesOf clip.line isVideo).length :=
  laid_windows (writes_clip written.planned.sizes.length_eq) (timed_clip written.planned)

theorem length_file : file.length = clip.base + clip.layout.payload := by
  rw [written.file, List.length_append, length_head, (written.laid.1.held media written.stored).1]

theorem chunked (isVideo : Bool) :
    Chunked (sizesOf clip.line isVideo) clip.layout.payload (placedOf clip.layout isVideo) ∧
      (trackOf clip isVideo).chunkAt = (placedOf clip.layout isVideo).chunkAt ∧
      (trackOf clip isVideo).chunkSamples = (placedOf clip.layout isVideo).chunkSamples := by
  refine ⟨written.laid.1.chunked isVideo, ?_⟩
  cases isVideo <;> exact ⟨rfl, rfl⟩

/-- Each sample is in the file where the table of its track says. -/
theorem held (isVideo : Bool) :
    List.Forall₂ (Holds file) (extentsOf (trackOf clip isVideo) clip.base) (itemsOf clip isVideo) := by
  obtain ⟨chunked, offsets, counts⟩ := written.chunked isVideo
  have taken := written.laid.2 isVideo
  have held := (written.laid.1.held media written.stored).2 isVideo
  have all : (itemsOf clip isVideo).length ≤ (placedOf clip.layout isVideo).taken := by
    rw [taken]
    cases isVideo with
    | true => exact (List.length_map _).trans_le written.planned.sizes.length_eq.le
    | false => exact (List.length_map _).ge
  rw [List.take_of_length_le all] at held
  unfold extentsOf
  rw [locate_spotsAt (by rw [counts]; exact chunked.positive)
      (by rw [counts, offsets, List.length_map]; exact chunked.same)
    (by rw [counts, chunked.sum, taken, sizes_trackOf]), chunkExtents_shift, offsets, counts, sizes_trackOf,
    List.forall₂_map_left_iff, written.file]
  refine held.imp fun extent item holds => ?_
  rw [← length_head]
  exact holds.behind (head clip)

theorem few (fits : Fits clip) (isVideo : Bool) : (trackOf clip isVideo).sizes.length ≤ 1000000 := by
  have samples := fits.samples
  have units := written.planned.sizes.length_eq
  cases isVideo with
  | true =>
    change clip.video.sizes.length ≤ 1000000
    omega
  | false =>
    change (clip.sound.packets.map List.length).length ≤ 1000000
    rw [List.length_map]
    omega

theorem length_at_ : clip.video.at_.length = clip.video.sizes.length := (timed_clip written.planned).video

theorem timed (isVideo : Bool) :
    (expand (trackOf clip isVideo).durations).length = (trackOf clip isVideo).sizes.length := by
  rw [expand_durations]
  cases isVideo with
  | true =>
    obtain ⟨last, gaps⟩ := written.planned.gaps
    rw [if_pos rfl, List.length_map, gaps, length_gaps]
    exact written.length_at_
  | false =>
    rw [if_neg Bool.false_ne_true, List.length_replicate]
    exact (List.length_map _).symm

theorem filled (fits : Fits clip) (isVideo : Bool) : Filled (trackOf clip isVideo) clip.base file.length := by
  obtain ⟨chunked, offsets, counts⟩ := written.chunked isVideo
  refine ⟨?_, ?_, ?_, (written.few fits isVideo).trans (by decide), written.timed isVideo, ?_⟩
  · rw [counts]
    exact chunked.positive
  · rw [counts, offsets]
    exact chunked.same
  · rw [counts, chunked.sum, written.laid.2, sizes_trackOf]
  · exact ((List.forall₂_and_left _ _).mp
      ((written.held isVideo).imp fun extent item holds => ⟨holds.inside, holds⟩)).1

theorem positive (isVideo : Bool) :
    (trackOf clip isVideo).chunkSamples.length ≤ (trackOf clip isVideo).sizes.length ∧
    ∀ count ∈ (trackOf clip isVideo).chunkSamples, count ≤ (trackOf clip isVideo).sizes.length := by
  obtain ⟨chunked, -, counts⟩ := written.chunked isVideo
  have sum : (trackOf clip isVideo).chunkSamples.sum = (trackOf clip isVideo).sizes.length := by
    rw [counts, chunked.sum, written.laid.2, sizes_trackOf]
  rw [← sum, counts]
  refine ⟨List.length_le_sum_of_one_le _ fun count member =>
    Nat.one_le_iff_ne_zero.mpr (chunked.positive count member), ?_⟩
  exact fun count member => List.single_le_sum (fun _ _ => Nat.zero_le _) count member

/-- The tables of a track take at most 32 bytes for each sample. -/
theorem length_tables (isVideo : Bool) (base : Nat) :
    (writeStblTables (trackOf clip isVideo) base).length ≤ 92 + 32 * (trackOf clip isVideo).sizes.length := by
  obtain ⟨chunked, offsets, counts⟩ := written.chunked isVideo
  have chunks := (written.positive isVideo).1
  have entries := length_stscOf 0 none (trackOf clip isVideo).chunkSamples
  have same : (trackOf clip isVideo).chunkAt.length = (trackOf clip isVideo).chunkSamples.length := by
    rw [offsets, counts, chunked.same]
  have runs : (trackOf clip isVideo).durations.length ≤ 1 + (trackOf clip isVideo).sizes.length := by
    cases isVideo with
    | true =>
      obtain ⟨last, gaps⟩ := written.planned.gaps
      have length : clip.video.gaps.length = clip.video.sizes.length := by
        rw [gaps, length_gaps, written.length_at_]
      have runs := length_runs (clip.video.gaps.map fun d => d % 2 ^ 32) []
      rw [List.length_nil, List.length_map, length, Nat.zero_add] at runs
      exact runs.trans (Nat.le_add_left _ 1)
    | false => exact Nat.le_add_right 1 _
  have sync : (trackOf clip isVideo).sync.length ≤ (trackOf clip isVideo).sizes.length := by
    cases isVideo with
    | true => exact (length_syncOf _).trans written.planned.sizes.length_eq.le
    | false => exact Nat.zero_le _
  rw [length_writeStblTables]
  split_ifs <;> omega

theorem narrow (fits : Fits clip) (isVideo : Bool) : Narrow (trackOf clip isVideo) clip.base := by
  obtain ⟨chunked, offsets, counts⟩ := written.chunked isVideo
  have few := written.few fits isVideo
  have small := written.small
  have tables := written.length_tables isVideo clip.base
  obtain ⟨chunks, largest⟩ := written.positive isVideo
  refine ⟨fun r member => ⟨?_, ?_⟩, fun index member => ?_, fun e member => ?_, fun size member => ?_, fun offset member => ?_,
    few.trans (by decide), by omega⟩
  · have bound := count_le_expand member
    rw [written.timed] at bound
    omega
  · cases isVideo with
    | true =>
      refine values_runs (· < 2 ^ 32) (fun value listed => ?_) (fun _ none => (List.not_mem_nil none).elim) r member
      obtain ⟨d, -, rfl⟩ := List.mem_map.mp listed
      exact Nat.mod_lt d (Nat.two_pow_pos 32)
    | false =>
      rw [List.mem_singleton.mp member]
      exact show kOpusFrame < 2 ^ 32 by decide
  · cases isVideo with
    | true =>
      have bound := le_of_mem_syncOf member
      have samples := fits.samples
      omega
    | false => cases member
  · obtain ⟨chunk, listed⟩ := mem_stscOf member
    have bound := largest e.2 listed
    omega
  · cases isVideo with
    | true =>
      obtain ⟨unit, -, bytes, -, same⟩ := exists_left written.planned.sizes size member
      rw [same]
      exact Nat.mod_lt _ (Nat.two_pow_pos 32)
    | false =>
      obtain ⟨packet, listed, rfl⟩ := List.mem_map.mp member
      have bound := clip.sound.small packet listed
      omega
  · rw [offsets] at member
    have bound := chunked.offsets offset member
    omega

/-! ## Opening the file -/

/-- The moov box is small enough to be read. -/
theorem length_moov (fits : Fits clip) :
    (moovBody clip.movie clip.videoTrack clip.sounding clip.base).length ≤ kMaxMoov := by
  have video : (writeStblTables clip.videoTrack clip.base).length ≤ 92 + 32 * clip.video.sizes.length :=
    written.length_tables true clip.base
  have audio : (writeStblTables clip.audioTrack clip.base).length ≤
      92 + 32 * (clip.sound.packets.map List.length).length :=
    written.length_tables false clip.base
  have entry : (stsd (avc1 clip.movie)).length ≤ 141 + clip.video.sps.length + clip.video.pps.length := length_avc1
  have opus : (stsd (opus clip.movie)).length = 91 := length_opus
  have roll := length_roll clip.movie.audioPackets
  have samples := fits.samples
  have units := written.planned.sizes.length_eq
  have sps := fits.sps
  have pps := fits.pps
  rw [List.length_map] at audio
  rw [length_moovBody, length_videoBody]
  unfold kMaxMoov ClipPlan.sounding
  split_ifs
  · rw [Option.elim_some, length_audioBody]
    omega
  · rw [Option.elim_none]
    omega

theorem openMp4_file (fits : Fits clip) : openMp4 (fileReader file) file.length =
    .ok (movieRead clip.movie clip.videoTrack clip.sounding clip.base file.length) := by
  have moov := written.length_moov fits
  have limit : kMaxMoov < 2 ^ 26 := by decide
  have small : file.length < 2 ^ 64 := by
    have all := written.length_file
    have bound := written.small
    omega
  have video : (videoBody clip.movie clip.videoTrack clip.base).length < 2 ^ 32 →
      parseTrak (videoBody clip.movie clip.videoTrack clip.base) file.length =
        .ok (videoRead clip.movie clip.videoTrack clip.base) :=
    parseTrak_video (written.narrow fits true) (written.filled fits true) written.planned.width
    written.planned.height written.planned.sps fits.sps written.planned.pps fits.pps
  have audio : (audioBody clip.movie clip.audioTrack clip.base).length < 2 ^ 32 →
      parseTrak (audioBody clip.movie clip.audioTrack clip.base) file.length =
        .ok (audioRead clip.movie clip.audioTrack clip.base) :=
    parseTrak_audio (written.narrow fits false) (written.filled fits false) clip.sound.narrow
  have read : parseMoov (moovBody clip.movie clip.videoTrack clip.sounding clip.base) file.length =
      .ok (movieRead clip.movie clip.videoTrack clip.sounding clip.base file.length) := by
    rw [length_moovBody] at moov
    apply parseMoov_moovBody
    · rw [length_moovBody]
      omega
    · exact video (by omega)
    · intro track sounds
      rw [sounds, Option.elim_some] at moov
      unfold ClipPlan.sounding at sounds
      split_ifs at sounds
      obtain rfl := Option.some.inj sounds
      exact audio (by omega)
  have shape : file = buildFtyp ++ (box (fourcc 'm' 'o' 'o' 'v') (moovBody clip.movie clip.videoTrack clip.sounding clip.base) ++
      (u32 (8 + clip.layout.payload) ++ u32 (fourcc 'm' 'd' 'a' 't') ++ media.flatten)) := by
    rw [written.file]
    unfold head buildMoov
    simp only [List.append_assoc]
  have found : findMoov (fileReader file) file.length 0 =
      .ok (moovBody clip.movie clip.videoTrack clip.sounding clip.base) := by
    rw [shape] at small ⊢
    exact (findMoov_ftyp small).trans (findMoov_moov moov small)
  unfold openMp4
  rw [found]
  exact read

/-! ## What is read back -/

/-- The demux reads each sample as it was stored. -/
theorem samples_held (isVideo : Bool) :
    List.Forall₂ (fun item sample => readSample (fileReader file) sample = some item ∧ item.length ≤ file.length)
      (itemsOf clip isVideo) (samplesOf (trackOf clip isVideo) clip.base) := by
  have held := written.held isVideo
  rw [← extents_samplesOf, Mp4Samples.extents, List.forall₂_map_left_iff] at held
  apply List.Forall₂.flip
  refine held.imp fun sample item holds => ⟨?_, ?_⟩
  · unfold readSample
    split_ifs with none
    · have length := holds.length
      dsimp only at length
      rw [none] at length
      rw [List.length_eq_zero_iff.mp length]
    · exact holds
  · have inside := holds.inside
    have length := holds.length
    dsimp only at inside length
    omega

theorem kept (fits : Fits clip) : VideoKept clip file (videoRead clip.movie clip.videoTrack clip.base) where
  size := ⟨rfl, rfl⟩
  sets := ⟨rfl, rfl⟩
  clock := ⟨rfl, rfl⟩
  units := by
    have held := List.forall₂_iff_get.mp (written.samples_held true)
    have read := List.forall₂_iff_get.mp written.planned.sizes
    obtain ⟨front, rest, units, key, -⟩ := written.planned.front
    have marked : syncOf clip.input.units ≠ [] := by
      have first : 1 ∈ syncOf clip.input.units := (mem_syncOf (i := 0) (by rw [units]; rfl)).mpr key
      exact List.ne_nil_of_mem first
    have length : clip.input.units.length = (samplesOf clip.videoTrack clip.base).length := by
      rw [← List.length_map (storedOf clip.input)]
      exact held.1
    refine List.forall₂_iff_get.mpr ⟨length, fun i inside within => ?_⟩
    have unit := List.getElem?_eq_getElem inside
    obtain ⟨bytes, found, -⟩ := read.2 i inside (read.1 ▸ inside)
    obtain ⟨stored, short⟩ := held.2 i (by rwa [held.1]) within
    have item : (itemsOf clip true).get ⟨i, by rwa [held.1]⟩ = withLengths (nalsOf bytes) := by
      have here : (itemsOf clip true).get ⟨i, by rwa [held.1]⟩ = storedOf clip.input clip.input.units[i] :=
        List.getElem_map _
      rw [List.get_eq_getElem] at found
      rw [here, storedOf, found]
      rfl
    rw [item] at stored short
    have sync : ((samplesOf clip.videoTrack clip.base).get ⟨i, within⟩).sync = decide (i + 1 ∈ syncOf clip.input.units) :=
      sync_samplesOf marked (List.getElem?_eq_getElem within)
    refine ⟨?_, bytes, withLengths (nalsOf bytes), found, stored, ?_⟩
    · change ((samplesOf clip.videoTrack clip.base).get ⟨i, within⟩).sync = _
      rw [sync]
      simp only [mem_syncOf unit, Bool.decide_eq_true]
      rfl
    · change avccToAnnexB _ 4 = _
      unfold avccToAnnexB
      rw [if_neg (by decide)]
      have all := written.length_file
      have small := written.small
      refine annexBFrom_withLengths (fun nal member => (isNal_of_mem_nalsOf member).1) fun nal member => ?_
      rw [length_withLengths] at short
      have bound := List.single_le_sum (fun _ _ => Nat.zero_le _) _
        (List.mem_map_of_mem (f := fun nal => 4 + nal.length) member)
      omega
  times := by
    obtain ⟨last, gaps⟩ := written.planned.gaps
    obtain ⟨front, rest, units, -, times⟩ := written.planned.front
    have ordered := (ordered_atUs front.captureUs none clip.input.units).2
    rw [← times] at ordered
    have start : ticks (clip.video.at_.getD 0 0) = 0 := by
      rw [times, units, atUs]
      simp only [Nat.sub_self, List.getD_cons_zero]
      decide
    have begun : (samplesOf (trackOf clip true) clip.base).map Mp4Sample.time = _ :=
      times_samplesOf (written.filled fits true)
    rw [expand_durations, if_pos rfl] at begun
    change (samplesOf (trackOf clip true) clip.base).map Mp4Sample.time = _
    rw [begun]
    apply List.ext_getElem?
    intro i
    rw [getElem?_begins, Int.zero_add, gaps]
    simp only [List.getElem?_map]
    rcases Nat.lt_or_ge i clip.video.at_.length with inside | behind
    · rw [sum_gaps ordered fits.lasts start last inside, List.getElem?_range inside,
        List.getElem?_eq_getElem (by rwa [length_gaps]), Option.map_some, Option.map_some, Option.map_some]
    · rw [List.getElem?_eq_none (by rwa [length_gaps]), List.getElem?_eq_none (by rwa [List.length_range])]
      rfl

theorem sound_kept (fits : Fits clip) : AudioKept clip file (audioRead clip.movie clip.audioTrack clip.base) where
  coding := ⟨rfl, rfl, rfl, rfl⟩
  clock := ⟨rfl, rfl⟩
  packets := by
    have held := List.forall₂_iff_get.mp (written.samples_held false)
    refine List.forall₂_iff_get.mpr ⟨held.1, fun i inside within => ⟨(held.2 i inside within).1, ?_⟩⟩
    exact all_sync (show clip.audioTrack.sync = [] from rfl) _ (List.get_mem _ _)
  times := by
    have begun : (samplesOf (trackOf clip false) clip.base).map Mp4Sample.time = _ :=
      times_samplesOf (written.filled fits false)
    rw [expand_durations, if_neg Bool.false_ne_true] at begun
    change (samplesOf (trackOf clip false) clip.base).map Mp4Sample.time = _
    rw [begun]
    apply List.ext_getElem?
    intro i
    rw [getElem?_begins, Int.zero_add, List.getElem?_map]
    rcases Nat.lt_or_ge i clip.sound.packets.length with inside | behind
    · rw [List.getElem?_replicate_of_lt inside, List.getElem?_range inside, List.take_replicate, List.sum_replicate,
        Nat.min_eq_left inside.le, smul_eq_mul, Option.map_some, Option.map_some]
    · rw [List.getElem?_eq_none (by rwa [List.length_replicate]), List.getElem?_eq_none (by rwa [List.length_range])]
      rfl

end Written

end Tracks

/-- A clip that is written is opened again, with the recorded video and the recorded sound. -/
theorem clip_round_trip {encodeOpus : List Int → Nat → Option OpusPackets} {input : ClipMuxInput} {clip : ClipPlan}
    {file : List Byte} {result : ClipMuxResult} (planned : planClip encodeOpus input = some clip) (fits : Fits clip)
    (ran : writeClipMp4 encodeOpus input = some (file, result)) :
    ∃ movie, openMp4 (fileReader file) file.length = .ok movie ∧
      (∃ video, movie.video = some video ∧ VideoKept clip file video) ∧
      (clip.input.audio = [] → movie.audio = none) ∧
      (clip.input.audio ≠ [] → ∃ audio, movie.audio = some audio ∧ AudioKept clip file audio) := by
  obtain ⟨media, written⟩ := written_of planned ran
  refine ⟨_, written.openMp4_file fits, ⟨_, rfl, written.kept fits⟩, ?_, ?_⟩
  · intro silent
    unfold ClipPlan.sounding
    rw [if_neg (not_not.mpr silent)]
    rfl
  · intro sounds
    refine ⟨_, ?_, written.sound_kept fits⟩
    unfold ClipPlan.sounding
    rw [if_pos sounds]
    rfl

/-- A keyframe and a unit behind it, with two packets of sound. -/
def tinyInput : ClipMuxInput where
  units := [⟨0, 0, 20, 1000, true, 0⟩, ⟨0, 20, 5, 17667, false, 1⟩]
  readUnit := fun unit =>
    if unit.keyframe then some [0, 0, 0, 1, 0x67, 1, 2, 3, 0, 0, 1, 0x68, 4, 0, 0, 1, 0x65, 5, 0, 0] else some [0, 0, 1, 0x41, 6]
  width := 4
  height := 2
  audio := [0, 0]

def tinyOpus (_ : List Int) (_ : Nat) : Option OpusPackets := some ⟨[[7], [8, 9]], 312, by decide, by decide⟩

theorem tiny_planned : (planClip tinyOpus tinyInput).isSome = true := by decide +kernel

theorem tiny_written : (writeClipMp4 tinyOpus tinyInput).isSome = true := by decide +kernel

def tinyClip : ClipPlan := (planClip tinyOpus tinyInput).get tiny_planned

def tinyFile : List Byte := ((writeClipMp4 tinyOpus tinyInput).get tiny_written).1

theorem tiny_fits : Fits tinyClip where
  sps := by decide +kernel
  pps := by decide +kernel
  samples := by decide +kernel
  lasts := by decide +kernel

theorem clip_round_trip_tiny :
    ∃ movie, openMp4 (fileReader tinyFile) tinyFile.length = .ok movie ∧
      (∃ video, movie.video = some video ∧ VideoKept tinyClip tinyFile video) ∧
      (tinyClip.input.audio = [] → movie.audio = none) ∧
      (tinyClip.input.audio ≠ [] → ∃ audio, movie.audio = some audio ∧ AudioKept tinyClip tinyFile audio) :=
  clip_round_trip (Option.some_get tiny_planned).symm tiny_fits (Option.some_get tiny_written).symm

end Mello.Replay.ClipRoundTrip
