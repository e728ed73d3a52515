import Mello.Replay.Mp4Parse
import Mello.Replay.Mp4Samples

/-!
The tables of a written track, expanded by the demux: the chunk map to a place for
each sample, the runs of durations to a time for each, the sync table to a mark for each.
-/

namespace Mello.Replay.Mp4Tables
open Mello.Library Mp4Demux Mp4Samples Mp4Write Mp4Parse

/-! ## The chunk map -/

/-- The places of the samples of the chunks at these offsets. -/
def spotsAt : List Nat → List Nat → List (Option Nat)
  | offset :: offsets, samples :: rest => (some offset :: List.replicate (samples - 1) none) ++ spotsAt offsets rest
  | _, _ => []

def entryOf (e : Nat × Nat) : StscEntry := ⟨e.1, e.2⟩

theorem chunkSpots_concat (tab : Tables) (samples chunk n : Nat) :
    chunkSpots tab samples chunk (n + 1) =
      chunkSpots tab samples chunk n ++ some (tab.chunks.getD (chunk + n - 1) 0) :: List.replicate (samples - 1) none := by
  unfold chunkSpots
  rw [List.range'_concat, List.flatMap_append, List.flatMap_singleton, Nat.one_mul]

section ChunkMap

variable {tab : Tables}

theorem spotsAt_drop {c m : Nat} {ns : List Nat} (inside : c < tab.chunks.length) :
    spotsAt (tab.chunks.drop c) (m :: ns) =
      (some (tab.chunks.getD c 0) :: List.replicate (m - 1) none) ++ spotsAt (tab.chunks.drop (c + 1)) ns := by
  rw [List.drop_eq_getElem_cons inside, spotsAt, List.getD_eq_getElem _ _ inside]

/-- An entry whose chunks begin behind `first` and go on at `c`, and the entries of
the chunks from `c` on. -/
theorem spots_stscOf {ns : List Nat} {first n c : Nat} (narrow : tab.chunks.length + 1 < 2 ^ 32)
    (positive : ∀ m ∈ ns, m ≠ 0) (some : n ≠ 0) (ordered : first < c) (all : c + ns.length = tab.chunks.length) :
    spots tab (⟨first + 1, n⟩ :: (stscOf c (.some n) ns).map entryOf) =
      chunkSpots tab n (first + 1) (c - first) ++ spotsAt (tab.chunks.drop c) ns := by
  induction ns generalizing first n c with
  | nil =>
    have last : lastOf tab [] = c + 1 := by
      unfold lastOf
      rw [Nat.mod_eq_of_lt narrow, ← all]
      rfl
    have good : ¬badEntry tab ⟨first + 1, n⟩ (lastOf tab []) := by
      rw [List.length_nil, Nat.add_zero] at all
      rw [last]
      unfold badEntry
      dsimp only
      omega
    change spots tab [⟨first + 1, n⟩] = _
    unfold spots
    rw [if_neg good, last]
    change chunkSpots tab n (first + 1) (c + 1 - (first + 1)) ++ [] = _
    rw [Nat.add_sub_add_right]
    cases tab.chunks.drop c <;> rfl
  | cons m ns ih =>
    have inside : c < tab.chunks.length := by
      rw [← all, List.length_cons]
      omega
    have later : c + 1 + ns.length = tab.chunks.length := by
      rw [← all, List.length_cons]
      omega
    have behind : ∀ k ∈ ns, k ≠ 0 := fun k member => positive k (List.mem_cons_of_mem m member)
    rw [spotsAt_drop inside]
    unfold stscOf
    by_cases same : n = m
    · rw [if_pos (congrArg Option.some same), ih behind some (by omega) later, show c + 1 - first = c - first + 1 by omega,
        chunkSpots_concat, show first + 1 + (c - first) - 1 = c by omega, List.append_assoc, same]
    · have good : ¬badEntry tab ⟨first + 1, n⟩ (c + 1) := by
        unfold badEntry
        dsimp only
        omega
      have next := ih behind (positive m List.mem_cons_self) (Nat.lt_succ_self c) later
      rw [Nat.succ_sub (Nat.le_refl c), Nat.sub_self, chunkSpots_succ] at next
      rw [if_neg (fun eq => same (Option.some.inj eq)), List.map_cons, spots]
      change (if badEntry tab ⟨first + 1, n⟩ (c + 1) then [] else
        chunkSpots tab n (first + 1) (c + 1 - (first + 1)) ++ spots tab (⟨c + 1, m⟩ :: (stscOf (c + 1) (.some m) ns).map entryOf)) = _
      rw [if_neg good, next, Nat.add_sub_add_right, Nat.add_sub_cancel]
      change _ ++ ((_ ++ []) ++ _) = _
      rw [List.append_nil]

/-- The map of a written track is its chunks in order. -/
theorem spots_written {ns : List Nat} (narrow : tab.chunks.length + 1 < 2 ^ 32) (positive : ∀ m ∈ ns, m ≠ 0)
    (all : ns.length = tab.chunks.length) :
    spots tab ((stscOf 0 none ns).map entryOf) = spotsAt tab.chunks ns := by
  cases ns with
  | nil => cases tab.chunks <;> rfl
  | cons m ns =>
    have inside : 0 < tab.chunks.length := by
      rw [← all, List.length_cons]
      omega
    have behind : ∀ k ∈ ns, k ≠ 0 := fun k member => positive k (List.mem_cons_of_mem m member)
    have later : 1 + ns.length = tab.chunks.length := by
      rw [← all, List.length_cons]
      omega
    have drop : spotsAt (tab.chunks.drop 0) (m :: ns) = _ := spotsAt_drop inside
    rw [List.drop_zero] at drop
    rw [drop]
    unfold stscOf
    rw [if_neg nofun, List.map_cons]
    change spots tab (⟨0 + 1, m⟩ :: _) = _
    rw [spots_stscOf narrow behind (positive m List.mem_cons_self) Nat.one_pos later, chunkSpots_succ]
    change (_ ++ []) ++ _ = _
    rw [List.append_nil]

theorem length_spotsAt {offsets ns : List Nat} (positive : ∀ m ∈ ns, m ≠ 0) (all : ns.length = offsets.length) :
    (spotsAt offsets ns).length = ns.sum := by
  induction ns generalizing offsets with
  | nil => cases offsets <;> rfl
  | cons m ns ih =>
    cases offsets with
    | nil => cases all
    | cons offset offsets =>
      have some := positive m List.mem_cons_self
      have later := ih (fun k member => positive k (List.mem_cons_of_mem m member)) (Nat.succ.inj all)
      rw [spotsAt, List.length_append, List.length_cons, List.length_replicate, later, List.sum_cons]
      omega

end ChunkMap

/-! ## The extents -/

/-- The offset and the size of each sample, from its place and its size. -/
def locate : List (Option Nat) → List Nat → Nat → List (Nat × Nat)
  | spot :: spots, size :: sizes, offset => (spot.getD offset, size) :: locate spots sizes (spot.getD offset + size)
  | _, _, _ => []

def bare (extent : Nat × Nat) : Mp4Sample := { offset := extent.1, size := extent.2 }

section Extents

variable {tab : Tables} {fileSize : Nat}

/-- A walk with a size for each place gives the samples at the places. -/
theorem place_locate (fixed : tab.stszFixed = 0) (counted : tab.stszCount = tab.stsz.length) {places : List (Option Nat)}
    {offset : Nat} {placed : List Mp4Sample} (all : placed.length + places.length = tab.stsz.length)
    (inside : ∀ extent ∈ locate places (tab.stsz.drop placed.length) offset, extent.1 + extent.2 ≤ fileSize) :
    place tab fileSize places offset placed =
      .ok (placed ++ (locate places (tab.stsz.drop placed.length) offset).map bare) := by
  induction places generalizing offset placed with
  | nil =>
    cases tab.stsz.drop placed.length <;> exact congrArg Outcome.ok (List.append_nil placed).symm
  | cons spot rest ih =>
    rw [List.length_cons] at all
    have here : placed.length < tab.stsz.length := by omega
    have size : sampleSize tab placed.length = .ok tab.stsz[placed.length] := by
      unfold sampleSize Outcome.at_
      rw [if_neg (not_not.mpr fixed), List.getElem?_eq_getElem here]
    rw [List.drop_eq_getElem_cons here, locate] at inside ⊢
    have fits := inside _ List.mem_cons_self
    have one : (placed ++ [bare (spot.getD offset, tab.stsz[placed.length])]).length = placed.length + 1 :=
      List.length_append
    have next : place tab fileSize rest (spot.getD offset + tab.stsz[placed.length])
        (placed ++ [bare (spot.getD offset, tab.stsz[placed.length])]) = _ := ih
      (by omega) (by rw [one]; exact fun extent member => inside extent (List.mem_cons_of_mem _ member))
    rw [one] at next
    unfold place
    rw [if_pos (counted ▸ here), size, Outcome.ok_bind, if_pos fits, List.map_cons]
    change place tab fileSize rest _ (placed ++ [bare (spot.getD offset, tab.stsz[placed.length])]) = _
    rw [next, List.append_assoc]
    rfl

end Extents

theorem length_locate {places : List (Option Nat)} {sizes : List Nat} (all : places.length = sizes.length) (offset : Nat) :
    (locate places sizes offset).length = sizes.length := by
  induction places generalizing sizes offset with
  | nil =>
    rw [← all]
    cases sizes <;> rfl
  | cons spot rest ih =>
    cases sizes with
    | nil => cases all
    | cons size sizes => rw [locate, List.length_cons, ih (Nat.succ.inj all), List.length_cons]

/-! ## The times -/

/-- The values of the runs, one by one. -/
def expand (runs : List Run) : List Nat := runs.flatMap fun r => List.replicate r.count r.value

theorem expand_addRun (runs : List Run) (value : Nat) : expand (addRun runs value) = expand runs ++ [value] := by
  unfold addRun
  cases last : runs.getLast? with
  | none =>
    rw [List.getLast?_eq_none_iff.mp last]
    rfl
  | some r =>
    obtain ⟨front, rfl⟩ := List.getLast?_eq_some_iff.mp last
    dsimp only
    unfold expand
    split_ifs with same
    · rw [List.dropLast_concat, List.flatMap_append, List.flatMap_append, List.flatMap_singleton, List.flatMap_singleton,
        List.replicate_succ', same, List.append_assoc]
    · rw [List.flatMap_append, List.flatMap_singleton]
      rfl

theorem expand_foldl (values : List Nat) (runs : List Run) :
    expand (values.foldl addRun runs) = expand runs ++ values := by
  induction values generalizing runs with
  | nil => exact (List.append_nil _).symm
  | cons value rest ih => rw [List.foldl_cons, ih, expand_addRun, List.append_assoc, List.singleton_append]

/-- When each of the spans begins, one behind the other. -/
def begins : Int → List Nat → List Int
  | _, [] => []
  | at_, span :: rest => at_ :: begins (at_ + span) rest

theorem getElem?_begins (at_ : Int) (spans : List Nat) (i : Nat) :
    (begins at_ spans)[i]? = spans[i]?.map fun _ => at_ + ((spans.take i).sum : Nat) := by
  induction spans generalizing at_ i with
  | nil => rfl
  | cons span rest ih =>
    cases i with
    | zero =>
      rw [begins, List.getElem?_cons_zero, List.getElem?_cons_zero, List.take_zero, List.sum_nil]
      exact congrArg some (Int.add_zero at_).symm
    | succ i =>
      rw [begins, List.getElem?_cons_succ, List.getElem?_cons_succ, ih, List.take_succ_cons, List.sum_cons]
      push_cast
      rw [Int.add_assoc]

theorem begins_append (at_ : Int) (front back : List Nat) :
    begins at_ (front ++ back) = begins at_ front ++ begins (at_ + (front.sum : Nat)) back := by
  induction front generalizing at_ with
  | nil =>
    rw [List.sum_nil]
    exact congrArg (begins · back) (Int.add_zero at_).symm
  | cons span rest ih =>
    rw [List.cons_append, begins, ih, begins, List.sum_cons]
    push_cast
    rw [Int.add_assoc]
    rfl

/-- The runs of durations give each sample the sum of those before it. -/
theorem times_stamp {runs : List Run} {samples : List Mp4Sample} (all : (expand runs).length = samples.length) (dts : Int) :
    (stamp (runs.map fun r => (r.count, r.value)) dts samples).map Mp4Sample.time = begins dts (expand runs) := by
  induction runs generalizing samples dts with
  | nil =>
    rw [List.length_eq_zero_iff.mp all.symm]
    rfl
  | cons r rest ih =>
    have split : expand (r :: rest) = List.replicate r.count r.value ++ expand rest := List.flatMap_cons
    rw [split, List.length_append, List.length_replicate] at all
    have whole : (samples.take r.count).length = r.count := by
      rw [List.length_take]
      omega
    have front : ((samples.take r.count).mapIdx fun k sample =>
        ({ sample with time := dts + k * r.value, duration := r.value } : Mp4Sample)).map Mp4Sample.time =
        begins dts (List.replicate r.count r.value) := by
      apply List.ext_getElem?
      intro i
      rw [List.getElem?_map, List.getElem?_mapIdx, getElem?_begins, Option.map_map]
      rcases Nat.lt_or_ge i r.count with inside | behind
      · rw [List.getElem?_eq_getElem (whole.symm ▸ inside), List.getElem?_replicate_of_lt inside, List.take_replicate,
          List.sum_replicate, Nat.min_eq_left inside.le, smul_eq_mul]
        push_cast
        rfl
      · rw [List.getElem?_eq_none (whole.symm ▸ behind), List.getElem?_eq_none (by rw [List.length_replicate]; exact behind)]
        rfl
    have later : (expand rest).length = (samples.drop r.count).length := by
      rw [List.length_drop]
      omega
    have back := ih later (dts + (r.count * r.value : Nat))
    rw [List.map_cons, stamp, List.map_append, front, whole, split, begins_append, List.sum_replicate, smul_eq_mul]
    push_cast at back ⊢
    rw [back]

/-! ## The sync marks -/

def mark (stss : List Nat) (samples : List Mp4Sample) : List Mp4Sample :=
  samples.mapIdx fun i sample => if i + 1 ∈ stss then { sample with sync := true } else sample

theorem length_mark (stss : List Nat) (samples : List Mp4Sample) : (mark stss samples).length = samples.length :=
  List.length_mapIdx

/-- A mark changes nothing else. -/
theorem map_mark {Value : Type} {f : Mp4Sample → Value} (same : ∀ sample, f { sample with sync := true } = f sample)
    (stss : List Nat) (samples : List Mp4Sample) : (mark stss samples).map f = samples.map f := by
  unfold mark
  apply List.ext_getElem?
  intro i
  rw [List.getElem?_map, List.getElem?_mapIdx, List.getElem?_map, Option.map_map]
  congr 1
  funext sample
  rw [Function.comp_apply]
  split_ifs
  · exact same sample
  · rfl

theorem markSync_eq {count : Nat} {samples : List Mp4Sample} (all : samples.length = count) (index : Nat) :
    markSync count samples index = .ok (mark [index] samples) := by
  unfold markSync mark
  split_ifs with range
  · have inside : index - 1 < samples.length := by omega
    unfold Outcome.at_
    rw [List.getElem?_eq_getElem inside, Outcome.ok_bind]
    apply congrArg Outcome.ok
    apply List.ext_getElem?
    intro i
    rw [List.getElem?_set, List.getElem?_mapIdx]
    by_cases here : index - 1 = i
    · subst here
      rw [if_pos rfl, if_pos inside, List.getElem?_eq_getElem inside, Option.map_some,
        if_pos (List.mem_singleton.mpr (Nat.sub_add_cancel range.1))]
    · have other : ∀ sample : Mp4Sample, (if i + 1 ∈ [index] then { sample with sync := true } else sample) = sample :=
        fun sample => if_neg fun member => here (by rw [← List.mem_singleton.mp member]; rfl)
      rw [if_neg here]
      simp only [other, Option.map_id']
  · apply congrArg Outcome.ok
    apply List.ext_getElem?
    intro i
    rw [List.getElem?_mapIdx]
    rcases Nat.lt_or_ge i samples.length with inside | behind
    · have other : i + 1 ∉ [index] := fun member => range (by rw [← List.mem_singleton.mp member]; omega)
      rw [List.getElem?_eq_getElem inside, Option.map_some, if_neg other]
    · rw [List.getElem?_eq_none behind]
      rfl

theorem mark_mark (first rest : List Nat) (samples : List Mp4Sample) :
    mark rest (mark first samples) = mark (first ++ rest) samples := by
  apply List.ext_getElem?
  intro i
  unfold mark
  rw [List.getElem?_mapIdx, List.getElem?_mapIdx, List.getElem?_mapIdx, Option.map_map]
  congr 1
  funext sample
  simp only [Function.comp_apply, List.mem_append]
  split_ifs <;> first | rfl | (exfalso; tauto)

theorem foldlM_mark {count : Nat} (stss : List Nat) {samples : List Mp4Sample} (all : samples.length = count) :
    stss.foldlM (markSync count) samples = .ok (mark stss samples) := by
  induction stss generalizing samples with
  | nil =>
    apply congrArg Outcome.ok
    apply List.ext_getElem?
    intro i
    unfold mark
    rw [List.getElem?_mapIdx]
    cases samples[i]? <;> rfl
  | cons index rest ih =>
    rw [List.foldlM_cons, markSync_eq all, Outcome.ok_bind, ih ((length_mark _ _).trans all), mark_mark]
    rfl

/-! ## A track -/

/-- The extents of a written track: the chunks at their offsets, the samples of each end to end. -/
def extentsOf (written : Mp4Write.Track) (base : Nat) : List (Nat × Nat) :=
  locate (spotsAt (written.chunkAt.map (base + ·)) written.chunkSamples) written.sizes 0

/-- The chunks of a track hold all of its samples, in a file. -/
structure Filled (written : Mp4Write.Track) (base fileSize : Nat) : Prop where
  positive : ∀ samples ∈ written.chunkSamples, samples ≠ 0
  same : written.chunkSamples.length = written.chunkAt.length
  sum : written.chunkSamples.sum = written.sizes.length
  few : written.sizes.length ≤ kMaxSamples
  timed : (expand written.durations).length = written.sizes.length
  inside : ∀ extent ∈ extentsOf written base, extent.1 + extent.2 ≤ fileSize

/-- The samples of a written track. -/
def samplesOf (written : Mp4Write.Track) (base : Nat) : List Mp4Sample :=
  let samples := stamp (written.durations.map fun r => (r.count, r.value)) 0 ((extentsOf written base).map bare)
  if written.sync = [] then samples.map fun sample => { sample with sync := true } else mark written.sync samples

section Written

variable {written : Mp4Write.Track} {base fileSize : Nat}

namespace Filled

variable (filled : Filled written base fileSize)
include filled

theorem length_spots : (spotsAt (written.chunkAt.map (base + ·)) written.chunkSamples).length = written.sizes.length := by
  rw [length_spotsAt filled.positive (by rw [List.length_map]; exact filled.same), filled.sum]

theorem length_extentsOf : (extentsOf written base).length = written.sizes.length := length_locate filled.length_spots 0

theorem length_chunks_le : written.chunkAt.length ≤ written.sizes.length := by
  rw [← filled.same, ← filled.sum]
  exact List.length_le_sum_of_one_le _ fun samples member => Nat.one_le_iff_ne_zero.mpr (filled.positive samples member)

theorem placed : placeEntries (tablesRead written base) fileSize (tablesRead written base).stsc [] =
    .ok ((extentsOf written base).map bare) := by
  have chunks : (tablesRead written base).chunks.length = written.chunkAt.length := List.length_map _
  have few := filled.few
  have fewer := filled.length_chunks_le
  have limit : kMaxSamples + 1 < 2 ^ 32 := by decide
  have places : spots (tablesRead written base) (tablesRead written base).stsc = _ :=
    spots_written (by omega) filled.positive (filled.same.trans chunks.symm)
  have walked : place (tablesRead written base) fileSize (spotsAt (written.chunkAt.map (base + ·)) written.chunkSamples) 0 [] =
      .ok ([] ++ (extentsOf written base).map bare) :=
    place_locate rfl rfl (by rw [List.length_nil, Nat.zero_add]; exact filled.length_spots) filled.inside
  rw [placeEntries_eq, places]
  change place _ _ (spotsAt (written.chunkAt.map (base + ·)) written.chunkSamples) _ _ >>= _ = _
  rw [walked, Outcome.ok_bind]
  apply ending_full
  rw [List.nil_append, List.length_map]
  exact filled.length_extentsOf.ge

theorem tables_ne_nil (some : written.sizes ≠ []) :
    ¬((tablesRead written base).stsc = [] ∨ (tablesRead written base).chunks = [] ∨ (tablesRead written base).stts = []) := by
  have count : written.sizes.length ≠ 0 := fun none => some (List.length_eq_zero_iff.mp none)
  have chunks : written.chunkSamples ≠ [] := by
    intro none
    have sum := filled.sum
    rw [none, List.sum_nil] at sum
    exact count sum.symm
  rintro (stsc | offsets | stts)
  · obtain ⟨m, rest, split⟩ := List.exists_cons_of_ne_nil chunks
    have none := List.map_eq_nil_iff.mp stsc
    rw [split, stscOf, if_neg (Option.some_ne_none m).symm] at none
    cases none
  · have same := filled.same
    rw [List.map_eq_nil_iff.mp offsets] at same
    exact chunks (List.length_eq_zero_iff.mp same)
  · have timed := filled.timed
    rw [List.map_eq_nil_iff.mp stts] at timed
    exact count timed.symm

/-- The demux expands the tables of a written track to its samples. -/
theorem buildSamples_written (some : written.sizes ≠ []) (t : Mp4Track) :
    buildSamples (tablesRead written base) fileSize t = .ok { t with samples := samplesOf written base } := by
  have count : (tablesRead written base).stszCount ≠ 0 := fun none => some (List.length_eq_zero_iff.mp none)
  have length : ((extentsOf written base).map bare).length = (tablesRead written base).stszCount :=
    (List.length_map _).trans filled.length_extentsOf
  have stamped : (stamp (tablesRead written base).stts 0 ((extentsOf written base).map bare)).length =
      written.sizes.length := by
    rw [length_stamp, length]
    rfl
  have marked : markAll (tablesRead written base)
      (shift (tablesRead written base).ctts (stamp (tablesRead written base).stts 0 ((extentsOf written base).map bare))) =
      .ok (samplesOf written base) := by
    change markAll _ (stamp _ 0 _) = _
    unfold markAll samplesOf
    change (if decide (written.sync ≠ []) = true then written.sync.foldlM (markSync written.sizes.length) _ else _) = _
    by_cases none : written.sync = []
    · rw [if_neg (by rw [decide_eq_true_eq]; exact not_not.mpr none), if_pos none]
      rfl
    · rw [if_pos (decide_eq_true none), if_neg none, foldlM_mark _ stamped]
      rfl
  unfold buildSamples
  rw [if_neg count, if_neg (filled.tables_ne_nil some), filled.placed, Outcome.ok_bind, if_neg (not_not.mpr length), marked]
  rfl

end Filled

theorem map_samplesOf {Value : Type} {f : Mp4Sample → Value} (same : ∀ sample, f { sample with sync := true } = f sample) :
    (samplesOf written base).map f =
      (stamp (written.durations.map fun r => (r.count, r.value)) 0 ((extentsOf written base).map bare)).map f := by
  unfold samplesOf
  dsimp only
  split_ifs
  · rw [List.map_map]
    exact List.map_congr_left fun sample _ => same sample
  · exact map_mark same _ _

theorem extents_samplesOf : extents (samplesOf written base) = extentsOf written base := by
  have laid : extents ((extentsOf written base).map bare) = extentsOf written base := by
    unfold extents
    rw [List.map_map]
    exact List.map_id _
  unfold extents
  rw [map_samplesOf fun sample => rfl]
  exact (extents_stamp _ _ _).trans laid

theorem times_samplesOf (filled : Filled written base fileSize) :
    (samplesOf written base).map Mp4Sample.time = begins 0 (expand written.durations) := by
  rw [map_samplesOf fun sample => rfl]
  apply times_stamp
  rw [List.length_map, filled.length_extentsOf, filled.timed]

/-- With a sync table, the samples that it lists are marked. -/
theorem sync_samplesOf (some : written.sync ≠ []) {i : Nat} {sample : Mp4Sample}
    (found : (samplesOf written base)[i]? = .some sample) : sample.sync = decide (i + 1 ∈ written.sync) := by
  have unmarked : ∀ other ∈ stamp (written.durations.map fun r => (r.count, r.value)) 0 ((extentsOf written base).map bare),
      other.sync = false := by
    intro other member
    have synced : (stamp (written.durations.map fun r => (r.count, r.value)) 0 ((extentsOf written base).map bare)).map
        Mp4Sample.sync = ((extentsOf written base).map bare).map Mp4Sample.sync := map_stamp (fun _ _ _ => rfl) _ _ _
    have kept := List.mem_map_of_mem (f := Mp4Sample.sync) member
    rw [synced, List.map_map] at kept
    obtain ⟨extent, -, false⟩ := List.mem_map.mp kept
    exact false.symm
  unfold samplesOf mark at found
  dsimp only at found
  rw [if_neg some, List.getElem?_mapIdx] at found
  obtain ⟨other, here, rfl⟩ := Option.map_eq_some_iff.mp found
  have bare := unmarked other (List.mem_of_getElem? here)
  split_ifs with member
  · exact (decide_eq_true member).symm
  · rw [bare, decide_eq_false member]

end Written

end Mello.Replay.Mp4Tables
