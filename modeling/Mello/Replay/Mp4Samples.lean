import Mello.Replay.Mp4Demux

/-!
The three nested loops that place a track's samples, as one walk over the places
of the chunk map. What the walk reads of the size table, and where it faults, is
then said once.
-/

namespace Mello.Replay.Mp4Samples
open Mello.Library Mp4Demux

section Places

variable (tab : Tables) (fileSize : Nat)

/-- The places of the samples: the offset of its chunk for a first one, none for one
behind another. They end at the first bad entry. -/
def spots : List StscEntry → List (Option Nat)
  | [] => []
  | e :: rest =>
    if badEntry tab e (lastOf tab rest) then []
    else
      ((List.range' e.firstChunk (lastOf tab rest - e.firstChunk)).flatMap fun chunk =>
        some (tab.chunks.getD (chunk - 1) 0) :: List.replicate (e.samples - 1) none) ++ spots rest

/-- The samples at those places, until there are as many as the size table counts. -/
def place : List (Option Nat) → Nat → List Mp4Sample → Outcome (List Mp4Sample)
  | [], _, placed => .ok placed
  | spot :: rest, offset, placed =>
    if placed.length < tab.stszCount then do
      let size ← sampleSize tab placed.length
      if spot.getD offset + size ≤ fileSize then
        place rest (spot.getD offset + size) (placed ++ [{ offset := spot.getD offset, size }])
      else .failed "a sample lies outside the file"
    else .ok placed

/-- What follows the walk: a bad entry that it reached. -/
def ending : List StscEntry → List Mp4Sample → Outcome (List Mp4Sample)
  | [], placed => .ok placed
  | e :: rest, placed =>
    if badEntry tab e (lastOf tab rest) then
      if placed.length < tab.stszCount then .failed "a bad stsc entry" else .ok placed
    else ending rest placed

variable {tab fileSize}

theorem place_full {placed : List Mp4Sample} (full : tab.stszCount ≤ placed.length) (places : List (Option Nat))
    (offset : Nat) : place tab fileSize places offset placed = .ok placed := by
  cases places with
  | nil => rfl
  | cons spot rest => exact if_neg (not_lt.mpr full)

theorem ending_full {placed : List Mp4Sample} (full : tab.stszCount ≤ placed.length) (entries : List StscEntry) :
    ending tab entries placed = .ok placed := by
  induction entries with
  | nil => rfl
  | cons e rest ih =>
    unfold ending
    split_ifs with bad short
    · omega
    · rfl
    · exact ih

theorem placeChunk_eq (k offset : Nat) (placed : List Mp4Sample) :
    placeChunk tab fileSize k offset placed = place tab fileSize (List.replicate k none) offset placed := by
  induction k generalizing offset placed with
  | zero => rfl
  | succ k ih =>
    rw [List.replicate_succ]
    unfold placeChunk place
    split_ifs with short
    · congr 1
      funext size
      rw [ih]
      simp only [Option.getD_none]
      split_ifs <;> first | rfl | omega
    · rfl

/-- Places that begin with a chunk, so that the offset before them does not matter. -/
def Starts (places : List (Option Nat)) : Prop := ∀ spot ∈ places.head?, spot.isSome

theorem place_starts {places : List (Option Nat)} (starts : Starts places) (offset other : Nat) (placed : List Mp4Sample) :
    place tab fileSize places offset placed = place tab fileSize places other placed := by
  cases places with
  | nil => rfl
  | cons spot rest =>
    obtain ⟨start, rfl⟩ := Option.isSome_iff_exists.mp (starts spot rfl)
    rfl

theorem place_append {back : List (Option Nat)} (starts : Starts back) (front : List (Option Nat)) (offset other : Nat)
    (placed : List Mp4Sample) :
    place tab fileSize (front ++ back) offset placed =
      place tab fileSize front offset placed >>= place tab fileSize back other := by
  induction front generalizing offset placed with
  | nil => exact place_starts starts _ _ _
  | cons spot front ih =>
    by_cases short : placed.length < tab.stszCount
    · simp only [List.cons_append, place, if_pos short]
      cases sampleSize tab placed.length with
      | ok size =>
        simp only [Outcome.ok_bind]
        split_ifs with fits
        · exact ih _ _
        · rfl
      | failed error => rfl
      | fault => rfl
    · rw [place_full (not_lt.mp short), place_full (not_lt.mp short), Outcome.ok_bind, place_full (not_lt.mp short)]

/-- The places of the chunks `chunk`, `chunk + 1` and so on. -/
def chunkSpots (tab : Tables) (samples chunk n : Nat) : List (Option Nat) :=
  (List.range' chunk n).flatMap fun chunk => some (tab.chunks.getD (chunk - 1) 0) :: List.replicate (samples - 1) none

theorem chunkSpots_succ (samples chunk n : Nat) :
    chunkSpots tab samples chunk (n + 1) =
      (some (tab.chunks.getD (chunk - 1) 0) :: List.replicate (samples - 1) none) ++ chunkSpots tab samples (chunk + 1) n := by
  rw [chunkSpots, List.range'_succ, List.flatMap_cons]
  rfl

theorem starts_chunkSpots (samples chunk n : Nat) : Starts (chunkSpots tab samples chunk n) := by
  cases n with
  | zero => exact fun spot none => nomatch none
  | succ n =>
    rw [chunkSpots_succ]
    rintro spot ⟨⟩
    rfl

theorem placeChunks_eq {samples : Nat} (some : samples ≠ 0) {n chunk : Nat} (inside : chunk + n ≤ tab.chunks.length + 1)
    (positive : chunk ≠ 0) (placed : List Mp4Sample) :
    placeChunks tab fileSize samples n chunk placed = place tab fileSize (chunkSpots tab samples chunk n) 0 placed := by
  induction n generalizing chunk placed with
  | zero => rfl
  | succ n ih =>
    by_cases short : placed.length < tab.stszCount
    · have here : tab.chunks[chunk - 1]? = Option.some (tab.chunks.getD (chunk - 1) 0) := by
        have known : chunk - 1 < tab.chunks.length := by omega
        rw [List.getD_eq_getElem?_getD, List.getElem?_eq_getElem known]
        rfl
      have first : ∀ start, place tab fileSize (Option.some start :: List.replicate (samples - 1) none) 0 placed =
          placeChunk tab fileSize samples start placed := by
        intro start
        obtain ⟨k, rfl⟩ := Nat.exists_eq_succ_of_ne_zero some
        rw [placeChunk_eq, List.replicate_succ]
        rfl
      rw [placeChunks, if_pos short, chunkSpots_succ, place_append (starts_chunkSpots _ _ _) _ 0 0, first]
      unfold Outcome.at_
      rw [here, Outcome.ok_bind]
      congr 1
      funext later
      exact ih (by omega) (Nat.succ_ne_zero chunk) later
    · rw [place_full (not_lt.mp short), placeChunks, if_neg short]

theorem starts_spots (entries : List StscEntry) : Starts (spots tab entries) := by
  induction entries with
  | nil => exact fun spot none => nomatch none
  | cons e rest ih =>
    unfold spots
    split_ifs with bad
    · exact fun spot none => nomatch none
    · intro spot head
      change spot ∈ (chunkSpots tab e.samples e.firstChunk _ ++ _).head? at head
      cases chunks : chunkSpots tab e.samples e.firstChunk (lastOf tab rest - e.firstChunk) with
      | nil =>
        rw [chunks] at head
        exact ih spot head
      | cons first others =>
        rw [chunks] at head
        have starts : Starts (chunkSpots tab e.samples e.firstChunk (lastOf tab rest - e.firstChunk)) :=
          starts_chunkSpots e.samples e.firstChunk _
        rw [chunks] at starts
        exact starts spot head

/-- The loops over entries, chunks and samples are the walk over the places. -/
theorem placeEntries_eq (entries : List StscEntry) (placed : List Mp4Sample) :
    placeEntries tab fileSize entries placed =
      place tab fileSize (spots tab entries) 0 placed >>= ending tab entries := by
  induction entries generalizing placed with
  | nil => rfl
  | cons e rest ih =>
    by_cases short : placed.length < tab.stszCount
    · rw [placeEntries, if_pos short, spots]
      by_cases bad : badEntry tab e (lastOf tab rest)
      · rw [if_pos bad, if_pos bad]
        change _ = ending tab (e :: rest) placed
        rw [ending, if_pos bad, if_pos short]
      · have same : ending tab (e :: rest) = ending tab rest := by
          funext later
          rw [ending, if_neg bad]
        rw [if_neg bad, if_neg bad, same]
        unfold badEntry at bad
        push Not at bad
        obtain ⟨positive, ordered, inside, some⟩ := bad
        change _ = place tab fileSize (chunkSpots tab e.samples e.firstChunk _ ++ _) 0 placed >>= _
        rw [place_append (starts_spots rest) _ 0 0, Outcome.bind_assoc,
          placeChunks_eq some (by omega) positive]
        congr 1
        funext later
        exact ih later
    · have full := not_lt.mp short
      rw [place_full full, Outcome.ok_bind, ending_full full, placeEntries, if_neg short]

/-! ## What the walk reads -/

/-- The samples with a size, from an offset on, lie in the file. -/
def Inside (fileSize : Nat) : List (Option Nat) → List Nat → Nat → Prop
  | spot :: spots, size :: sizes, offset =>
    spot.getD offset + size ≤ fileSize ∧ Inside fileSize spots sizes (spot.getD offset + size)
  | _, _, _ => True

/-- The walk faults at the end of the size table, when it gets there with places
and a count to go on. -/
theorem place_fault_iff {places : List (Option Nat)} {offset : Nat} {placed : List Mp4Sample}
    (within : tab.stszFixed = 0 → placed.length ≤ tab.stsz.length) :
    place tab fileSize places offset placed = .fault ↔
      tab.stszFixed = 0 ∧ tab.stsz.length < tab.stszCount ∧ (tab.stsz.drop placed.length).length < places.length ∧
        Inside fileSize places (tab.stsz.drop placed.length) offset := by
  induction places generalizing offset placed with
  | nil => exact iff_of_false nofun fun fault => absurd fault.2.2.1 (Nat.not_lt_zero _)
  | cons spot rest ih =>
    unfold place
    by_cases short : placed.length < tab.stszCount
    · rw [if_pos short]
      unfold sampleSize
      by_cases fixed : tab.stszFixed = 0
      · rw [if_neg (not_not.mpr fixed)]
        unfold Outcome.at_
        cases here : tab.stsz[placed.length]? with
        | none =>
          have ended := List.getElem?_eq_none_iff.mp here
          have nothing : tab.stsz.drop placed.length = [] := List.drop_eq_nil_of_le ended
          rw [nothing]
          refine iff_of_true rfl ⟨fixed, ?_, Nat.succ_pos _, trivial⟩
          have all := within fixed
          omega
        | some size =>
          obtain ⟨inside, rfl⟩ := List.getElem?_eq_some_iff.mp here
          rw [Outcome.ok_bind, List.drop_eq_getElem_cons inside]
          split_ifs with fits
          · rw [ih (by intro; rw [List.length_append]; exact inside), List.length_append]
            simp only [Inside, List.length_cons, List.length_nil, fits, true_and, Nat.add_lt_add_iff_right, Nat.zero_add]
          · exact iff_of_false nofun fun fault => fits fault.2.2.2.1
      · rw [if_pos fixed, Outcome.ok_bind]
        split_ifs with fits
        · rw [ih fun zero => absurd zero fixed]
          exact iff_of_false (fun fault => fixed fault.1) fun fault => fixed fault.1
        · exact iff_of_false nofun fun fault => fixed fault.1
    · rw [if_neg short]
      refine iff_of_false nofun ?_
      rintro ⟨fixed, less, -, -⟩
      have all := within fixed
      omega

/-- The samples that the walk adds lie in the file. -/
theorem place_inside {places : List (Option Nat)} {offset : Nat} {placed all : List Mp4Sample}
    (inside : ∀ sample ∈ placed, sample.offset + sample.size ≤ fileSize)
    (ran : place tab fileSize places offset placed = .ok all) :
    ∀ sample ∈ all, sample.offset + sample.size ≤ fileSize := by
  induction places generalizing offset placed with
  | nil =>
    cases ran
    exact inside
  | cons spot rest ih =>
    unfold place at ran
    split_ifs at ran with short
    · cases size : sampleSize tab placed.length with
      | failed error => simp [size] at ran
      | fault => simp [size] at ran
      | ok size' =>
        rw [size, Outcome.ok_bind] at ran
        split_ifs at ran with fits
        refine ih ?_ ran
        intro sample member
        rcases List.mem_append.mp member with old | new
        · exact inside sample old
        · rw [List.mem_singleton.mp new]
          exact fits
    · cases ran
      exact inside

end Places

/-! ## Times and sync marks leave the extents -/

def extents (samples : List Mp4Sample) : List (Nat × Nat) := samples.map fun sample => (sample.offset, sample.size)

/-- Stamps change the time and the duration only. -/
theorem map_stamp {Value : Type} {f : Mp4Sample → Value}
    (same : ∀ sample time duration, f { sample with time, duration } = f sample) (runs : List (Nat × Nat)) (dts : Int)
    (samples : List Mp4Sample) : (stamp runs dts samples).map f = samples.map f := by
  induction runs generalizing dts samples with
  | nil =>
    unfold stamp
    rw [List.map_map]
    exact List.map_congr_left fun sample _ => same sample dts sample.duration
  | cons run rest ih =>
    obtain ⟨count, delta⟩ := run
    have front : ((samples.take count).mapIdx fun k sample =>
        ({ sample with time := dts + k * delta, duration := delta } : Mp4Sample)).map f = (samples.take count).map f := by
      apply List.ext_getElem?
      intro i
      rw [List.getElem?_map, List.getElem?_mapIdx, List.getElem?_map, Option.map_map]
      congr 1
      funext sample
      exact same sample _ _
    rw [stamp, List.map_append, ih, front, ← List.map_append, List.take_append_drop]

theorem extents_stamp (runs : List (Nat × Nat)) (dts : Int) (samples : List Mp4Sample) :
    extents (stamp runs dts samples) = extents samples := map_stamp (fun _ _ _ => rfl) runs dts samples

theorem extents_shift (runs : List (Nat × Int)) (samples : List Mp4Sample) :
    extents (shift runs samples) = extents samples := by
  induction runs generalizing samples with
  | nil => rfl
  | cons run rest ih =>
    obtain ⟨count, delta⟩ := run
    have later := ih (samples.drop count)
    unfold extents at later ⊢
    rw [shift, List.map_append, later, List.map_map]
    conv_rhs => rw [← List.take_append_drop count samples, List.map_append]
    rfl

theorem length_extents (samples : List Mp4Sample) : (extents samples).length = samples.length := List.length_map _

theorem length_stamp (runs : List (Nat × Nat)) (dts : Int) (samples : List Mp4Sample) :
    (stamp runs dts samples).length = samples.length := by
  rw [← length_extents, extents_stamp, length_extents]

theorem length_shift (runs : List (Nat × Int)) (samples : List Mp4Sample) : (shift runs samples).length = samples.length := by
  rw [← length_extents, extents_shift, length_extents]

/-- An index of the sync table is checked against the count. -/
theorem markSync_ok {count : Nat} {samples : List Mp4Sample} (all : samples.length = count) (index : Nat) :
    ∃ marked, markSync count samples index = .ok marked ∧ extents marked = extents samples := by
  unfold markSync
  split_ifs with range
  · have inside : index - 1 < samples.length := by omega
    unfold Outcome.at_
    rw [List.getElem?_eq_getElem inside, Outcome.ok_bind]
    refine ⟨_, rfl, ?_⟩
    apply List.ext_getElem?
    intro i
    unfold extents
    rw [List.getElem?_map, List.getElem?_map, List.getElem?_set]
    split_ifs with same
    · rw [← same, List.getElem?_eq_getElem inside]
      rfl
    · rfl
  · exact ⟨samples, rfl, rfl⟩

theorem foldlM_markSync {count : Nat} (stss : List Nat) {samples : List Mp4Sample} (all : samples.length = count) :
    ∃ marked, stss.foldlM (markSync count) samples = .ok marked ∧ extents marked = extents samples := by
  induction stss generalizing samples with
  | nil => exact ⟨samples, rfl, rfl⟩
  | cons index rest ih =>
    obtain ⟨marked, first, same⟩ := markSync_ok all index
    have length : marked.length = count := by rw [← length_extents, same, length_extents, all]
    obtain ⟨last, later, kept⟩ := ih length
    refine ⟨last, ?_, kept.trans same⟩
    rw [List.foldlM_cons, first, Outcome.ok_bind, later]

theorem markAll_ok {tab : Tables} {samples : List Mp4Sample} (all : samples.length = tab.stszCount) :
    ∃ marked, markAll tab samples = .ok marked ∧ extents marked = extents samples := by
  unfold markAll
  split_ifs
  · exact foldlM_markSync tab.stss all
  · refine ⟨_, rfl, ?_⟩
    unfold extents
    rw [List.map_map]
    rfl

end Mello.Replay.Mp4Samples
