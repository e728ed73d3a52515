import Mello.Replay.Mp4Tables

/-!
The chunks of a clip. The windows lay out all samples of both tracks, and the media that the
second pass writes has each sample where the tables of its track say.
-/

namespace Mello.Replay.ClipLayout
open Mello.Library BigEndian Extents Mp4Write Mp4Tables

/-! ## The extents of chunks -/

/-- The samples of each chunk, end to end from the offset of the chunk. -/
def chunkExtents : List Nat → List Nat → List Nat → List (Nat × Nat)
  | offset :: offsets, count :: counts, sizes => laid offset (sizes.take count) ++ chunkExtents offsets counts (sizes.drop count)
  | _, _, _ => []

/-- Samples with no place of their own lie behind the one before them. -/
theorem locate_replicate {count : Nat} {sizes : List Nat} (enough : count ≤ sizes.length) (spots : List (Option Nat))
    (offset : Nat) :
    locate (List.replicate count none ++ spots) sizes offset =
      laid offset (sizes.take count) ++ locate spots (sizes.drop count) (offset + (sizes.take count).sum) := by
  induction count generalizing sizes offset with
  | zero =>
    rw [List.take_zero, List.drop_zero, List.sum_nil, Nat.add_zero]
    rfl
  | succ count ih =>
    cases sizes with
    | nil => cases enough
    | cons size sizes =>
      rw [List.replicate_succ, List.cons_append, locate, Option.getD_none, ih (Nat.le_of_succ_le_succ enough), List.take_succ_cons,
        List.drop_succ_cons, List.sum_cons, laid, Nat.add_assoc]
      rfl

theorem locate_spotsAt {offsets counts sizes : List Nat} (positive : ∀ count ∈ counts, count ≠ 0)
    (same : counts.length = offsets.length) (enough : counts.sum ≤ sizes.length) (offset : Nat) :
    locate (spotsAt offsets counts) sizes offset = chunkExtents offsets counts sizes := by
  induction counts generalizing offsets sizes offset with
  | nil => cases offsets <;> cases sizes <;> rfl
  | cons count counts ih =>
    cases offsets with
    | nil => cases same
    | cons first offsets =>
      obtain ⟨here, later⟩ := List.forall_mem_cons.mp positive
      obtain ⟨before, rfl⟩ := Nat.exists_eq_succ_of_ne_zero here
      rw [List.sum_cons] at enough
      cases sizes with
      | nil =>
        rw [List.length_nil] at enough
        omega
      | cons size sizes =>
        rw [List.length_cons] at enough
        have rest : counts.sum ≤ (sizes.drop before).length := by
          rw [List.length_drop]
          omega
        rw [spotsAt, chunkExtents, Nat.succ_sub_one, List.cons_append, locate, Option.getD_some, locate_replicate (by omega),
          ih later (Nat.succ.inj same) rest, List.take_succ_cons, List.drop_succ_cons, laid]
        rfl

/-- One chunk more. -/
theorem chunkExtents_concat {offsets counts : List Nat} (same : counts.length = offsets.length) (offset count : Nat)
    (sizes : List Nat) :
    chunkExtents (offsets ++ [offset]) (counts ++ [count]) sizes =
      chunkExtents offsets counts sizes ++ laid offset ((sizes.drop counts.sum).take count) := by
  induction counts generalizing offsets sizes with
  | nil =>
    rw [List.length_eq_zero_iff.mp same.symm]
    exact List.append_nil _
  | cons first counts ih =>
    cases offsets with
    | nil => cases same
    | cons front offsets =>
      rw [List.cons_append, List.cons_append, chunkExtents, ih (Nat.succ.inj same), chunkExtents, List.append_assoc, List.sum_cons,
        List.drop_drop]

theorem chunkExtents_shift (base : Nat) (offsets counts sizes : List Nat) :
    chunkExtents (offsets.map (base + ·)) counts sizes = (chunkExtents offsets counts sizes).map (shift base) := by
  induction counts generalizing offsets sizes with
  | nil => cases offsets <;> rfl
  | cons count counts ih =>
    cases offsets with
    | nil => rfl
    | cons offset offsets => rw [List.map_cons, chunkExtents, chunkExtents, List.map_append, laid_shift, ih]

/-! ## What has been laid out -/

def sizesOf (line : Timeline) (isVideo : Bool) : List Nat := if isVideo then line.videoSizes else line.audioSizes

def placedOf (l : Layout) (isVideo : Bool) : Placed := if isVideo then l.video else l.audio

/-- The chunks of a track hold its first samples, and begin inside the payload. -/
structure Chunked (sizes : List Nat) (payload : Nat) (placed : Placed) : Prop where
  positive : ∀ count ∈ placed.chunkSamples, count ≠ 0
  same : placed.chunkSamples.length = placed.chunkAt.length
  sum : placed.chunkSamples.sum = placed.taken
  inside : placed.taken ≤ sizes.length
  offsets : ∀ offset ∈ placed.chunkAt, offset ≤ payload

/-- The bytes of a chunk are its items, of the sizes that the layout counts. -/
def Writes (line : Timeline) (items : Bool → List (List Byte)) (store : Chunk → Option (List Byte)) : Prop :=
  ∀ c bytes, store c = some bytes → bytes = (((items c.isVideo).drop c.first).take c.count).flatten ∧
    (((items c.isVideo).drop c.first).take c.count).map List.length = ((sizesOf line c.isVideo).drop c.first).take c.count

structure Laid (line : Timeline) (items : Bool → List (List Byte)) (store : Chunk → Option (List Byte)) (l : Layout) : Prop where
  chunked : ∀ isVideo, Chunked (sizesOf line isVideo) l.payload (placedOf l isVideo)
  held : ∀ media, l.chunks.mapM store = some media → media.flatten.length = l.payload ∧
    ∀ isVideo, List.Forall₂ (Holds media.flatten)
      (chunkExtents (placedOf l isVideo).chunkAt (placedOf l isVideo).chunkSamples (sizesOf line isVideo))
      ((items isVideo).take (placedOf l isVideo).taken)

theorem mapM_concat {α β : Type*} {f : α → Option β} {xs : List α} {x : α} {ys : List β}
    (ran : (xs ++ [x]).mapM f = some ys) : ∃ before last, xs.mapM f = some before ∧ f x = some last ∧ ys = before ++ [last] := by
  simp only [List.mapM_append, List.mapM_cons, List.mapM_nil, Option.pure_def, Option.bind_eq_bind, Option.bind_some,
    Option.bind_eq_some_iff, Option.some.injEq] at ran
  obtain ⟨before, old, new, ⟨last, here, rfl⟩, rfl⟩ := ran
  exact ⟨before, last, old, here, rfl⟩

section Layout

variable {line : Timeline} {items : Bool → List (List Byte)} {store : Chunk → Option (List Byte)} {l : Layout}

theorem laid_start : Laid line items store {} where
  chunked := fun isVideo => by
    have none : placedOf {} isVideo = {} := by cases isVideo <;> rfl
    rw [none]
    exact ⟨nofun, rfl, rfl, Nat.zero_le _, nofun⟩
  held := by
    intro media written
    cases written
    refine ⟨rfl, fun isVideo => ?_⟩
    have none : placedOf {} isVideo = {} := by cases isVideo <;> rfl
    rw [none]
    exact .nil

/-- What a chunk changes: its own track and the payload. -/
theorem placedOf_pushChunk (isVideo other : Bool) (sizes : List Nat) {count : Nat} (some : count ≠ 0) :
    placedOf (pushChunk isVideo sizes count l) other =
      if other = isVideo then
        { taken := (placedOf l isVideo).taken + count
          chunkAt := (placedOf l isVideo).chunkAt ++ [l.payload]
          chunkSamples := (placedOf l isVideo).chunkSamples ++ [count] }
      else placedOf l other := by
  unfold pushChunk placedOf
  rw [if_neg some]
  cases isVideo <;> cases other <;> rfl

theorem Chunked.payload {sizes : List Nat} {payload longer : Nat} {placed : Placed} (chunked : Chunked sizes payload placed)
    (grows : payload ≤ longer) : Chunked sizes longer placed :=
  ⟨chunked.positive, chunked.same, chunked.sum, chunked.inside, fun offset member => (chunked.offsets offset member).trans grows⟩

theorem Chunked.push {sizes : List Nat} {payload longer count : Nat} {placed : Placed} (chunked : Chunked sizes payload placed)
    (some : count ≠ 0) (room : placed.taken + count ≤ sizes.length) (grows : payload ≤ longer) :
    Chunked sizes longer
      { taken := placed.taken + count
        chunkAt := placed.chunkAt ++ [payload]
        chunkSamples := placed.chunkSamples ++ [count] } where
  positive := by
    intro other member
    rcases List.mem_append.mp member with old | new
    · exact chunked.positive other old
    · rwa [List.mem_singleton.mp new]
  same := by rw [List.length_append, List.length_append, chunked.same, List.length_singleton, List.length_singleton]
  sum := by rw [List.sum_append, List.sum_singleton, chunked.sum]
  inside := room
  offsets := by
    intro offset member
    rcases List.mem_append.mp member with old | new
    · exact (chunked.offsets offset old).trans grows
    · rwa [List.mem_singleton.mp new]

/-- A chunk of the next samples of a track. -/
theorem Laid.push (laid : Laid line items store l) (writes : Writes line items store) {isVideo : Bool} {count : Nat}
    (room : (placedOf l isVideo).taken + count ≤ (sizesOf line isVideo).length) :
    Laid line items store (pushChunk isVideo (sizesOf line isVideo) count l) := by
  by_cases none : count = 0
  · unfold pushChunk
    rw [if_pos none]
    exact laid
  have payload : (pushChunk isVideo (sizesOf line isVideo) count l).payload =
      l.payload + (((sizesOf line isVideo).drop (placedOf l isVideo).taken).take count).sum := by
    unfold pushChunk placedOf
    rw [if_neg none]
  have chunks : (pushChunk isVideo (sizesOf line isVideo) count l).chunks =
      l.chunks ++ [⟨isVideo, (placedOf l isVideo).taken, count⟩] := by
    unfold pushChunk placedOf
    rw [if_neg none]
  constructor
  · intro other
    rw [placedOf_pushChunk isVideo other _ none, payload]
    split_ifs with own
    · rw [own]
      exact (laid.chunked isVideo).push none room (Nat.le_add_right _ _)
    · exact (laid.chunked other).payload (Nat.le_add_right _ _)
  · intro media written
    rw [chunks] at written
    obtain ⟨before, bytes, old, stored, rfl⟩ := mapM_concat written
    obtain ⟨length, held⟩ := laid.held before old
    obtain ⟨rfl, sizes⟩ := writes _ bytes stored
    dsimp only at sizes
    dsimp only
    rw [payload, List.flatten_concat]
    constructor
    · rw [List.length_append, length, List.length_flatten, sizes]
    · intro other
      rw [placedOf_pushChunk isVideo other _ none]
      have kept := (held other).imp fun _ _ holds =>
        holds.append_left (((items isVideo).drop (placedOf l isVideo).taken).take count).flatten
      split_ifs with own
      · subst own
        have ends := holds_laid before.flatten (((items other).drop (placedOf l other).taken).take count)
        rw [sizes, length] at ends
        rw [chunkExtents_concat (laid.chunked other).same, (laid.chunked other).sum, List.take_add]
        exact List.rel_append kept ends
      · exact kept

end Layout

/-! ## The windows -/

/-- A size for each time, and the times of each track in order. -/
structure Timed (line : Timeline) : Prop where
  video : line.videoAt.length = line.videoSizes.length
  audio : line.heardAt.length = line.audioSizes.length
  videoAt : line.videoAt.Pairwise (· ≤ ·)
  heardAt : line.heardAt.Pairwise (· ≤ ·)

/-- No sample is left. -/
def Done (line : Timeline) (l : Layout) : Prop :=
  line.videoAt.length ≤ l.video.taken ∧ line.heardAt.length ≤ l.audio.taken

theorem le_getLastD {α : Type*} [Preorder α] {times : List α} (ordered : times.Pairwise (· ≤ ·)) (fallback : α) :
    ∀ time ∈ times, time ≤ times.getLastD fallback := by
  rcases List.eq_nil_or_concat times with rfl | ⟨front, last, rfl⟩
  · exact fun time member => (List.not_mem_nil member).elim
  · intro time member
    rw [List.concat_eq_append] at ordered member ⊢
    rw [List.getLastD_concat]
    rcases List.mem_append.mp member with early | final
    · exact (List.pairwise_append.mp ordered).2.2 time early last List.mem_cons_self
    · exact (List.mem_singleton.mp final).le

/-- What is left behind the first samples that pass. -/
theorem drop_takeWhile {α : Type*} (passes : α → Bool) (times : List α) (taken : Nat) :
    times.drop (taken + ((times.drop taken).takeWhile passes).length) = (times.drop taken).dropWhile passes := by
  rw [← List.drop_drop]
  nth_rewrite 2 [← List.takeWhile_append_dropWhile (p := passes) (l := times.drop taken)]
  exact List.drop_left

/-- The samples of a track that a window takes. -/
def videoCount (line : Timeline) (windowEnd : Nat) (l : Layout) : Nat :=
  ((line.videoAt.drop l.video.taken).takeWhile fun at_ => at_ < windowEnd).length

def audioCount (line : Timeline) (windowEnd : Nat) (l : Layout) : Nat :=
  ((line.heardAt.drop l.audio.taken).takeWhile fun heard => heard < (windowEnd : Int)).length

section Windows

variable {line : Timeline} {l : Layout} {windowEnd : Nat}

theorem taken_pushChunk (isVideo other : Bool) (sizes : List Nat) (count : Nat) :
    (placedOf (pushChunk isVideo sizes count l) other).taken =
      (placedOf l other).taken + if other = isVideo then count else 0 := by
  by_cases none : count = 0
  · unfold pushChunk
    rw [if_pos none, none, ite_self]
    rfl
  · rw [placedOf_pushChunk isVideo other sizes none]
    split_ifs with own
    · rw [own]
    · rfl

theorem video_window : (window line windowEnd l).video.taken = l.video.taken + videoCount line windowEnd l := by
  have pushed := taken_pushChunk (l := l) true true line.videoSizes (videoCount line windowEnd l)
  have kept := taken_pushChunk (l := pushChunk true line.videoSizes (videoCount line windowEnd l) l) false true line.audioSizes
    (audioCount line windowEnd (pushChunk true line.videoSizes (videoCount line windowEnd l) l))
  rw [if_pos rfl] at pushed
  rw [if_neg (by decide), pushed] at kept
  exact kept

theorem audio_window : (window line windowEnd l).audio.taken = l.audio.taken + audioCount line windowEnd l := by
  have kept := taken_pushChunk (l := l) true false line.videoSizes (videoCount line windowEnd l)
  have same : audioCount line windowEnd (pushChunk true line.videoSizes (videoCount line windowEnd l) l) =
      audioCount line windowEnd l := by
    unfold audioCount
    exact congrArg (fun taken => ((line.heardAt.drop taken).takeWhile fun heard => heard < (windowEnd : Int)).length) kept
  have pushed := taken_pushChunk (l := pushChunk true line.videoSizes (videoCount line windowEnd l) l) false false line.audioSizes
    (audioCount line windowEnd (pushChunk true line.videoSizes (videoCount line windowEnd l) l))
  rw [if_pos rfl, kept, if_neg (by decide), Nat.add_zero] at pushed
  exact pushed.trans (congrArg (l.audio.taken + ·) same)

theorem Laid.one_window {items : Bool → List (List Byte)} {store : Chunk → Option (List Byte)} (laid : Laid line items store l)
    (writes : Writes line items store) (timed : Timed line) (windowEnd : Nat) :
    Laid line items store (window line windowEnd l) := by
  have video : (placedOf l true).taken + videoCount line windowEnd l ≤ (sizesOf line true).length := by
    have first := (laid.chunked true).inside
    have taken := (List.takeWhile_prefix (p := fun at_ => decide (at_ < windowEnd)) (l := line.videoAt.drop l.video.taken)).length_le
    rw [List.length_drop, timed.video] at taken
    change videoCount line windowEnd l ≤ (sizesOf line true).length - (placedOf l true).taken at taken
    omega
  have first := laid.push writes video
  have audio : (placedOf (pushChunk true line.videoSizes (videoCount line windowEnd l) l) false).taken +
      audioCount line windowEnd (pushChunk true line.videoSizes (videoCount line windowEnd l) l) ≤ (sizesOf line false).length := by
    have second := (first.chunked false).inside
    have taken := (List.takeWhile_prefix (p := fun heard => decide (heard < (windowEnd : Int)))
      (l := line.heardAt.drop (pushChunk true line.videoSizes (videoCount line windowEnd l) l).audio.taken)).length_le
    rw [List.length_drop, timed.audio] at taken
    change audioCount line windowEnd _ ≤ (sizesOf line false).length - (placedOf (pushChunk true _ _ l) false).taken at taken
    change (placedOf (pushChunk true line.videoSizes (videoCount line windowEnd l) l) false).taken ≤ _ at second
    omega
  exact first.push writes audio

theorem Laid.all_windows {items : Bool → List (List Byte)} {store : Chunk → Option (List Byte)} (laid : Laid line items store l)
    (writes : Writes line items store) (timed : Timed line) (fuel windowEnd : Nat) :
    Laid line items store (windowsFrom line fuel windowEnd l) := by
  induction fuel generalizing l windowEnd with
  | zero => exact laid
  | succ fuel ih =>
    unfold windowsFrom
    split_ifs
    · exact ih (laid.one_window writes timed windowEnd) (windowEnd + kChunkUs)
    · exact laid

/-- Windows up to the last time leave no sample. -/
theorem windowsFrom_done (fuel : Nat) (video : ∀ at_ ∈ line.videoAt.drop l.video.taken, at_ < windowEnd + fuel * kChunkUs)
    (audio : ∀ heard ∈ line.heardAt.drop l.audio.taken, heard < ((windowEnd + fuel * kChunkUs : Nat) : Int)) :
    Done line (windowsFrom line (fuel + 1) windowEnd l) := by
  induction fuel generalizing l windowEnd with
  | zero =>
    rw [Nat.zero_mul, Nat.add_zero] at video audio
    unfold windowsFrom
    split_ifs with left
    · change Done line (window line windowEnd l)
      unfold Done
      rw [video_window, audio_window]
      unfold videoCount audioCount
      rw [List.takeWhile_eq_self_iff.mpr fun at_ member => decide_eq_true (video at_ member),
        List.takeWhile_eq_self_iff.mpr fun heard member => decide_eq_true (audio heard member), List.length_drop, List.length_drop]
      omega
    · obtain ⟨noVideo, noAudio⟩ := not_or.mp left
      exact ⟨not_lt.mp noVideo, not_lt.mp noAudio⟩
  | succ fuel ih =>
    unfold windowsFrom
    split_ifs with left
    · have later : windowEnd + (fuel + 1) * kChunkUs = windowEnd + kChunkUs + fuel * kChunkUs := by
        rw [Nat.succ_mul]
        omega
      rw [later] at video audio
      apply ih
      · intro at_ member
        rw [video_window] at member
        unfold videoCount at member
        rw [drop_takeWhile] at member
        exact video at_ ((List.dropWhile_sublist _).subset member)
      · intro heard member
        rw [audio_window] at member
        unfold audioCount at member
        rw [drop_takeWhile] at member
        exact audio heard ((List.dropWhile_sublist _).subset member)
    · obtain ⟨noVideo, noAudio⟩ := not_or.mp left
      exact ⟨not_lt.mp noVideo, not_lt.mp noAudio⟩

theorem windows_done (timed : Timed line) : Done line (windows line) := by
  have last : ∀ time, time < kChunkUs + time / kChunkUs * kChunkUs := by
    intro time
    have split := Nat.div_add_mod time kChunkUs
    have rest := Nat.mod_lt time (show 0 < kChunkUs by decide)
    rw [Nat.mul_comm] at split
    omega
  have far := last (max (line.videoAt.getLastD 0) (line.heardAt.getLastD 0).toNat)
  apply windowsFrom_done
  · intro at_ member
    have bound := le_getLastD timed.videoAt 0 at_ (List.mem_of_mem_drop member)
    exact (bound.trans (le_max_left _ _)).trans_lt far
  · intro heard member
    have bound := le_getLastD timed.heardAt 0 heard (List.mem_of_mem_drop member)
    have high := le_max_right (line.videoAt.getLastD 0) (line.heardAt.getLastD 0).toNat
    omega

end Windows

/-- The whole layout of a timeline: every sample of both tracks, in its place. -/
theorem laid_windows {line : Timeline} {items : Bool → List (List Byte)} {store : Chunk → Option (List Byte)}
    (writes : Writes line items store) (timed : Timed line) :
    Laid line items store (windows line) ∧ ∀ isVideo, (placedOf (windows line) isVideo).taken = (sizesOf line isVideo).length := by
  have laid : Laid line items store (windows line) := laid_start.all_windows writes timed _ _
  have done := windows_done timed
  refine ⟨laid, fun isVideo => le_antisymm (laid.chunked isVideo).inside ?_⟩
  cases isVideo with
  | true => exact timed.video.symm.trans_le done.1
  | false => exact timed.audio.symm.trans_le done.2

end Mello.Replay.ClipLayout
