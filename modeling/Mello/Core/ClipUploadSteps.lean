import Mello.Core.ClipUpload

/-!
How often an upload moves on before the clip is finished or dropped. A step that moved on is followed by the next
one without a wait, so an upload that always moves on would be a loop.
-/

namespace Mello.Core.ClipUploadSteps
open ClipUpload Uploader

/-- The steps that moved on, until the clip leaves the queue. -/
def progresses (up : Uploader) (c : PendingClip) : List Answers → ℕ
  | [] => 0
  | a :: rest =>
    let o := up.step c a
    match o.step with
    | .progress => progresses o.up o.clip rest + 1
    | .finished _ | .drop _ => 0
    | .retry _ | .paused | .stopped => progresses o.up o.clip rest

/-- The clip has another upload than before, or none: the parts of the old one are gone. -/
def Changed (c clip : PendingClip) : Prop := c.uploadId ≠ "" ∧ clip.uploadId ≠ c.uploadId

instance (c clip : PendingClip) : Decidable (Changed c clip) := inferInstanceAs (Decidable (_ ∧ _))

/-- How often the upload changes. -/
def changes (up : Uploader) (c : PendingClip) : List Answers → ℕ
  | [] => 0
  | a :: rest =>
    let o := up.step c a
    match o.step with
    | .progress => changes o.up o.clip rest + if Changed c o.clip then 1 else 0
    | .finished _ | .drop _ => 0
    | .retry _ | .paused | .stopped => changes o.up o.clip rest

/-! ## One step -/

/-- All that a step that moved on can have done. -/
inductive Moved (a : Answers) (up : Uploader) (c : PendingClip) : Uploader → PendingClip → Prop where
  | posted (todo : c.posted = false) : Moved a up c up { c with posted := true }
  | urls (urls : GameClipUploadUrlResponse) (posted : c.posted = true) (none' : up.urls = none) (answer : a.urls = .ok urls)
      (present : urls.uploadId ≠ "") :
      Moved a up c { up with urls := some urls }
        (if urls.uploadId ≠ c.uploadId then { c with uploadId := urls.uploadId, doneParts := [] } else c)
  | poster (todo : c.posterDone = false) : Moved a up c { up with renewed := false } { c with posterDone := true }
  | part (urls : GameClipUploadUrlResponse) (part : UploadPartUrl) (etag : String) (posted : c.posted = true)
      (poster : c.posterDone = true) (cached : up.urls = some urls) (next : nextPart c urls = some part) :
      Moved a up c { up with renewed := false } { c with doneParts := c.doneParts ++ [⟨part.partNumber, etag⟩] }
  | renewed (urls : GameClipUploadUrlResponse) (restart : Bool) (cached : up.urls = some urls) (fresh : up.renewed = false)
      (work : c.posterDone = false ∨ nextPart c urls ≠ none) :
      Moved a up c { urls := none, renewed := true } (if restart then { c with uploadId := "", doneParts := [] } else c)

/-- A step moved on, or it left the uploader and the clip as they are. -/
def Rests (a : Answers) (up : Uploader) (c : PendingClip) (o : Outcome) : Prop :=
  (o.step = .progress ∧ Moved a up c o.up o.clip) ∨ (o.step ≠ .progress ∧ o.up = up ∧ o.clip = c)

section OneStep

variable {a : Answers} {up : Uploader} {c : PendingClip}

theorem toStep_ne_progress (f : Failure) : f.toStep ≠ .progress := by
  cases f <;> nofun

theorem rests_toStep (f : Failure) (events : List Event) : Rests a up c ⟨f.toStep, up, c, events⟩ :=
  .inr ⟨toStep_ne_progress f, rfl, rfl⟩

theorem rests_renew {urls : GameClipUploadUrlResponse} (cached : up.urls = some urls)
    (work : c.posterDone = false ∨ nextPart c urls ≠ none) (restart : Bool) : Rests a up c (up.renew c restart) := by
  unfold renew
  split
  · exact .inr ⟨nofun, rfl, rfl⟩
  · next fresh => exact .inl ⟨rfl, .renewed urls restart cached (Bool.eq_false_of_not_eq_true fresh) work⟩

theorem rests_requestUrls (posted : c.posted = true) (none' : up.urls = none) (posterBytes videoBytes : ℕ) :
    Rests a up c (up.requestUrls c posterBytes videoBytes a.urls) := by
  unfold requestUrls
  cases answer : a.urls with
  | error f => exact rests_toStep f _
  | ok urls =>
    dsimp only
    split
    · exact .inr ⟨nofun, rfl, rfl⟩
    · next storage => exact .inl ⟨rfl, .urls urls posted none' answer fun empty => storage (.inl empty)⟩

theorem rests_sendPoster {urls : GameClipUploadUrlResponse} (cached : up.urls = some urls) (todo : c.posterDone = false)
    (posterBytes : ℕ) (put complete : Except Failure String) : Rests a up c (up.sendPoster c urls posterBytes put complete) := by
  unfold sendPoster
  cases put with
  | error f =>
    cases f with
    | expired => exact rests_renew cached (.inl todo) false
    | _ => exact rests_toStep _ _
  | ok etag =>
    cases complete with
    | error f => exact rests_toStep f _
    | ok posterUrl => exact .inl ⟨rfl, .poster todo⟩

theorem rests_sendPart {urls : GameClipUploadUrlResponse} {part : UploadPartUrl} (posted : c.posted = true)
    (poster : c.posterDone = true) (cached : up.urls = some urls) (next : nextPart c urls = some part) (rate : Option ℕ)
    (put : Except Failure String) : Rests a up c (up.sendPart c urls part rate put) := by
  have work : nextPart c urls ≠ none := Option.ne_none_iff_exists'.mpr ⟨part, next⟩
  unfold sendPart
  dsimp only
  split
  · exact .inr ⟨nofun, rfl, rfl⟩
  · cases put with
    | error f =>
      cases f with
      | expired => exact rests_renew cached (.inr work) false
      | noSuchUpload => exact rests_renew cached (.inr work) true
      | _ => exact rests_toStep _ _
    | ok etag => exact .inl ⟨rfl, .part urls part etag posted poster cached next⟩

theorem rests_step (a : Answers) (up : Uploader) (c : PendingClip) : Rests a up c (up.step c a) := by
  unfold step
  cases a.files with
  | none => exact .inr ⟨nofun, rfl, rfl⟩
  | some sizes =>
    dsimp only
    cases posted : c.posted with
    | false =>
      rw [Bool.not_false, if_pos rfl]
      unfold post
      cases a.post with
      | error f => exact rests_toStep f _
      | ok answer => exact .inl ⟨rfl, .posted posted⟩
    | true =>
      rw [Bool.not_true, if_neg Bool.false_ne_true]
      cases cached : up.urls with
      | none => exact rests_requestUrls posted cached sizes.1 sizes.2
      | some urls =>
        dsimp only
        cases poster : c.posterDone with
        | false =>
          rw [Bool.not_false, if_pos rfl]
          exact rests_sendPoster cached poster sizes.1 a.put a.complete
        | true =>
          rw [Bool.not_true, if_neg Bool.false_ne_true]
          cases next : nextPart c urls with
          | some part => exact rests_sendPart posted poster cached next a.rate a.put
          | none =>
            dsimp only
            unfold completeVideo
            cases a.complete with
            | error f => exact rests_toStep f _
            | ok mediaUrl => exact .inr ⟨nofun, rfl, rfl⟩

end OneStep

/-! ## Every run -/

/-- A potential that each step that moves on uses up, but for `weight` at a change of the upload, bounds how often
the upload moves on. -/
theorem progresses_le {Inv : Uploader → PendingClip → Prop} {potential : Uploader → PendingClip → ℕ} {weight : ℕ}
    {answers : List Answers}
    (uses : ∀ a ∈ answers, ∀ up c, Inv up c → ∀ next clip, Moved a up c next clip → Inv next clip ∧
      potential next clip + 1 ≤ potential up c + weight * if Changed c clip then 1 else 0)
    (up : Uploader) (c : PendingClip) (start : Inv up c) :
    progresses up c answers ≤ potential up c + weight * changes up c answers := by
  induction answers generalizing up c with
  | nil => exact Nat.zero_le _
  | cons a rest ih =>
    have later := ih fun b member => uses b (List.mem_cons_of_mem a member)
    have still {o : Outcome} (same : o.up = up ∧ o.clip = c) :
        progresses o.up o.clip rest ≤ potential up c + weight * changes o.up o.clip rest := by
      rw [same.1, same.2]
      exact later up c start
    rw [progresses, changes]
    rcases rests_step a up c with ⟨progress, moved⟩ | ⟨other, same⟩
    · obtain ⟨kept, used⟩ := uses a List.mem_cons_self up c start _ _ moved
      have bound := later _ _ kept
      rw [progress]
      dsimp only
      rw [Nat.mul_add]
      omega
    · cases step : (up.step c a).step with
      | progress => exact absurd step other
      | finished mediaUrl => exact Nat.zero_le _
      | drop reason => exact Nat.zero_le _
      | retry why => exact still same
      | paused => exact still same
      | stopped => exact still same

/-! ### At most one part -/

/-- Nothing is left but to complete the video. -/
def Done (up : Uploader) (c : PendingClip) : Prop :=
  c.posted = true ∧ c.posterDone = true ∧ ∃ urls, up.urls = some urls ∧ nextPart c urls = none

/-- What the post, the poster, the URLs and the renewal may still take. -/
def work (up : Uploader) (c : PendingClip) : ℕ :=
  (if c.posted then 0 else 1) + (if c.posterDone then 0 else 3) + (if up.urls.isNone then 1 else 0) + if up.renewed then 0 else 2

open Classical in
/-- What is left with at most one part: after it nothing moves on any more. -/
noncomputable def workOfOne (up : Uploader) (c : PendingClip) : ℕ := if Done up c then 0 else work up c + 1

/-- The URLs of the run have at most that many parts. -/
def AtMost (n : ℕ) (up : Uploader) : Prop := ∀ urls, up.urls = some urls → urls.parts.length ≤ n

def Answers.AtMost (n : ℕ) (a : Answers) : Prop := ∀ urls, a.urls = .ok urls → urls.parts.length ≤ n

section One

variable {a : Answers} {up next : Uploader} {c clip : PendingClip}

theorem workOfOne_le (up : Uploader) (c : PendingClip) : workOfOne up c ≤ work up c + 1 := by
  unfold workOfOne
  split
  · exact Nat.zero_le _
  · exact le_rfl

theorem workOfOne_of_not_done (rest : ¬ Done up c) : workOfOne up c = work up c + 1 := if_neg rest

theorem Moved.not_done (moved : Moved a up c next clip) : ¬ Done up c := by
  rintro ⟨posted, poster, urls, cached, none'⟩
  cases moved with
  | posted todo => exact absurd posted (Bool.eq_false_iff.mp todo)
  | urls other _ empty => exact absurd cached (empty ▸ nofun)
  | poster todo => exact absurd poster (Bool.eq_false_iff.mp todo)
  | part other part etag _ _ same some' =>
    cases cached.symm.trans same
    cases none'.symm.trans some'
  | renewed other restart same _ work =>
    cases cached.symm.trans same
    rcases work with todo | left
    · exact absurd poster (Bool.eq_false_iff.mp todo)
    · exact left none'

/-- The only part is up. -/
theorem nextPart_of_one {urls : GameClipUploadUrlResponse} {part : UploadPartUrl} (few : urls.parts.length ≤ 1)
    (next : nextPart c urls = some part) (etag : String) :
    nextPart { c with doneParts := c.doneParts ++ [⟨part.partNumber, etag⟩] } urls = none := by
  obtain ⟨member, -⟩ := nextPart_some next
  obtain ⟨only, same⟩ : ∃ only, urls.parts = [only] := by
    refine List.length_eq_one_iff.mp (le_antisymm few ?_)
    exact List.length_pos_of_mem member
  rw [same, List.mem_singleton] at member
  unfold nextPart
  rw [same, List.find?_eq_none]
  intro other listed
  rw [List.mem_singleton.mp listed, ← member, List.any_append]
  simp

theorem workOfOne_moved (few : AtMost 1 up) (answers : Answers.AtMost 1 a) (moved : Moved a up c next clip) :
    AtMost 1 next ∧ workOfOne next clip + 1 ≤ workOfOne up c := by
  rw [workOfOne_of_not_done moved.not_done]
  cases moved with
  | posted todo =>
    refine ⟨few, Nat.succ_le_succ ((workOfOne_le _ _).trans ?_)⟩
    unfold work
    dsimp only
    rw [todo, if_pos rfl, if_neg Bool.false_ne_true]
    omega
  | urls urls posted empty answer present =>
    refine ⟨?_, Nat.succ_le_succ ((workOfOne_le _ _).trans ?_)⟩
    · rintro _ ⟨⟩
      exact answers urls answer
    · unfold work
      rw [empty]
      split <;> simp
  | poster todo =>
    refine ⟨few, Nat.succ_le_succ ((workOfOne_le _ _).trans ?_)⟩
    unfold work
    rw [todo, if_pos rfl, if_neg Bool.false_ne_true, if_neg Bool.false_ne_true]
    split_ifs <;> omega
  | part urls part etag posted poster cached some' =>
    have done : Done { up with renewed := false } { c with doneParts := c.doneParts ++ [⟨part.partNumber, etag⟩] } :=
      ⟨posted, poster, urls, cached, nextPart_of_one (few urls cached) some' etag⟩
    rw [workOfOne, if_pos done]
    exact ⟨few, Nat.succ_le_succ (Nat.zero_le _)⟩
  | renewed urls restart cached fresh left =>
    refine ⟨nofun, Nat.succ_le_succ ((workOfOne_le _ _).trans ?_)⟩
    unfold work
    rw [fresh, cached]
    cases restart <;> simp

end One

/-! ### A plan for each upload -/

section Planned

/-- The parts of an answer for an upload are among the upload's. -/
def Answers.Within (plan : String → Finset ℕ) (a : Answers) : Prop :=
  ∀ urls, a.urls = .ok urls → ∀ part ∈ urls.parts, part.partNumber ∈ plan urls.uploadId

/-- The URLs of the run are of the upload of the clip. -/
def Current (plan : String → Finset ℕ) (up : Uploader) (c : PendingClip) : Prop :=
  ∀ urls, up.urls = some urls → c.uploadId ≠ "" ∧ ∀ part ∈ urls.parts, part.partNumber ∈ plan c.uploadId

/-- The parts that are not up; without an upload all may be. -/
def missing (n : ℕ) (plan : String → Finset ℕ) (c : PendingClip) : ℕ :=
  if c.uploadId = "" then n else (plan c.uploadId \ (c.doneParts.map CompletedPart.partNumber).toFinset).card

/-- Each part may take its own renewal, the new URLs and the part. -/
def workOf (n : ℕ) (plan : String → Finset ℕ) (up : Uploader) (c : PendingClip) : ℕ := work up c + 3 * missing n plan c

variable {n : ℕ} {plan : String → Finset ℕ} {a : Answers} {up next : Uploader} {c clip : PendingClip}

theorem missing_le (few : ∀ uploadId, (plan uploadId).card ≤ n) (c : PendingClip) : missing n plan c ≤ n := by
  unfold missing
  split_ifs
  · exact le_rfl
  · exact (Finset.card_le_card Finset.sdiff_subset).trans (few _)

/-- A part that is up is not missing any more. -/
theorem missing_push (upload : c.uploadId ≠ "") {number : ℕ} (planned : number ∈ plan c.uploadId)
    (fresh : number ∉ c.doneParts.map CompletedPart.partNumber) (etag : String) :
    missing n plan { c with doneParts := c.doneParts ++ [⟨number, etag⟩] } + 1 = missing n plan c := by
  have member : number ∈ plan c.uploadId \ (c.doneParts.map CompletedPart.partNumber).toFinset :=
    Finset.mem_sdiff.mpr ⟨planned, fun done => fresh (List.mem_toFinset.mp done)⟩
  have rest : ((c.doneParts ++ [(⟨number, etag⟩ : CompletedPart)]).map CompletedPart.partNumber).toFinset =
      insert number (c.doneParts.map CompletedPart.partNumber).toFinset := by
    rw [List.map_append, List.map_singleton, List.toFinset_append, List.toFinset_cons, List.toFinset_nil,
      LawfulSingleton.insert_empty_eq, Finset.union_comm, Finset.insert_eq]
  unfold missing
  dsimp only
  rw [if_neg upload, if_neg upload, rest, Finset.sdiff_insert, Finset.card_erase_add_one member]

/-- With another upload at most all of its parts are missing. -/
theorem missing_of_other (few : ∀ uploadId, (plan uploadId).card ≤ n) (other : clip.uploadId ≠ c.uploadId) :
    missing n plan clip ≤ missing n plan c + n * if Changed c clip then 1 else 0 := by
  have fewer := missing_le few clip
  rcases eq_or_ne c.uploadId "" with none' | upload
  · have all : missing n plan c = n := if_pos none'
    omega
  · rw [if_pos ⟨upload, other⟩]
    omega

theorem workOf_moved (few : ∀ uploadId, (plan uploadId).card ≤ n) (current : Current plan up c) (within : Answers.Within plan a)
    (moved : Moved a up c next clip) : Current plan next clip ∧
      workOf n plan next clip + 1 ≤
        workOf n plan up c + 3 * n * if Changed c clip then 1 else 0 := by
  unfold workOf
  cases moved with
  | posted todo =>
    refine ⟨current, ?_⟩
    have same : missing n plan { c with posted := true } = missing n plan c := rfl
    have less : work up { c with posted := true } + 1 = work up c := by
      unfold work
      dsimp only
      rw [todo, if_pos rfl, if_neg Bool.false_ne_true]
      omega
    omega
  | urls urls posted empty answer present =>
    have less (clip : PendingClip) (posted : clip.posted = c.posted) (poster : clip.posterDone = c.posterDone) :
        work { up with urls := some urls } clip + 1 = work up c := by
      unfold work
      rw [empty, posted, poster]
      simp
      omega
    rcases eq_or_ne urls.uploadId c.uploadId with same | new
    · have used := less c rfl rfl
      rw [if_neg (not_not.mpr same)]
      refine ⟨?_, by omega⟩
      rintro _ ⟨⟩
      rw [← same]
      exact ⟨present, within urls answer⟩
    · have bound := @missing_of_other n plan c { c with uploadId := urls.uploadId, doneParts := [] } few new
      have used := less { c with uploadId := urls.uploadId, doneParts := [] } rfl rfl
      rw [if_pos new]
      refine ⟨?_, ?_⟩
      · rintro _ ⟨⟩
        exact ⟨present, within urls answer⟩
      · rw [Nat.mul_assoc]
        omega
  | poster todo =>
    refine ⟨current, ?_⟩
    have same : missing n plan { c with posterDone := true } = missing n plan c := rfl
    have less : work { up with renewed := false } { c with posterDone := true } + 1 ≤ work up c := by
      unfold work
      dsimp only
      rw [todo, if_pos rfl, if_neg Bool.false_ne_true, if_neg Bool.false_ne_true]
      split_ifs <;> omega
    omega
  | part urls part etag posted poster cached some' =>
    obtain ⟨upload, planned⟩ := current urls cached
    obtain ⟨member, fresh⟩ := nextPart_some some'
    have less := @missing_push n plan c upload part.partNumber (planned part member) fresh etag
    have more : work { up with renewed := false } { c with doneParts := c.doneParts ++ [⟨part.partNumber, etag⟩] } ≤ work up c + 2 := by
      unfold work
      dsimp only
      split_ifs <;> omega
    refine ⟨current, ?_⟩
    omega
  | renewed urls restart cached fresh left =>
    refine ⟨nofun, ?_⟩
    have less (clip : PendingClip) (posted : clip.posted = c.posted) (poster : clip.posterDone = c.posterDone) :
        work { urls := none, renewed := true } clip + 1 = work up c := by
      unfold work
      rw [cached, fresh, posted, poster]
      simp
    cases restart with
    | true =>
      have used := less { c with uploadId := "", doneParts := [] } rfl rfl
      have bound := @missing_of_other n plan c { c with uploadId := "", doneParts := [] } few (current urls cached).1.symm
      rw [if_pos rfl, Nat.mul_assoc]
      omega
    | false =>
      have used := less c rfl rfl
      rw [if_neg Bool.false_ne_true]
      omega

end Planned

/-! ## A loop -/

/-- Storage has lost the upload. -/
def lost : Answers := { works "" with put := .error .noSuchUpload }

/-- Of two parts, storage takes the first one and refuses the second one, each time. -/
def secondLost : ℕ → List Answers
  | 0 => []
  | k + 1 => works "a" :: works "a" :: lost :: secondLost k

/-- A clip whose poster is up. -/
def posterUp : PendingClip := { mp4Path := "c.mp4", posterPath := "c.jpg", posted := true, posterDone := true }

theorem works_atMost (etag : String) : Answers.AtMost 2 (works etag) := by
  intro urls answer
  obtain rfl := Except.ok.inj answer
  exact le_rfl

theorem secondLost_atMost (k : ℕ) : ∀ a ∈ secondLost k, Answers.AtMost 2 a := by
  induction k with
  | zero => exact fun a member => absurd member List.not_mem_nil
  | succ k ih =>
    rw [secondLost]
    simp only [List.forall_mem_cons]
    exact ⟨works_atMost "a", works_atMost "a", works_atMost "", ih⟩

/-- The first part clears the refusal, and the refusal of the second part clears the first one. -/
theorem progresses_secondLost (renewed : Bool) (k : ℕ) : progresses { renewed } posterUp (secondLost k) = 3 * k := by
  induction k generalizing renewed with
  | zero => rfl
  | succ k ih =>
    have round : progresses { renewed } posterUp (secondLost (k + 1)) = progresses { renewed := true } posterUp (secondLost k) + 1 + 1 + 1 :=
      rfl
    rw [round, ih]
    omega

/-! ## What is claimed -/

/-- With plans of at most `n` parts no clip moves on more often than some bound, whatever the answers are. -/
def Bounded (n : ℕ) : Prop :=
  ∃ bound, ∀ (c : PendingClip) (answers : List Answers), (∀ a ∈ answers, Answers.AtMost n a) → progresses {} c answers ≤ bound

theorem Bounded.mono {n m : ℕ} (bounded : Bounded n) (le : m ≤ n) : Bounded m := by
  obtain ⟨bound, all⟩ := bounded
  exact ⟨bound, fun c answers few => all c answers fun a member urls answer => (few a member urls answer).trans le⟩

theorem work_le (c : PendingClip) : work {} c ≤ 7 := by
  unfold work
  split_ifs <;> simp

theorem bounded_one : Bounded 1 := by
  refine ⟨8, fun c answers few => ?_⟩
  have bound := @progresses_le (fun up _ => AtMost 1 up) workOfOne 0 answers
    (fun a member up c few' next clip moved => by
      rw [Nat.zero_mul, Nat.add_zero]
      exact workOfOne_moved few' (few a member) moved) {} c nofun
  have start := workOfOne_le {} c
  have most := work_le c
  omega

/-- Two parts are enough for a loop. -/
theorem Bounded.le_one {n : ℕ} (bounded : Bounded n) : n ≤ 1 := by
  by_contra more
  obtain ⟨bound, all⟩ := bounded.mono (by omega : 2 ≤ n)
  have runs := all posterUp (secondLost (bound + 1)) (secondLost_atMost _)
  have count : progresses {} posterUp (secondLost (bound + 1)) = 3 * (bound + 1) := progresses_secondLost false _
  omega

/-- The bound is there for plans of at most one part only. For longer plans that are each of one upload, the clip
moves on a bounded number of times between two changes of the upload. -/
theorem progresses_bounded_iff (n : ℕ) : (Bounded n ↔ n ≤ 1) ∧
    ∀ plan : String → Finset ℕ, (∀ uploadId, (plan uploadId).card ≤ n) → ∀ (c : PendingClip) (answers : List Answers),
      (∀ a ∈ answers, Answers.Within plan a) → progresses {} c answers ≤ 3 * n + 7 + 3 * n * changes {} c answers := by
  refine ⟨⟨Bounded.le_one, bounded_one.mono⟩, ?_⟩
  intro plan few c answers within
  have bound := @progresses_le (Current plan) (workOf n plan) (3 * n) answers
    (fun a member up c current next clip moved => workOf_moved few current (within a member) moved) {} c nofun
  have parts := missing_le few c
  have most := work_le c
  unfold workOf at bound
  omega

/-- Storage refuses the second part for ever, and the upload moves on for ever. -/
theorem second_part_loops : (∀ k, progresses {} posterUp (secondLost k) = 3 * k) ∧ ¬ Bounded 2 :=
  ⟨progresses_secondLost false, fun bounded => absurd bounded.le_one (by decide)⟩

end Mello.Core.ClipUploadSteps
