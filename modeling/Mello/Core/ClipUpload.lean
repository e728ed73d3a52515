import Mello.Library.Runs

/-!
The upload of one queued clip: the post, the poster, the parts of the MP4 and the
complete, one request at a time. The entry of the queue is saved after each step that
moved on. The URLs are of this run only.
-/

namespace Mello.Core.ClipUpload
open Mello.Library Runs

/-! ## The data -/

structure CompletedPart where
  partNumber : ℕ
  etag : String
  deriving DecidableEq, Repr

structure UploadPartUrl where
  partNumber : ℕ
  url : String
  bytes : ℕ
  deriving DecidableEq, Repr

structure GameClipUploadUrlResponse where
  posterUploadUrl : String
  uploadId : String
  partSize : ℕ
  parts : List UploadPartUrl
  cacheControl : String
  deriving DecidableEq, Repr

structure PendingClip where
  mp4Path : String
  posterPath : String
  posted : Bool := false
  posterDone : Bool := false
  uploadId : String := ""
  doneParts : List CompletedPart := []
  deriving DecidableEq, Repr

inductive Failure where
  | retry (why : String)
  | refused (why : String)
  | expired
  | noSuchUpload
  | paused
  | stopped
  deriving DecidableEq, Repr

inductive Step where
  | progress
  | finished (mediaUrl : String)
  | drop (reason : String)
  | retry (why : String)
  | paused
  | stopped
  deriving DecidableEq, Repr

def Failure.toStep : Failure → Step
  | retry why => .retry why
  | refused why => .drop why
  | expired => .drop "the upload URL expired"
  | noSuchUpload => .drop "the upload is gone"
  | paused => .paused
  | stopped => .stopped

def POSTER_FLOOR_BPS : ℕ := 1000000

structure Put where
  url : String
  path : String
  offset : ℕ
  len : ℕ
  contentType : Option String
  cacheControl : Option String
  floorBps : ℕ
  deriving DecidableEq, Repr

/-- What the backend and the storage saw of the clip. A put that was taken is beside the
upload that its URL is of. -/
inductive Event where
  | posted
  | urls (posterBytes videoBytes : ℕ) (uploadId : String)
  | put (uploadId : String) (put : Put) (etag : String)
  | posterCompleted
  | completeVideo (uploadId : String) (parts : List CompletedPart)
  deriving DecidableEq, Repr

/-- What is there for one step: the sizes of the poster and of the MP4, the pace, and
the answers to the requests that the step may send. -/
structure Answers where
  files : Option (ℕ × ℕ)
  post : Except Failure Unit
  urls : Except Failure GameClipUploadUrlResponse
  rate : Option ℕ
  put : Except Failure String
  complete : Except Failure String

/-! ## The steps -/

/-- The part of the uploader that is about the clip. -/
structure Uploader where
  urls : Option GameClipUploadUrlResponse := none
  renewed : Bool := false

structure Outcome where
  step : Step
  up : Uploader
  clip : PendingClip
  events : List Event

namespace Uploader

variable (up : Uploader) (c : PendingClip)

def post (answer : Except Failure Unit) : Outcome :=
  match answer with
  | .ok _ => ⟨.progress, up, { c with posted := true }, [.posted]⟩
  | .error f => ⟨f.toStep, up, c, []⟩

def requestUrls (posterBytes videoBytes : ℕ) (answer : Except Failure GameClipUploadUrlResponse) : Outcome :=
  match answer with
  | .ok urls =>
    if urls.uploadId = "" ∨ urls.partSize = 0 then
      ⟨.drop "the server has no clip storage", up, c, [.urls posterBytes videoBytes c.uploadId]⟩
    else
      -- the parts of an old upload are gone
      let clip := if urls.uploadId ≠ c.uploadId then { c with uploadId := urls.uploadId, doneParts := [] } else c
      ⟨.progress, { up with urls := some urls }, clip, [.urls posterBytes videoBytes c.uploadId]⟩
  | .error f => ⟨f.toStep, up, c, [.urls posterBytes videoBytes c.uploadId]⟩

def renew (restart : Bool) : Outcome :=
  if up.renewed then ⟨.drop "the bucket refuses the upload", up, c, []⟩
  else ⟨.progress, { urls := none, renewed := true }, if restart then { c with uploadId := "", doneParts := [] } else c, []⟩

def sendPoster (urls : GameClipUploadUrlResponse) (posterBytes : ℕ) (put complete : Except Failure String) : Outcome :=
  let request : Put :=
    { url := urls.posterUploadUrl
      path := c.posterPath
      offset := 0
      len := posterBytes
      contentType := some "image/jpeg"
      cacheControl := some urls.cacheControl
      floorBps := POSTER_FLOOR_BPS }
  match put with
  | .error .expired => renew up c false
  | .error f => ⟨f.toStep, up, c, []⟩
  | .ok etag =>
    match complete with
    | .ok _ => ⟨.progress, { up with renewed := false }, { c with posterDone := true },
        [.put urls.uploadId request etag, .posterCompleted]⟩
    | .error f => ⟨f.toStep, up, c, [.put urls.uploadId request etag]⟩

def sendPart (urls : GameClipUploadUrlResponse) (part : UploadPartUrl) (rate : Option ℕ) (put : Except Failure String) : Outcome :=
  let request : Put :=
    { url := part.url
      path := c.mp4Path
      offset := (part.partNumber - 1) * urls.partSize
      len := part.bytes
      contentType := none
      cacheControl := none
      floorBps := 0 }
  if rate = some 0 then ⟨.paused, up, c, []⟩
  else
    match put with
    | .ok etag => ⟨.progress, { up with renewed := false },
        { c with doneParts := c.doneParts ++ [⟨part.partNumber, etag⟩] }, [.put urls.uploadId request etag]⟩
    | .error .expired => renew up c false
    | .error .noSuchUpload => renew up c true
    | .error f => ⟨f.toStep, up, c, []⟩

def completeVideo (answer : Except Failure String) : Outcome :=
  let parts := c.doneParts.mergeSort fun a b => a.partNumber ≤ b.partNumber
  match answer with
  | .ok mediaUrl => ⟨.finished mediaUrl, up, c, [.completeVideo c.uploadId parts]⟩
  | .error f => ⟨f.toStep, up, c, [.completeVideo c.uploadId parts]⟩

/-- The first part of the plan that is not up. -/
def nextPart (urls : GameClipUploadUrlResponse) : Option UploadPartUrl :=
  urls.parts.find? fun p => !c.doneParts.any fun d => d.partNumber = p.partNumber

def step (a : Answers) : Outcome :=
  match a.files with
  | none => ⟨.drop "the clip files are gone", up, c, []⟩
  | some (posterBytes, videoBytes) =>
    if !c.posted then post up c a.post
    else
      match up.urls with
      | none => requestUrls up c posterBytes videoBytes a.urls
      | some urls =>
        if !c.posterDone then sendPoster up c urls posterBytes a.put a.complete
        else
          match nextPart c urls with
          | some part => sendPart up c urls part a.rate a.put
          | none => completeVideo up c a.complete

end Uploader

/-! ## The run -/

/-- The entry of the queue, in memory and in its file. -/
structure State where
  up : Uploader := {}
  entry : Option PendingClip
  file : Option PendingClip

inductive Action where
  | step (answers : Answers) (saves : Bool)
  | restart

/-- A write of the queue file may fail. -/
def save (saves : Bool) (entry : Option PendingClip) (s : State) : State :=
  { s with entry, file := if saves then entry else s.file }

def act (s : State) : Action → Option (State × List Event)
  | .step answers saves =>
    match s.entry with
    | none => some (s, [])
    | some clip =>
      let o := s.up.step clip answers
      let s := { s with up := o.up }
      match o.step with
      | .progress => some (save saves (some o.clip) s, o.events)
      | .finished _ | .drop _ => some (save saves none { s with up := {} }, o.events)
      | .retry _ | .paused | .stopped => some (s, o.events)
  | .restart => some ({ entry := s.file, file := s.file }, [])

/-! ## The plan -/

/-- The parts of a file: all but the last are of one size, and together they are the file. -/
structure Plan (bytes : ℕ) where
  partSize : ℕ
  lens : List ℕ
  full : ∀ len ∈ lens.dropLast, len = partSize
  whole : lens.sum = bytes

/-- The answer has the parts of the plan, from 1 on. -/
def Plan.Answered {bytes : ℕ} (plan : Plan bytes) (urls : GameClipUploadUrlResponse) : Prop :=
  urls.partSize = plan.partSize ∧ urls.parts.map (fun p => (p.bytes, p.partNumber)) = plan.lens.zipIdx 1

/-- The backend answers for one upload always its plan. -/
def Action.Planned {bytes : ℕ} (plan : String → Plan bytes) : Action → Prop
  | .step answers _ => ∀ urls, answers.urls = .ok urls → (plan urls.uploadId).Answered urls
  | .restart => True

/-! ## The law -/

section Law

variable {bytes : ℕ} (plan : String → Plan bytes) (path : String)

/-- Storage took the part's bytes of the file under the upload, and gave the etag. -/
def Taken (log : List Event) (uploadId : String) (part : CompletedPart) : Prop :=
  ∃ put, .put uploadId put part.etag ∈ log ∧ put.path = path ∧ 1 ≤ part.partNumber ∧
    (plan uploadId).lens[part.partNumber - 1]? = some put.len ∧
    put.offset = ((plan uploadId).lens.take (part.partNumber - 1)).sum

/-- What holds when the video is completed: all parts in order, each taken, and the post
and the poster before. -/
structure Completes (before : List Event) (uploadId : String) (parts : List CompletedPart) : Prop where
  posted : .posted ∈ before
  poster : .posterCompleted ∈ before
  numbers : parts.map CompletedPart.partNumber = List.range' 1 (plan uploadId).lens.length
  taken : ∀ part ∈ parts, Taken plan path before uploadId part

def Whole (log : List Event) : Prop :=
  ∀ before uploadId parts after, log = before ++ .completeVideo uploadId parts :: after →
    Completes plan path before uploadId parts

/-- What the log knows of an entry. -/
structure Backed (log : List Event) (c : PendingClip) : Prop where
  mp4 : c.mp4Path = path
  posted : c.posted → .posted ∈ log
  poster : c.posterDone → .posterCompleted ∈ log
  once : (c.doneParts.map CompletedPart.partNumber).Nodup
  taken : ∀ part ∈ c.doneParts, Taken plan path log c.uploadId part

end Law

/-! ## The parts of a plan -/

/-- The parts before one are of the part size, so the offset is where they end. -/
theorem Plan.sum_take {bytes : ℕ} (plan : Plan bytes) {k : ℕ} (inside : k < plan.lens.length) :
    (plan.lens.take k).sum = k * plan.partSize := by
  have front : plan.lens.take k = List.replicate k plan.partSize := by
    refine List.eq_replicate_iff.mpr ⟨List.length_take_of_le inside.le, ?_⟩
    intro len member
    refine plan.full len ?_
    rw [List.dropLast_eq_take]
    exact List.take_subset_take_left _ (by omega) member
  rw [front, List.sum_replicate, smul_eq_mul]

section Answered

variable {bytes : ℕ} {plan : Plan bytes} {urls : GameClipUploadUrlResponse}

theorem Plan.Answered.part (answered : plan.Answered urls) {part : UploadPartUrl} (member : part ∈ urls.parts) :
    1 ≤ part.partNumber ∧ plan.lens[part.partNumber - 1]? = some part.bytes := by
  have listed : (part.bytes, part.partNumber) ∈ plan.lens.zipIdx 1 := by
    rw [← answered.2]
    exact List.mem_map_of_mem member
  exact List.mk_mem_zipIdx_iff_le_and_getElem?_sub.mp listed

theorem Plan.Answered.numbers (answered : plan.Answered urls) :
    urls.parts.map UploadPartUrl.partNumber = List.range' 1 plan.lens.length := by
  have seconds := congrArg (List.map Prod.snd) answered.2
  rw [List.map_map, List.zipIdx_map_snd] at seconds
  exact seconds

end Answered

/-- A list of numbers from 1 on, each once, is in order the numbers from 1 on. -/
theorem map_mergeSort_eq_range' {parts : List CompletedPart} {n : ℕ} (once : (parts.map CompletedPart.partNumber).Nodup)
    (all : ∀ number, number ∈ parts.map CompletedPart.partNumber ↔ number ∈ List.range' 1 n) :
    (parts.mergeSort fun a b => a.partNumber ≤ b.partNumber).map CompletedPart.partNumber = List.range' 1 n := by
  have sorted : ((parts.mergeSort fun a b => a.partNumber ≤ b.partNumber).map CompletedPart.partNumber).Pairwise (· ≤ ·) := by
    rw [List.pairwise_map]
    refine (List.pairwise_mergeSort ?_ ?_ parts).imp of_decide_eq_true
    · intro a b c ab bc
      exact decide_eq_true ((of_decide_eq_true ab).trans (of_decide_eq_true bc))
    · intro a b
      rw [Bool.or_eq_true, decide_eq_true_eq, decide_eq_true_eq]
      exact le_total _ _
  have range : (List.range' 1 n).Pairwise (· ≤ ·) := (List.pairwise_lt_range' 1).imp le_of_lt
  have perm : ((parts.mergeSort fun a b => a.partNumber ≤ b.partNumber).map CompletedPart.partNumber).Perm (List.range' 1 n) :=
    ((List.mergeSort_perm parts _).map _).trans ((List.perm_ext_iff_of_nodup once List.nodup_range').mpr all)
  exact perm.eq_of_pairwise (fun a b _ _ => le_antisymm) sorted range

/-! ## One step -/

section OneStep

variable {bytes : ℕ} {plan : String → Plan bytes} {path : String} {log events : List Event} {c : PendingClip} {up : Uploader}

theorem Taken.mono {uploadId : String} {part : CompletedPart} (taken : Taken plan path log uploadId part) (events : List Event) :
    Taken plan path (log ++ events) uploadId part := by
  obtain ⟨put, member, rest⟩ := taken
  exact ⟨put, List.mem_append_left _ member, rest⟩

theorem Backed.mono (backed : Backed plan path log c) (events : List Event) : Backed plan path (log ++ events) c where
  mp4 := backed.mp4
  posted := fun posted => List.mem_append_left _ (backed.posted posted)
  poster := fun done => List.mem_append_left _ (backed.poster done)
  once := backed.once
  taken := fun part member => (backed.taken part member).mono events

/-- A log that grows by no complete stays whole. -/
theorem Whole.append (whole : Whole plan path log) (other : ∀ uploadId parts, .completeVideo uploadId parts ∉ events) :
    Whole plan path (log ++ events) := by
  intro before uploadId parts after split
  rcases split_append split with ⟨rest, -, old⟩ | ⟨front, -, new⟩
  · exact whole before uploadId parts rest old
  · have member : .completeVideo uploadId parts ∈ events := new ▸ List.mem_append_right _ List.mem_cons_self
    exact absurd member (other uploadId parts)

theorem Whole.complete (whole : Whole plan path log) {uploadId : String} {parts : List CompletedPart}
    (completes : Completes plan path log uploadId parts) : Whole plan path (log ++ [.completeVideo uploadId parts]) := by
  intro before other others after split
  rcases split_concat split with ⟨rest, -, old⟩ | ⟨rfl, same, -⟩
  · exact whole before other others rest old
  · cases same
    exact completes

/-- The URLs of the run are of the upload of the entry, and of its plan. -/
def Cached (plan : String → Plan bytes) (up : Uploader) (c : PendingClip) : Prop :=
  ∀ urls, up.urls = some urls → urls.uploadId = c.uploadId ∧ (plan urls.uploadId).Answered urls

/-- What a step keeps, from an entry that the log knows. Only a step that moved on changes the entry. -/
structure Kept (plan : String → Plan bytes) (path : String) (log : List Event) (c : PendingClip) (o : Outcome) : Prop where
  backed : Backed plan path (log ++ o.events) o.clip
  cached : Cached plan o.up o.clip
  whole : Whole plan path log → Whole plan path (log ++ o.events)
  same : o.step ≠ .progress → o.clip = c

/-- A step that sends nothing of note and leaves all as it is. -/
theorem Kept.rest (backed : Backed plan path log c) (cached : Cached plan up c) (step : Step)
    (other : ∀ uploadId parts, .completeVideo uploadId parts ∉ events) : Kept plan path log c ⟨step, up, c, events⟩ :=
  ⟨backed.mono events, cached, fun whole => whole.append other, fun _ => rfl⟩

/-- A new upload: no part of it is up. -/
theorem Backed.restarted (backed : Backed plan path log c) (uploadId : String) :
    Backed plan path log { c with uploadId, doneParts := [] } where
  mp4 := backed.mp4
  posted := backed.posted
  poster := backed.poster
  once := List.nodup_nil
  taken := nofun

theorem kept_renew (backed : Backed plan path log c) (cached : Cached plan up c) (restart : Bool) :
    Kept plan path log c (up.renew c restart) := by
  unfold Uploader.renew
  split_ifs with again fresh
  · exact .rest backed cached _ nofun
  · exact ⟨(backed.restarted "").mono [], nofun, fun whole => whole.append nofun, fun moved => absurd rfl moved⟩
  · exact ⟨backed.mono [], nofun, fun whole => whole.append nofun, fun moved => absurd rfl moved⟩

theorem kept_requestUrls (backed : Backed plan path log c) (cached : Cached plan up c) (posterBytes videoBytes : ℕ)
    {answer : Except Failure GameClipUploadUrlResponse}
    (planned : ∀ urls, answer = .ok urls → (plan urls.uploadId).Answered urls) :
    Kept plan path log c (up.requestUrls c posterBytes videoBytes answer) := by
  unfold Uploader.requestUrls
  have other : ∀ uploadId parts, Event.completeVideo uploadId parts ∉ [Event.urls posterBytes videoBytes c.uploadId] := by
    intro uploadId parts member
    cases List.mem_singleton.mp member
  cases answer with
  | error f => exact .rest backed cached _ other
  | ok urls =>
    have answered := planned urls rfl
    dsimp only
    split_ifs with none new
    · exact .rest backed cached _ other
    · refine ⟨(backed.restarted urls.uploadId).mono _, ?_, fun whole => whole.append other, fun moved => absurd rfl moved⟩
      rintro _ ⟨⟩
      exact ⟨rfl, answered⟩
    · refine ⟨backed.mono _, ?_, fun whole => whole.append other, fun moved => absurd rfl moved⟩
      rintro _ ⟨⟩
      exact ⟨not_not.mp new, answered⟩

theorem kept_sendPoster (backed : Backed plan path log c) (cached : Cached plan up c) (urls : GameClipUploadUrlResponse)
    (posterBytes : ℕ) (put complete : Except Failure String) :
    Kept plan path log c (up.sendPoster c urls posterBytes put complete) := by
  unfold Uploader.sendPoster
  cases put with
  | error f =>
    cases f with
    | expired => exact kept_renew backed cached false
    | _ => exact .rest backed cached _ nofun
  | ok etag =>
    cases complete with
    | error f =>
      refine .rest backed cached _ ?_
      intro uploadId parts member
      cases List.mem_singleton.mp member
    | ok posterUrl =>
      refine ⟨?_, cached, fun whole => whole.append ?_, fun moved => absurd rfl moved⟩
      · exact { backed.mono _ with poster := fun _ => List.mem_append_right _ (List.mem_cons_of_mem _ List.mem_cons_self) }
      · intro uploadId parts member
        rcases List.mem_cons.mp member with same | last
        · cases same
        · cases List.mem_singleton.mp last

/-- A part that is up joins the parts of the entry. -/
theorem Backed.push (backed : Backed plan path log c) {part : CompletedPart}
    (fresh : part.partNumber ∉ c.doneParts.map CompletedPart.partNumber) (taken : Taken plan path log c.uploadId part) :
    Backed plan path log { c with doneParts := c.doneParts ++ [part] } where
  mp4 := backed.mp4
  posted := backed.posted
  poster := backed.poster
  once := by
    rw [List.map_append]
    refine List.nodup_append.mpr ⟨backed.once, List.nodup_singleton _, ?_⟩
    rintro number member _ last rfl
    rw [List.map_singleton, List.mem_singleton] at last
    exact fresh (last ▸ member)
  taken := by
    intro other member
    rcases List.mem_append.mp member with old | last
    · exact backed.taken other old
    · rw [List.mem_singleton.mp last]
      exact taken

theorem nextPart_some {urls : GameClipUploadUrlResponse} {part : UploadPartUrl} (next : Uploader.nextPart c urls = some part) :
    part ∈ urls.parts ∧ part.partNumber ∉ c.doneParts.map CompletedPart.partNumber := by
  refine ⟨List.mem_of_find?_eq_some next, ?_⟩
  have missing := List.find?_some next
  intro member
  obtain ⟨done, listed, same⟩ := List.mem_map.mp member
  rw [Bool.not_eq_true', List.any_eq_false] at missing
  exact missing done listed (decide_eq_true same)

theorem nextPart_none {urls : GameClipUploadUrlResponse} (next : Uploader.nextPart c urls = none) {part : UploadPartUrl}
    (member : part ∈ urls.parts) : part.partNumber ∈ c.doneParts.map CompletedPart.partNumber := by
  have done := List.find?_eq_none.mp next part member
  rw [Bool.not_eq_true', Bool.not_eq_false, List.any_eq_true] at done
  obtain ⟨other, listed, same⟩ := done
  exact List.mem_map.mpr ⟨other, listed, of_decide_eq_true same⟩

theorem kept_sendPart (backed : Backed plan path log c) (cached : Cached plan up c) {urls : GameClipUploadUrlResponse}
    (current : up.urls = some urls) {part : UploadPartUrl} (next : Uploader.nextPart c urls = some part) (rate : Option ℕ)
    (put : Except Failure String) : Kept plan path log c (up.sendPart c urls part rate put) := by
  unfold Uploader.sendPart
  dsimp only
  split_ifs with paused
  · exact .rest backed cached _ nofun
  · cases put with
    | error f =>
      cases f with
      | expired => exact kept_renew backed cached false
      | noSuchUpload => exact kept_renew backed cached true
      | _ => exact .rest backed cached _ nofun
    | ok etag =>
      obtain ⟨upload, answered⟩ := cached urls current
      obtain ⟨member, fresh⟩ := nextPart_some next
      obtain ⟨from_, len⟩ := answered.part member
      refine ⟨?_, cached, fun whole => whole.append ?_, fun moved => absurd rfl moved⟩
      · refine (backed.mono _).push fresh ?_
        rw [← upload]
        refine ⟨_, List.mem_append_right _ List.mem_cons_self, backed.mp4, from_, len, ?_⟩
        have inside := (List.getElem?_eq_some_iff.mp len).1
        rw [Plan.sum_take _ inside, ← answered.1]
      · intro uploadId parts member
        cases List.mem_singleton.mp member

theorem kept_completeVideo (backed : Backed plan path log c) (cached : Cached plan up c) {urls : GameClipUploadUrlResponse}
    (current : up.urls = some urls) (posted : c.posted) (poster : c.posterDone) (next : Uploader.nextPart c urls = none)
    (answer : Except Failure String) : Kept plan path log c (up.completeVideo c answer) := by
  obtain ⟨upload, answered⟩ := cached urls current
  rw [upload] at answered
  have all : ∀ number, number ∈ c.doneParts.map CompletedPart.partNumber ↔
      number ∈ List.range' 1 (plan c.uploadId).lens.length := by
    intro number
    constructor
    · intro member
      obtain ⟨part, listed, rfl⟩ := List.mem_map.mp member
      obtain ⟨put, -, -, from_, len, -⟩ := backed.taken part listed
      have inside := (List.getElem?_eq_some_iff.mp len).1
      rw [List.mem_range'_1]
      omega
    · intro member
      rw [← answered.numbers] at member
      obtain ⟨part, listed, rfl⟩ := List.mem_map.mp member
      exact nextPart_none next listed
  have completes : Completes plan path log c.uploadId (c.doneParts.mergeSort fun a b => a.partNumber ≤ b.partNumber) :=
    ⟨backed.posted posted, backed.poster poster, map_mergeSort_eq_range' backed.once all,
      fun part member => backed.taken part ((List.mergeSort_perm _ _).mem_iff.mp member)⟩
  unfold Uploader.completeVideo
  cases answer with
  | ok mediaUrl => exact ⟨backed.mono _, cached, fun whole => whole.complete completes, fun _ => rfl⟩
  | error f => exact ⟨backed.mono _, cached, fun whole => whole.complete completes, fun _ => rfl⟩

theorem kept_post (backed : Backed plan path log c) (cached : Cached plan up c) (answer : Except Failure Unit) :
    Kept plan path log c (up.post c answer) := by
  unfold Uploader.post
  cases answer with
  | error f => exact .rest backed cached _ nofun
  | ok answer =>
    refine ⟨?_, cached, fun whole => whole.append ?_, fun moved => absurd rfl moved⟩
    · exact { backed.mono _ with posted := fun _ => List.mem_append_right _ List.mem_cons_self }
    · intro uploadId parts member
      cases List.mem_singleton.mp member

theorem kept_step (backed : Backed plan path log c) (cached : Cached plan up c) {a : Answers}
    (planned : ∀ urls, a.urls = .ok urls → (plan urls.uploadId).Answered urls) : Kept plan path log c (up.step c a) := by
  unfold Uploader.step
  cases a.files with
  | none => exact .rest backed cached _ nofun
  | some sizes =>
    dsimp only
    by_cases posted : c.posted
    · rw [posted, Bool.not_true, if_neg Bool.false_ne_true]
      cases current : up.urls with
      | none => exact kept_requestUrls backed cached sizes.1 sizes.2 planned
      | some urls =>
        dsimp only
        by_cases poster : c.posterDone
        · rw [poster, Bool.not_true, if_neg Bool.false_ne_true]
          cases next : Uploader.nextPart c urls with
          | some part => exact kept_sendPart backed cached current next a.rate a.put
          | none => exact kept_completeVideo backed cached current posted poster next a.complete
        · rw [(Bool.not_eq_true _).mp poster, Bool.not_false, if_pos rfl]
          exact kept_sendPoster backed cached urls sizes.1 a.put a.complete
    · rw [(Bool.not_eq_true _).mp posted, Bool.not_false, if_pos rfl]
      exact kept_post backed cached a.post

end OneStep

/-! ## Every run -/

/-- What the log knows of the run, with the entries in memory and in the file. -/
structure Good {bytes : ℕ} (plan : String → Plan bytes) (path : String) (s : State) (log : List Event) : Prop where
  entry : ∀ c, s.entry = some c → Backed plan path log c ∧ Cached plan s.up c
  file : ∀ c, s.file = some c → Backed plan path log c
  whole : Whole plan path log

section Run

variable {bytes : ℕ} {plan : String → Plan bytes} {path : String} {s t : State} {log events : List Event}

theorem Good.saved (good : Good plan path s log) (whole : Whole plan path (log ++ events)) {entry : Option PendingClip}
    {up : Uploader} (here : ∀ c, entry = some c → Backed plan path (log ++ events) c ∧ Cached plan up c) (saves : Bool) :
    Good plan path (save saves entry { s with up }) (log ++ events) where
  entry := here
  file := by
    intro c same
    unfold save at same
    split_ifs at same
    · exact (here c same).1
    · exact (good.file c same).mono events
  whole := whole

theorem good_act (good : Good plan path s log) {action : Action} (planned : action.Planned plan)
    (acted : act s action = some (t, events)) : Good plan path t (log ++ events) := by
  cases action with
  | restart =>
    cases acted
    rw [List.append_nil]
    refine ⟨fun c same => ⟨good.file c same, nofun⟩, good.file, good.whole⟩
  | step answers saves =>
    unfold act at acted
    rcases s with ⟨up, _ | clip, file⟩
    · cases acted
      rw [List.append_nil]
      exact good
    · obtain ⟨backed, cached⟩ := good.entry clip rfl
      have kept := kept_step backed cached planned
      dsimp only at acted
      generalize up.step clip answers = o at acted kept
      have whole := kept.whole good.whole
      have still : o.step ≠ .progress → Good plan path ⟨o.up, some clip, file⟩ (log ++ o.events) := by
        intro rest
        refine ⟨?_, fun c same => (good.file c same).mono _, whole⟩
        rintro _ ⟨⟩
        have cached := kept.cached
        rw [kept.same rest] at cached
        exact ⟨backed.mono _, cached⟩
      have gone : ∀ saves, Good plan path (save saves none ⟨{}, some clip, file⟩) (log ++ o.events) := by
        intro saves
        refine good.saved whole ?_ saves
        intro c same
        cases same
      cases step : o.step with
      | progress =>
        rw [step] at acted
        cases acted
        refine good.saved whole ?_ saves
        rintro _ ⟨⟩
        exact ⟨kept.backed, kept.cached⟩
      | finished mediaUrl =>
        rw [step] at acted
        cases acted
        exact gone saves
      | drop reason =>
        rw [step] at acted
        cases acted
        exact gone saves
      | retry why =>
        rw [step] at acted still
        cases acted
        exact still nofun
      | paused =>
        rw [step] at acted still
        cases acted
        exact still nofun
      | stopped =>
        rw [step] at acted still
        cases acted
        exact still nofun

/-- A clip in the queue, that nothing was done for. -/
def queued (mp4Path posterPath : String) (saves : Bool) : State :=
  save saves (some { mp4Path, posterPath }) { entry := none, file := none }

/-- In every run of a queued clip the video is completed only with all its parts. -/
theorem completes_whole {posterPath : String} {saves : Bool} {actions : List Action} (planned : ∀ action ∈ actions, action.Planned plan)
    (ran : run (logged act) (queued path posterPath saves, []) actions = some (s, log)) : Whole plan path log := by
  refine (run_logged_invariant (Good plan path) ?_ ?_ ran).whole
  · intro action member s t log events good acted
    exact good_act good (planned action member) acted
  · have fresh : Backed plan path [] { mp4Path := path, posterPath } := ⟨rfl, nofun, nofun, List.nodup_nil, nofun⟩
    refine ⟨?_, ?_, ?_⟩
    · rintro _ ⟨⟩
      exact ⟨fresh, nofun⟩
    · intro c same
      cases saves <;> cases same
      exact fresh
    · intro before uploadId parts after split
      cases before <;> cases split

end Run

/-- Seven bytes in parts of five. -/
def inTwo : String → Plan 7 := fun _ => ⟨5, [5, 2], by decide, rfl⟩

/-- All requests work. -/
def works (etag : String) : Answers where
  files := some (3, 7)
  post := .ok ()
  urls := .ok ⟨"poster", "u", 5, [⟨1, "one", 5⟩, ⟨2, "two", 2⟩], ""⟩
  rate := none
  put := .ok etag
  complete := .ok "media"

theorem works_planned (etag : String) (saves : Bool) : (Action.step (works etag) saves).Planned inTwo := by
  rintro _ ⟨⟩
  exact ⟨rfl, rfl⟩

/-- The client restarts between the two parts. -/
def resumed : List Action :=
  [.step (works "") true, .step (works "") true, .step (works "p") true, .step (works "a") true, .restart,
    .step (works "") true, .step (works "b") true, .step (works "") true]

theorem resumed_whole : ∃ s log, run (logged act) (queued "c.mp4" "c.jpg" true, []) resumed = some (s, log) ∧
    (∃ parts, .completeVideo "u" parts ∈ log) ∧ Whole inTwo "c.mp4" log := by
  have planned : ∀ action ∈ resumed, action.Planned inTwo := by
    intro action member
    unfold resumed at member
    simp only [List.mem_cons, List.not_mem_nil, or_false] at member
    rcases member with rfl | rfl | rfl | rfl | rfl | rfl | rfl | rfl <;> first | exact works_planned _ _ | trivial
  exact ⟨_, _, rfl, ⟨_, List.mem_append_right _ List.mem_cons_self⟩, completes_whole planned rfl⟩

end Mello.Core.ClipUpload
