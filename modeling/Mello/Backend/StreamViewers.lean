import Mello.Library.Runs
import Mello.Library.Tables
import Mello.Library.Versioned

/-!
The record of one live stream, and the calls that change it: viewers counted in and
out, thumbnails and resolutions. Each reads the record and writes it whole; only the
counts name the version they read. Storage works but for version conflicts.
-/

namespace Mello.Backend.StreamViewers
open Mello.Library Documents Runs Tables Versioned

/-! ## The record -/

structure StreamMeta where
  streamID : String
  streamerID : String
  thumbnailURL : String := ""
  thumbnailUpdatedAt : String := ""
  viewerIDs : List String := []
  watchedIDs : List String := []
  peakViewers : Nat := 0
  width : Nat := 0
  height : Nat := 0
  deriving DecidableEq, Repr

namespace StreamMeta

variable (m : StreamMeta) (viewerID : String)

/-- Whether anything changed, and the record. -/
def addViewer : Bool × StreamMeta :=
  let viewerIDs := if viewerID ∈ m.viewerIDs then m.viewerIDs else m.viewerIDs ++ [viewerID]
  let watchedIDs := if viewerID ∈ m.watchedIDs then m.watchedIDs else m.watchedIDs ++ [viewerID]
  (viewerID ∉ m.viewerIDs || viewerID ∉ m.watchedIDs || m.peakViewers < viewerIDs.length,
    { m with viewerIDs, watchedIDs, peakViewers := max m.peakViewers viewerIDs.length })

/-- Whether the viewer was counted, and the record. -/
def removeViewer : Bool × StreamMeta :=
  if viewerID ∈ m.viewerIDs then (true, { m with viewerIDs := m.viewerIDs.erase viewerID }) else (false, m)

end StreamMeta

/-! ## The calls -/

/-- `hostID` is the host that the session record names. `StreamViewerLeft` asks twice
whether the user is the streamer, here once. -/
inductive Request where
  | WatchStream (userID hostID sessionID : String)
  | StreamViewerLeft (userID viewerID : String)
  | StreamThumbnailUpload (userID thumbnailURL now : String)
  | UpdateStreamResolution (userID : String) (width height : Nat)
  deriving DecidableEq, Repr

/-- What a request makes of the record, none for no write. -/
def change : Request → StreamMeta → Option StreamMeta
  | .WatchStream userID hostID sessionID, m =>
    if userID ≠ hostID ∧ m.streamID = sessionID ∧ (m.addViewer userID).1 then some (m.addViewer userID).2 else none
  | .StreamViewerLeft userID viewerID, m =>
    if m.streamerID = userID ∧ (m.removeViewer viewerID).1 then some (m.removeViewer viewerID).2 else none
  | .StreamThumbnailUpload userID thumbnailURL now, m =>
    if m.streamerID = userID then some { m with thumbnailURL, thumbnailUpdatedAt := now } else none
  | .UpdateStreamResolution userID width height, m =>
    if m.streamerID = userID then some { m with width, height } else none

/-- `updateStreamMeta` writes under the version it read, the other two calls under none. -/
def expects (stored : Object StreamMeta) : Request → Expect
  | .WatchStream .. | .StreamViewerLeft .. => .version stored.version
  | .StreamThumbnailUpload .. | .UpdateStreamResolution .. => .any

inductive Phase where
  | reading
  | writing (expect : Expect) (doc : StreamMeta)
  | done
  | gaveUp
  deriving DecidableEq, Repr

structure Call where
  request : Request
  attempt : Nat := 0
  phase : Phase := .reading
  deriving DecidableEq, Repr

inductive Count where
  | countIn (viewerID : String)
  | countOut (viewerID : String)
  deriving DecidableEq, Repr

def Count.viewerID : Count → String
  | .countIn viewerID => viewerID
  | .countOut viewerID => viewerID

def Request.count : Request → Option Count
  | .WatchStream userID _ _ => some (.countIn userID)
  | .StreamViewerLeft _ viewerID => some (.countOut viewerID)
  | _ => none

/-- The log has the counts that took effect, and `largest` is the most viewers that
the record ever had. -/
structure State where
  store : Store StreamMeta
  calls : List Call := []
  log : List Count := []
  largest : Nat := 0

/-- The record that starts a stream. -/
def live (streamID streamerID : String) (width height : Nat) : StreamMeta := { streamID, streamerID, width, height }

def start (m : StreamMeta) : State where
  store := { object := some ⟨0, m⟩, fresh := 1, bounded := by rintro stored ⟨⟩; exact Nat.one_pos }

inductive Action where
  | call (request : Request)
  | read (k : Nat)
  | write (k : Nat)
  deriving DecidableEq, Repr

def retry (call : Call) : Call :=
  if call.attempt + 1 < 3 then { call with attempt := call.attempt + 1, phase := .reading } else { call with phase := .gaveUp }

/-- A missing record is not an error. -/
def afterRead (request : Request) : Option (Object StreamMeta) → Phase
  | none => .done
  | some stored =>
    match change request stored.value with
    | some doc => .writing (expects stored request) doc
    | none => .done

def step (s : State) : Action → Option State
  | .call request => some { s with calls := s.calls ++ [{ request }] }
  | .read k =>
    match s.calls[k]? with
    | some ⟨request, attempt, .reading⟩ =>
      some { s with calls := s.calls.set k ⟨request, attempt, afterRead request s.store.object⟩ }
    | _ => none
  | .write k =>
    match s.calls[k]? with
    | some ⟨request, attempt, .writing expect doc⟩ =>
      if s.store.admits expect then
        some { s with
          store := s.store.put doc
          calls := s.calls.set k ⟨request, attempt, .done⟩
          log := s.log ++ request.count.toList
          largest := max s.largest doc.viewerIDs.length }
      else some { s with calls := s.calls.set k (retry ⟨request, attempt, .writing expect doc⟩) }
    | _ => none

/-! ## The law -/

/-- The record of a stream that is live. -/
def record (s : State) : StreamMeta := value (live "" "" 0 0) s.store

/-- The last count of a viewer that took effect. -/
def lastCount (log : List Count) (viewerID : String) : Option Count :=
  (log.filter fun count => count.viewerID = viewerID).getLast?

structure Exact (s : State) : Prop where
  once : (record s).viewerIDs.Nodup
  viewers : ∀ v, v ∈ (record s).viewerIDs ↔ lastCount s.log v = some (.countIn v)
  watched : ∀ v, .countIn v ∈ s.log → v ∈ (record s).watchedIDs
  peak : (record s).peakViewers = s.largest

/-- The counts of one record say what those of another say. -/
structure SameCounts (copy m : StreamMeta) : Prop where
  viewers : ∀ v, v ∈ copy.viewerIDs ↔ v ∈ m.viewerIDs
  watched : ∀ v ∈ m.watchedIDs, v ∈ copy.watchedIDs
  peak : copy.peakViewers = m.peakViewers

/-- A write under no version has the counts of the stored record. -/
def Undisturbed (s : State) : Action → Prop
  | .write k => ∀ request attempt doc, s.calls[k]? = some ⟨request, attempt, .writing .any doc⟩ → SameCounts doc (record s)
  | _ => True

/-! ## One change -/

section Changes

variable {m doc : StreamMeta} {request : Request} {v w : String}

theorem mem_concat_new {list : List String} : w ∈ (if v ∈ list then list else list ++ [v]) ↔ w = v ∨ w ∈ list := by
  split_ifs with member
  · constructor
    · exact .inr
    · rintro (rfl | old)
      · exact member
      · exact old
  · rw [List.mem_append, List.mem_singleton, or_comm]

theorem nodup_concat_new {list : List String} (once : list.Nodup) : (if v ∈ list then list else list ++ [v]).Nodup := by
  split_ifs with member
  · exact once
  · apply once.append (List.nodup_singleton v)
    intro other old new
    rw [List.mem_singleton.mp new] at old
    exact member old

/-- What a count makes of the record. -/
inductive Counted (m doc : StreamMeta) : Count → Prop
  | countIn {v : String} (viewers : ∀ w, w ∈ doc.viewerIDs ↔ w = v ∨ w ∈ m.viewerIDs)
      (once : m.viewerIDs.Nodup → doc.viewerIDs.Nodup) (watched : ∀ w, w ∈ doc.watchedIDs ↔ w = v ∨ w ∈ m.watchedIDs)
      (peak : doc.peakViewers = max m.peakViewers doc.viewerIDs.length) : Counted m doc (.countIn v)
  | countOut {v : String} (viewers : m.viewerIDs.Nodup → ∀ w, w ∈ doc.viewerIDs ↔ w ≠ v ∧ w ∈ m.viewerIDs)
      (once : m.viewerIDs.Nodup → doc.viewerIDs.Nodup) (fewer : doc.viewerIDs.length ≤ m.viewerIDs.length)
      (watched : doc.watchedIDs = m.watchedIDs) (peak : doc.peakViewers = m.peakViewers) : Counted m doc (.countOut v)

theorem counted_of_change {count : Count} (counts : request.count = some count) (changed : change request m = some doc) :
    Counted m doc count := by
  cases request with
  | WatchStream userID hostID sessionID =>
    cases counts
    rw [change] at changed
    split_ifs at changed
    cases changed
    exact .countIn (fun w => mem_concat_new) nodup_concat_new (fun w => mem_concat_new) rfl
  | StreamViewerLeft userID viewerID =>
    cases counts
    rw [change] at changed
    split_ifs at changed with counted
    cases changed
    have removed : m.removeViewer viewerID = (true, { m with viewerIDs := m.viewerIDs.erase viewerID }) := by
      have worked := counted.2
      unfold StreamMeta.removeViewer at worked ⊢
      split_ifs at worked ⊢
      rfl
    rw [removed]
    exact .countOut (fun once w => once.mem_erase_iff) (fun once => once.erase viewerID) (List.erase_sublist.length_le) rfl rfl
  | StreamThumbnailUpload | UpdateStreamResolution => cases counts

/-- The calls that write under no version leave the counts of their copy. -/
theorem counts_of_change (blind : request.count = none) (changed : change request m = some doc) :
    doc.viewerIDs = m.viewerIDs ∧ doc.watchedIDs = m.watchedIDs ∧ doc.peakViewers = m.peakViewers := by
  cases request with
  | WatchStream | StreamViewerLeft => cases blind
  | StreamThumbnailUpload | UpdateStreamResolution =>
    rw [change] at changed
    split_ifs at changed
    cases changed
    exact ⟨rfl, rfl, rfl⟩

theorem lastCount_concat (log : List Count) (count : Count) (v : String) :
    lastCount (log ++ [count]) v = if count.viewerID = v then some count else lastCount log v := by
  unfold lastCount
  rw [List.filter_append]
  by_cases same : count.viewerID = v
  · have kept : [count].filter (fun count => decide (count.viewerID = v)) = [count] := by simp [same]
    rw [kept, List.getLast?_concat, if_pos same]
  · have dropped : [count].filter (fun count => decide (count.viewerID = v)) = [] := by simp [same]
    rw [dropped, List.append_nil, if_neg same]

end Changes

/-! ## Every run keeps -/

/-- What holds of every record that was ever stored. -/
structure Old (s : State) (m : StreamMeta) : Prop where
  once : m.viewerIDs.Nodup
  origin : ∀ v ∈ m.watchedIDs, .countIn v ∈ s.log
  within : m.viewerIDs.length ≤ s.largest

/-- A record that waits was made of one that was stored, and of the stored one when
its write is taken under a version. -/
structure Waiting (s : State) (request : Request) (expect : Expect) (doc : StreamMeta) : Prop where
  made : ∃ m, Old s m ∧ change request m = some doc ∧ (expect ≠ .any → Seen (live "" "" 0 0) s.store m expect)
  blind : expect = .any ↔ request.count = none

structure Sound (s : State) : Prop where
  stored : Old s (record s)
  waiting : ∀ (k : Nat) (request : Request) (attempt : Nat) (expect : Expect) (doc : StreamMeta),
    s.calls[k]? = some ⟨request, attempt, .writing expect doc⟩ → Waiting s request expect doc

section Step

variable {s t : State} {action : Action}

/-- The four kinds of step. -/
inductive Moved (s t : State) : Action → Prop
  | called (request : Request) (moved : t = { s with calls := s.calls ++ [{ request }] }) : Moved s t (.call request)
  | read {k : Nat} {request : Request} {attempt : Nat} (here : s.calls[k]? = some ⟨request, attempt, .reading⟩)
      (moved : t = { s with calls := s.calls.set k ⟨request, attempt, afterRead request s.store.object⟩ }) :
      Moved s t (.read k)
  | wrote {k : Nat} {request : Request} {attempt : Nat} {expect : Expect} {doc : StreamMeta}
      (here : s.calls[k]? = some ⟨request, attempt, .writing expect doc⟩) (admitted : s.store.admits expect = true)
      (moved : t = { s with
        store := s.store.put doc
        calls := s.calls.set k ⟨request, attempt, .done⟩
        log := s.log ++ request.count.toList
        largest := max s.largest doc.viewerIDs.length }) :
      Moved s t (.write k)
  | missed {k : Nat} {request : Request} {attempt : Nat} {expect : Expect} {doc : StreamMeta}
      (here : s.calls[k]? = some ⟨request, attempt, .writing expect doc⟩) (refused : s.store.admits expect = false)
      (moved : t = { s with calls := s.calls.set k (retry ⟨request, attempt, .writing expect doc⟩) }) :
      Moved s t (.write k)

theorem moved_of_step (stepped : step s action = some t) : Moved s t action := by
  cases action with
  | call request => exact .called request (Option.some.inj stepped).symm
  | read k =>
    rw [step] at stepped
    split at stepped
    · rename_i request attempt here
      exact .read here (Option.some.inj stepped).symm
    · cases stepped
  | write k =>
    rw [step] at stepped
    split at stepped
    · rename_i request attempt expect doc here
      split_ifs at stepped with admitted
      · exact .wrote here admitted (Option.some.inj stepped).symm
      · exact .missed here (Bool.not_eq_true _ ▸ admitted) (Option.some.inj stepped).symm
    · cases stepped

theorem Old.mono {m : StreamMeta} (old : Old s m) (log : ∀ count ∈ s.log, count ∈ t.log) (largest : s.largest ≤ t.largest) :
    Old t m :=
  ⟨old.once, fun v member => log _ (old.origin v member), old.within.trans largest⟩

/-- A call that only moves on leaves what waits. -/
theorem Waiting.still {request : Request} {expect : Expect} {doc : StreamMeta} (waiting : Waiting s request expect doc)
    (store : t.store = s.store) (log : t.log = s.log) (largest : t.largest = s.largest) : Waiting t request expect doc := by
  obtain ⟨⟨m, old, changed, seen⟩, blind⟩ := waiting
  refine ⟨⟨m, old.mono ?_ largest.ge, changed, ?_⟩, blind⟩
  · rw [log]
    exact fun _ member => member
  · rw [store]
    exact seen

/-- What a change makes of an old record is one when it is stored. -/
theorem old_of_change {m doc : StreamMeta} {request : Request} (old : Old s m) (changed : change request m = some doc)
    (log : t.log = s.log ++ request.count.toList) (largest : t.largest = max s.largest doc.viewerIDs.length) : Old t doc := by
  have kept : ∀ v ∈ m.watchedIDs, .countIn v ∈ t.log := by
    intro v member
    rw [log]
    exact List.mem_append_left _ (old.origin v member)
  have within : doc.viewerIDs.length ≤ t.largest := largest ▸ le_max_right _ _
  cases counts : request.count with
  | none =>
    obtain ⟨viewers, watched, -⟩ := counts_of_change counts changed
    exact ⟨viewers ▸ old.once, watched ▸ kept, within⟩
  | some count =>
    rw [counts] at log
    cases counted_of_change counts changed with
    | countIn viewers once watched peak =>
      refine ⟨once old.once, fun w member => ?_, within⟩
      rcases (watched w).mp member with rfl | before
      · rw [log]
        exact List.mem_append_right _ (List.mem_singleton.mpr rfl)
      · exact kept w before
    | countOut viewers once fewer watched peak => exact ⟨once old.once, watched ▸ kept, within⟩

/-- What a read leaves to write was made of the stored record. -/
theorem waiting_of_read (sound : Sound s) {request : Request} {expect : Expect} {doc : StreamMeta}
    (left : afterRead request s.store.object = .writing expect doc) : Waiting s request expect doc := by
  cases here : s.store.object with
  | none =>
    rw [here, afterRead] at left
    cases left
  | some stored =>
    have same : record s = stored.value := by
      unfold record value
      rw [here]
    rw [here, afterRead] at left
    cases changed : change request stored.value with
    | none =>
      simp only [changed] at left
      cases left
    | some doc =>
      simp only [changed] at left
      cases left
      constructor
      · refine ⟨stored.value, same ▸ sound.stored, changed, fun versioned => ?_⟩
        cases request with
        | WatchStream | StreamViewerLeft => exact seen_found here
        | StreamThumbnailUpload | UpdateStreamResolution => exact absurd rfl versioned
      · cases request with
        | WatchStream | StreamViewerLeft | StreamThumbnailUpload | UpdateStreamResolution => simp [expects, Request.count]

theorem sound_step (sound : Sound s) (moved : Moved s t action) : Sound t := by
  cases moved with
  | called request moved =>
    subst moved
    refine ⟨sound.stored.mono (fun _ => id) le_rfl, fun k request attempt expect doc found => ?_⟩
    rcases getElem?_concat_cases found with old | ⟨-, new⟩
    · exact (sound.waiting k request attempt expect doc old).still rfl rfl rfl
    · cases new
  | read here moved =>
    subst moved
    refine ⟨sound.stored.mono (fun _ => id) le_rfl, fun k request attempt expect doc found => ?_⟩
    rcases getElem?_set_cases found with ⟨-, new⟩ | ⟨-, old⟩
    · obtain ⟨rfl, -, left⟩ := Call.mk.inj new
      exact (waiting_of_read sound left.symm).still rfl rfl rfl
    · exact (sound.waiting k request attempt expect doc old).still rfl rfl rfl
  | wrote here admitted moved =>
    subst moved
    obtain ⟨m, old, changed, -⟩ := (sound.waiting _ _ _ _ _ here).made
    refine ⟨old_of_change old changed rfl rfl, fun k request attempt expect doc found => ?_⟩
    rcases getElem?_set_cases found with ⟨-, new⟩ | ⟨-, other⟩
    · cases new
    · obtain ⟨⟨n, before, made, seen⟩, blind⟩ := sound.waiting k request attempt expect doc other
      refine ⟨⟨n, ?_, made, fun versioned => ?_⟩, blind⟩
      · exact before.mono (fun _ member => List.mem_append_left _ member) (le_max_left _ _)
      · exact (seen versioned).put _
  | missed here refused moved =>
    subst moved
    refine ⟨sound.stored.mono (fun _ => id) le_rfl, fun k request attempt expect doc found => ?_⟩
    rcases getElem?_set_cases found with ⟨-, new⟩ | ⟨-, old⟩
    · unfold retry at new
      split_ifs at new <;> cases new
    · exact (sound.waiting k request attempt expect doc old).still rfl rfl rfl

/-- A count made of the stored record keeps the record exact. -/
theorem exact_counted {doc : StreamMeta} {count : Count} (exact : Exact s) (counted : Counted (record s) doc count)
    (stored : record t = doc) (log : t.log = s.log ++ [count]) (largest : t.largest = max s.largest doc.viewerIDs.length)
    (within : (record s).viewerIDs.length ≤ s.largest) : Exact t := by
  cases counted with
  | countIn viewers once watched peak =>
    rename_i v
    constructor
    · rw [stored]
      exact once exact.once
    · intro w
      rw [stored, log, lastCount_concat, viewers w, exact.viewers w]
      split_ifs with same
      · exact iff_of_true (.inl same.symm) (by rw [show v = w from same])
      · exact or_iff_right (Ne.symm same)
    · intro w member
      rw [stored, watched w]
      rw [log, List.mem_append, List.mem_singleton] at member
      rcases member with before | now
      · exact .inr (exact.watched w before)
      · cases now
        exact .inl rfl
    · rw [stored, peak, exact.peak, largest]
  | countOut viewers once fewer watched peak =>
    rename_i v
    constructor
    · rw [stored]
      exact once exact.once
    · intro w
      rw [stored, log, lastCount_concat, viewers exact.once w, exact.viewers w]
      split_ifs with same
      · exact iff_of_false (fun both => both.1 same.symm) nofun
      · exact and_iff_right (Ne.symm same)
    · intro w member
      rw [stored, watched]
      rw [log, List.mem_append, List.mem_singleton] at member
      rcases member with before | now
      · exact exact.watched w before
      · cases now
    · rw [stored, peak, exact.peak, largest, max_eq_left (fewer.trans within)]

/-- A write that counts nobody keeps the record exact when its copy has the counts of
the stored record, and only then. -/
theorem exact_blind {doc : StreamMeta} (sound : Sound s) (exact : Exact s) (once : doc.viewerIDs.Nodup)
    (stored : record t = doc) (log : t.log = s.log) (largest : t.largest = s.largest) :
    Exact t ↔ SameCounts doc (record s) := by
  constructor
  · intro after
    constructor
    · intro v
      rw [exact.viewers v, ← log, ← after.viewers v, stored]
    · intro v member
      rw [← stored]
      apply after.watched v
      rw [log]
      exact sound.stored.origin v member
    · rw [exact.peak, ← largest, ← after.peak, stored]
  · intro same
    constructor
    · rw [stored]
      exact once
    · intro v
      rw [stored, log, same.viewers v]
      exact exact.viewers v
    · intro v member
      rw [stored]
      rw [log] at member
      exact same.watched v (exact.watched v member)
    · rw [stored, largest, same.peak, exact.peak]

theorem Exact.same (exact : Exact s) (store : t.store = s.store) (log : t.log = s.log) (largest : t.largest = s.largest) :
    Exact t := by
  have stored : record t = record s := congrArg (value _) store
  constructor
  · exact stored ▸ exact.once
  · rw [stored, log]
    exact exact.viewers
  · rw [stored, log]
    exact exact.watched
  · rw [stored, largest]
    exact exact.peak

theorem exact_step (sound : Sound s) (exact : Exact s) (moved : Moved s t action) : Exact t ↔ Undisturbed s action := by
  cases moved with
  | called request moved => exact iff_of_true (exact.same (moved ▸ rfl) (moved ▸ rfl) (moved ▸ rfl)) trivial
  | read here moved => exact iff_of_true (exact.same (moved ▸ rfl) (moved ▸ rfl) (moved ▸ rfl)) trivial
  | missed here refused moved =>
    refine iff_of_true (exact.same (moved ▸ rfl) (moved ▸ rfl) (moved ▸ rfl)) ?_
    intro request attempt doc found
    cases here.symm.trans found
    cases refused
  | wrote here admitted moved =>
    rename_i k request attempt expect doc
    obtain ⟨⟨m, old, changed, seen⟩, blind⟩ := sound.waiting _ _ _ _ _ here
    have stored : record t = doc := by
      rw [moved]
      rfl
    have log : t.log = s.log ++ request.count.toList := moved ▸ rfl
    have largest : t.largest = max s.largest doc.viewerIDs.length := moved ▸ rfl
    cases counts : request.count with
    | none =>
      have any := blind.mpr counts
      obtain ⟨viewers, -, -⟩ := counts_of_change counts changed
      have once : doc.viewerIDs.Nodup := viewers ▸ old.once
      rw [viewers, max_eq_left old.within] at largest
      rw [counts, Option.toList_none, List.append_nil] at log
      rw [exact_blind sound exact once stored log largest]
      constructor
      · intro same other again copy found
        cases here.symm.trans found
        exact same
      · intro undisturbed
        subst any
        exact undisturbed request attempt doc here
    | some count =>
      have versioned : expect ≠ .any := by
        intro any
        have uncounted := blind.mp any
        rw [counts] at uncounted
        cases uncounted
      have current : record s = m := (seen versioned).admitted admitted
      rw [counts] at log
      have counted := counted_of_change counts changed
      rw [← current] at counted
      refine iff_of_true (exact_counted exact counted stored log largest sound.stored.within) ?_
      intro other again copy found
      cases here.symm.trans found
      exact absurd rfl versioned

end Step

/-! ## Every run -/

/-- The counts of a stream are exact along exactly the runs in which each thumbnail or
resolution lands on a record with the counts of its copy. -/
theorem exact_always_iff (streamID streamerID : String) (width height : Nat) (actions : List Action) :
    Always step Exact (start (live streamID streamerID width height)) actions ↔
      EachStep step Undisturbed (start (live streamID streamerID width height)) actions := by
  apply always_iff_eachStep Sound
  · intro s action t sound stepped
    exact sound_step sound (moved_of_step stepped)
  · intro s action t sound exact stepped
    exact exact_step sound exact (moved_of_step stepped)
  · refine ⟨⟨List.nodup_nil, ?_, le_rfl⟩, ?_⟩
    · intro v member
      cases member
    · intro k request attempt expect doc found
      cases found
  · refine ⟨List.nodup_nil, fun v => iff_of_false List.not_mem_nil nofun, fun v member => ?_, rfl⟩
    cases member

/-- A thumbnail reads the record, a viewer is counted in, and the thumbnail is written. -/
def countedUnderThumbnail : List Action :=
  [.call (.StreamThumbnailUpload "host" "thumbnail" "now"), .read 0, .call (.WatchStream "viewer" "host" "stream"), .read 1,
    .write 1, .write 0]

/-- Both calls are done, the viewer was counted in, and the record has no viewer. -/
theorem countedUnderThumbnail_loses :
    (run step (start (live "stream" "host" 0 0)) countedUnderThumbnail).map
        (fun s => (s.calls.map Call.phase, s.log, (record s).viewerIDs)) = some ([.done, .done], [.countIn "viewer"], []) ∧
      ¬Always step Exact (start (live "stream" "host" 0 0)) countedUnderThumbnail := by
  refine ⟨by decide, fun all => ?_⟩
  have exact := (all.last rfl).viewers "viewer"
  exact absurd (exact.mpr (by decide)) List.not_mem_nil

end Mello.Backend.StreamViewers
