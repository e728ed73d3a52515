import Mello.Library.Runs
import Mello.Library.Tables

/-!
A store of one document with a version, and clients that read it, change it and
write it back under the version they read, each a bounded number of times. Any
number of clients interleave, and each read and write may fail. The writes that
the store took are logged. A client that read nothing names no version, and the
store takes such a write always: these are the only writes that can undo another.
-/

namespace Mello.Library.Documents
open Runs Tables

variable {Request Time Doc Answer : Type*}

/-! ## The store -/

/-- What a write asks of the stored version. -/
inductive Expect where
  | any
  | absent
  | version (v : Nat)
  deriving DecidableEq, Repr

structure Object (Doc : Type*) where
  version : Nat
  value : Doc
  deriving DecidableEq, Repr

/-- `fresh` is above every version given so far. -/
structure Store (Doc : Type*) where
  object : Option (Object Doc) := none
  fresh : Nat := 0
  bounded : ∀ stored, object = some stored → stored.version < fresh := by simp

inductive Read (Doc : Type*) where
  | failed
  | absent
  | found (stored : Object Doc)

namespace Store

def read (store : Store Doc) : Read Doc :=
  match store.object with
  | some stored => .found stored
  | none => .absent

def admits (store : Store Doc) : Expect → Bool
  | .any => true
  | .absent => store.object.isNone
  | .version v => (store.object.map Object.version) == some v

def put (store : Store Doc) (doc : Doc) : Store Doc where
  object := some ⟨store.fresh, doc⟩
  fresh := store.fresh + 1
  bounded := by
    intro stored same
    cases same
    exact Nat.lt_succ_self _

/-- A write that the store refuses, or that fails, leaves the store as it is. -/
def write (store : Store Doc) (expect : Expect) (doc : Doc) (works : Bool) : Option (Store Doc) :=
  if works && store.admits expect then some (store.put doc) else none

theorem write_eq_some {store next : Store Doc} {expect : Expect} {doc : Doc} {works : Bool} :
    store.write expect doc works = some next ↔ works = true ∧ store.admits expect = true ∧ next = store.put doc := by
  unfold write
  cases works <;> cases store.admits expect <;> simp [eq_comm]

theorem write_eq_none {store : Store Doc} {expect : Expect} {doc : Doc} (refused : store.write expect doc true = none) :
    store.admits expect = false := by
  cases admitted : store.admits expect with
  | false => rfl
  | true =>
    rw [write_eq_some.mpr ⟨rfl, admitted, rfl⟩] at refused
    cases refused

end Store

/-! ## The clients -/

/-- `take` gives the document to change and what the write asks for; `modify`
changes the document, or answers without a write. -/
structure Client (Request Time Doc Answer : Type*) where
  attempts : Nat
  empty : Doc
  take : Read Doc → Doc × Expect
  modify : Request → Time → Doc → Except Answer Doc
  take_failed : take .failed = (empty, .any)
  take_absent : take .absent = (empty, .any)
  take_found : ∀ stored, take (.found stored) = (stored.value, .version stored.version)

inductive Phase (Time Doc Answer : Type*) where
  | reading
  | writing (now : Time) (expect : Expect) (doc : Doc)
  | wrote
  | answered (answer : Answer)
  | gaveUp

structure Call (Request Time Doc Answer : Type*) where
  request : Request
  attempt : Nat := 0
  phase : Phase Time Doc Answer := .reading

/-- The log holds the call, its request and its time, write by write; `latest`
is the latest time that a call took. -/
structure State (Request Time Doc Answer : Type*) where
  store : Store Doc
  latest : Time
  calls : List (Call Request Time Doc Answer) := []
  log : List (Nat × Request × Time) := []

inductive Action (Request Time : Type*) where
  | call (request : Request)
  | read (k : Nat) (now : Time) (works : Bool)
  | write (k : Nat) (works : Bool)

namespace Client

variable (client : Client Request Time Doc Answer)

def current (store : Store Doc) : Doc :=
  match store.object with
  | some stored => stored.value
  | none => client.empty

def afterRead (request : Request) (now : Time) (read : Read Doc) : Phase Time Doc Answer :=
  match client.modify request now (client.take read).1 with
  | .ok doc => .writing now (client.take read).2 doc
  | .error answer => .answered answer

def retry (call : Call Request Time Doc Answer) : Call Request Time Doc Answer :=
  if call.attempt + 1 < client.attempts then { call with attempt := call.attempt + 1, phase := .reading }
  else { call with phase := .gaveUp }

variable [LinearOrder Time]

def step (s : State Request Time Doc Answer) : Action Request Time → Option (State Request Time Doc Answer)
  | .call request => some { s with calls := s.calls ++ [{ request }] }
  | .read k now works =>
    match s.calls[k]? with
    | some call =>
      match call.phase with
      | .reading =>
        let phase := client.afterRead call.request now (if works then s.store.read else .failed)
        some { s with latest := max s.latest now, calls := s.calls.set k { call with phase } }
      | _ => none
    | none => none
  | .write k works =>
    match s.calls[k]? with
    | some call =>
      match call.phase with
      | .writing now expect doc =>
        match s.store.write expect doc works with
        | some store =>
          some { s with
            store, calls := s.calls.set k { call with phase := .wrote }, log := s.log ++ [(k, call.request, now)] }
        | none => some { s with calls := s.calls.set k (client.retry call) }
      | _ => none
    | none => none

end Client

/-! ## Where a document comes from -/

section Documents

variable {client : Client Request Time Doc Answer}

theorem current_put (store : Store Doc) (doc : Doc) : client.current (store.put doc) = doc := rfl

/-- Where a document that waits to be written comes from: of the version it
names, or of the empty document. -/
inductive Made (client : Client Request Time Doc Answer) (store : Store Doc) (request : Request) (now : Time)
    (doc : Doc) : Expect → Prop
  | current (stored : Object Doc) (given : stored.version < store.fresh)
      (same : ∀ other, store.object = some other → other.version = stored.version → other = stored)
      (modified : client.modify request now stored.value = .ok doc) :
      Made client store request now doc (.version stored.version)
  | blind (modified : client.modify request now client.empty = .ok doc) : Made client store request now doc .any

/-- A version is given once, so a write under it finds the document it read. -/
theorem Made.put {store : Store Doc} {request : Request} {now : Time} {doc : Doc} {expect : Expect}
    (made : Made client store request now doc expect) (other : Doc) :
    Made client (store.put other) request now doc expect := by
  cases made with
  | blind modified => exact .blind modified
  | current stored given same modified =>
    refine .current stored (Nat.lt_succ_of_lt given) ?_ modified
    intro found here version
    obtain rfl := Option.some.inj here
    exact absurd version.symm given.ne

theorem Made.admitted {store : Store Doc} {request : Request} {now : Time} {doc : Doc} {expect : Expect}
    (made : Made client store request now doc expect) (admitted : store.admits expect = true) :
    client.modify request now (client.current store) = .ok doc ∨
      (expect = .any ∧ client.modify request now client.empty = .ok doc) := by
  cases made with
  | blind modified => exact .inr ⟨rfl, modified⟩
  | current stored given same modified =>
    left
    unfold Store.admits at admitted
    rw [beq_iff_eq] at admitted
    obtain ⟨other, here, version⟩ := Option.map_eq_some_iff.mp admitted
    obtain rfl := same other here version
    unfold Client.current
    rw [here]
    exact modified

theorem made_afterRead {store : Store Doc} {request : Request} {now later : Time} {works : Bool} {doc : Doc}
    {expect : Expect}
    (phase : client.afterRead request now (if works then store.read else .failed) = .writing later expect doc) :
    later = now ∧ Made client store request now doc expect := by
  unfold Client.afterRead at phase
  cases modified : client.modify request now (client.take (if works then store.read else .failed)).1 with
  | error answer =>
    rw [modified] at phase
    cases phase
  | ok made =>
    rw [modified] at phase
    cases phase
    refine ⟨rfl, ?_⟩
    cases works with
    | false =>
      simp only [Bool.false_eq_true, if_false, client.take_failed] at modified ⊢
      exact .blind modified
    | true =>
      simp only [if_true] at modified ⊢
      cases here : store.object with
      | none =>
        simp only [Store.read, here, client.take_absent] at modified ⊢
        exact .blind modified
      | some stored =>
        simp only [Store.read, here, client.take_found] at modified ⊢
        refine .current stored (store.bounded stored here) ?_ modified
        intro other found _
        exact Option.some.inj (found.symm.trans here)

end Documents

/-! ## One after the other -/

section Replay

variable {View : Type*} (view : Doc → View) (grow : Request → Time → View → Except Answer View)

def grown (request : Request) (now : Time) (seen : View) : View :=
  match grow request now seen with
  | .ok next => next
  | .error _ => seen

/-- What the logged requests make of the first view, one after the other. -/
def replay (start : View) (log : List (Nat × Request × Time)) : View :=
  log.foldl (fun seen entry => grown grow entry.2.1 entry.2.2 seen) start

theorem replay_concat (start : View) (log : List (Nat × Request × Time)) (entry : Nat × Request × Time) :
    replay grow start (log ++ [entry]) = grown grow entry.2.1 entry.2.2 (replay grow start log) := by
  unfold replay
  rw [List.foldl_append]
  rfl

def Sequential (client : Client Request Time Doc Answer) (start : View) (s : State Request Time Doc Answer) : Prop :=
  view (client.current s.store) = replay grow start s.log

end Replay

/-! ## What a step does -/

section Steps

variable {client : Client Request Time Doc Answer} [LinearOrder Time]
variable {s t : State Request Time Doc Answer} {action : Action Request Time}

/-- The four kinds of step. -/
inductive Moved (client : Client Request Time Doc Answer) (s t : State Request Time Doc Answer) :
    Action Request Time → Prop
  | called (request : Request) (moved : t = { s with calls := s.calls ++ [{ request }] }) :
      Moved client s t (.call request)
  | read {k : Nat} {call : Call Request Time Doc Answer} (now : Time) (works : Bool)
      (here : s.calls[k]? = some call) (phase : call.phase = .reading)
      (moved : t = { s with
        latest := max s.latest now
        calls := s.calls.set k { call with
          phase := client.afterRead call.request now (if works then s.store.read else .failed) } }) :
      Moved client s t (.read k now works)
  | wrote {k : Nat} {call : Call Request Time Doc Answer} {now : Time} {expect : Expect} {doc : Doc}
      (here : s.calls[k]? = some call) (phase : call.phase = .writing now expect doc)
      (admitted : s.store.admits expect = true)
      (moved : t = { s with
        store := s.store.put doc
        calls := s.calls.set k { call with phase := .wrote }
        log := s.log ++ [(k, call.request, now)] }) :
      Moved client s t (.write k true)
  | missed {k : Nat} {call : Call Request Time Doc Answer} {now : Time} {expect : Expect} {doc : Doc} (works : Bool)
      (here : s.calls[k]? = some call) (phase : call.phase = .writing now expect doc)
      (moved : t = { s with calls := s.calls.set k (client.retry call) }) :
      Moved client s t (.write k works)

theorem moved_of_step (stepped : client.step s action = some t) : Moved client s t action := by
  cases action with
  | call request => exact .called request (Option.some.inj stepped).symm
  | read k now works =>
    unfold Client.step at stepped
    cases here : s.calls[k]? with
    | none => simp [here] at stepped
    | some call =>
      cases phase : call.phase <;> simp only [here, phase, reduceCtorEq, Option.some.injEq] at stepped
      exact .read now works here phase stepped.symm
  | write k works =>
    unfold Client.step at stepped
    cases here : s.calls[k]? with
    | none => simp [here] at stepped
    | some call =>
      cases phase : call.phase <;> simp only [here, phase, reduceCtorEq] at stepped
      rename_i now expect doc
      cases written : s.store.write expect doc works with
      | none =>
        rw [written] at stepped
        exact .missed works here phase (Option.some.inj stepped).symm
      | some store =>
        obtain ⟨rfl, admitted, rfl⟩ := Store.write_eq_some.mp written
        rw [written] at stepped
        exact .wrote here phase admitted (Option.some.inj stepped).symm

theorem latest_mono (stepped : client.step s action = some t) : s.latest ≤ t.latest := by
  cases moved_of_step stepped with
  | called request moved | wrote here phase admitted moved | missed works here phase moved => rw [moved]
  | read now works here phase moved =>
    rw [moved]
    exact le_max_left _ _

/-- A call is logged once, when it wrote, with its request. -/
structure Accounted (s : State Request Time Doc Answer) : Prop where
  once : (s.log.map Prod.fst).Nodup
  logged : ∀ (k : Nat) (call : Call Request Time Doc Answer),
    s.calls[k]? = some call → call.phase = .wrote → ∃ now, (k, call.request, now) ∈ s.log
  origin : ∀ entry ∈ s.log, ∃ call : Call Request Time Doc Answer,
    s.calls[entry.1]? = some call ∧ call.phase = .wrote ∧ call.request = entry.2.1

/-- What holds of every run: besides, each document that waits was made of what
its call read, at a time not later than the latest. -/
structure Sound (client : Client Request Time Doc Answer) (s : State Request Time Doc Answer) : Prop
    extends Accounted s where
  waiting : ∀ (k : Nat) (call : Call Request Time Doc Answer) (now : Time) (expect : Expect) (doc : Doc),
    s.calls[k]? = some call → call.phase = .writing now expect doc →
      now ≤ s.latest ∧ Made client s.store call.request now doc expect

theorem sound_start (store : Store Doc) (latest : Time) :
    Sound client { store, latest : State Request Time Doc Answer } where
  waiting := fun k call now expect doc here => by simp at here
  once := List.nodup_nil
  logged := fun k call here => by simp at here
  origin := fun entry none => nomatch none

/-- A call that moves between two phases, none of them the last. -/
theorem Sound.move (sound : Sound client s) {k : Nat} {call : Call Request Time Doc Answer} {latest : Time}
    (here : s.calls[k]? = some call) (later : s.latest ≤ latest) (before : call.phase ≠ .wrote)
    (next : Call Request Time Doc Answer) (after : next.phase ≠ .wrote)
    (made : ∀ now expect doc, next.phase = .writing now expect doc →
      now ≤ latest ∧ Made client s.store next.request now doc expect) :
    Sound client { s with latest, calls := s.calls.set k next } where
  waiting := by
    intro j other now expect doc found phase
    rcases getElem?_set_cases found with ⟨-, rfl⟩ | ⟨-, found⟩
    · exact made now expect doc phase
    · obtain ⟨early, old⟩ := sound.waiting j other now expect doc found phase
      exact ⟨early.trans later, old⟩
  once := sound.once
  logged := by
    intro j other found wrote
    rcases getElem?_set_cases found with ⟨-, rfl⟩ | ⟨-, found⟩
    · exact absurd wrote after
    · exact sound.logged j other found wrote
  origin := by
    intro entry member
    obtain ⟨other, found, wrote, request⟩ := sound.origin entry member
    refine ⟨other, ?_, wrote, request⟩
    rw [List.getElem?_set_ne, found]
    intro same
    rw [same, found] at here
    exact before (Option.some.inj here ▸ wrote)

theorem Sound.call (sound : Sound client s) (request : Request) :
    Sound client { s with calls := s.calls ++ [{ request }] } where
  waiting := by
    intro k other now expect doc found phase
    rcases getElem?_concat_cases found with found | ⟨-, rfl⟩
    · exact sound.waiting k other now expect doc found phase
    · cases phase
  once := sound.once
  logged := by
    intro k other found wrote
    rcases getElem?_concat_cases found with found | ⟨-, rfl⟩
    · exact sound.logged k other found wrote
    · cases wrote
  origin := by
    intro entry member
    obtain ⟨other, found, wrote, same⟩ := sound.origin entry member
    refine ⟨other, ?_, wrote, same⟩
    rw [List.getElem?_append_left (lt_length found), found]

theorem Sound.wrote (sound : Sound client s) {k : Nat} {call : Call Request Time Doc Answer} {now : Time}
    {expect : Expect} {doc : Doc} (here : s.calls[k]? = some call) (phase : call.phase = .writing now expect doc) :
    Sound client { s with
      store := s.store.put doc
      calls := s.calls.set k { call with phase := .wrote }
      log := s.log ++ [(k, call.request, now)] } := by
  have first : ∀ entry ∈ s.log, k ≠ entry.1 := by
    intro entry member same
    obtain ⟨other, found, wrote, -⟩ := sound.origin entry member
    rw [← same, here] at found
    obtain rfl := Option.some.inj found
    rw [phase] at wrote
    cases wrote
  refine ⟨⟨?_, ?_, ?_⟩, ?_⟩
  · rw [List.map_append, List.nodup_append]
    refine ⟨sound.once, List.nodup_singleton _, ?_⟩
    intro j old l new same
    obtain ⟨entry, member, rfl⟩ := List.mem_map.mp old
    obtain rfl := List.mem_singleton.mp new
    exact first entry member same.symm
  · intro j other found wrote
    rcases getElem?_set_cases found with ⟨rfl, rfl⟩ | ⟨-, found⟩
    · exact ⟨now, List.mem_append_right _ (List.mem_singleton_self _)⟩
    · obtain ⟨time, member⟩ := sound.logged j other found wrote
      exact ⟨time, List.mem_append_left _ member⟩
  · intro entry member
    rcases List.mem_append.mp member with old | new
    · obtain ⟨other, found, wrote, request⟩ := sound.origin entry old
      exact ⟨other, by rw [List.getElem?_set_ne (first entry old), found], wrote, request⟩
    · obtain rfl := List.mem_singleton.mp new
      exact ⟨_, List.getElem?_set_self (lt_length here), rfl, rfl⟩
  · intro j other later expect' doc' found waits
    rcases getElem?_set_cases found with ⟨-, rfl⟩ | ⟨-, found⟩
    · cases waits
    · obtain ⟨early, old⟩ := sound.waiting j other later expect' doc' found waits
      exact ⟨early, old.put doc⟩

theorem sound_step (sound : Sound client s) (stepped : client.step s action = some t) : Sound client t := by
  cases moved_of_step stepped with
  | called request moved =>
    rw [moved]
    exact sound.call request
  | read now works here phase moved =>
    rw [moved]
    apply sound.move here (le_max_left _ _) (by simp [phase])
    · intro wrote
      unfold Client.afterRead at wrote
      dsimp only at wrote
      split at wrote <;> cases wrote
    · intro later expect doc waiting
      obtain ⟨rfl, made⟩ := made_afterRead waiting
      exact ⟨le_max_right _ _, made⟩
  | missed works here phase moved =>
    rw [moved]
    apply sound.move here le_rfl (by simp [phase])
    · unfold Client.retry
      split <;> simp
    · intro now expect doc waiting
      unfold Client.retry at waiting
      split at waiting <;> cases waiting
  | wrote here phase admitted moved =>
    rw [moved]
    exact sound.wrote here phase

/-- What a step does to the document: nothing, or what one call makes of the
stored document, or of the empty one when its write names no version. -/
inductive Effect (client : Client Request Time Doc Answer) (s t : State Request Time Doc Answer) : Prop
  | still (store : t.store = s.store) (log : t.log = s.log)
  | made {k : Nat} {call : Call Request Time Doc Answer} {now : Time} {doc : Doc} (early : now ≤ s.latest)
      (latest : t.latest = s.latest) (store : t.store = s.store.put doc) (log : t.log = s.log ++ [(k, call.request, now)])
      (modified : client.modify call.request now (client.current s.store) = .ok doc)

/-- A write that names no version, and is about to be taken. -/
structure Blind (s : State Request Time Doc Answer) (action : Action Request Time) (k : Nat)
    (call : Call Request Time Doc Answer) (now : Time) (doc : Doc) : Prop where
  write : action = .write k true
  here : s.calls[k]? = some call
  phase : call.phase = .writing now .any doc

theorem blind_step (sound : Sound client s) (stepped : client.step s action = some t) {k : Nat}
    {call : Call Request Time Doc Answer} {now : Time} {doc : Doc} (blind : Blind s action k call now doc) :
    now ≤ s.latest ∧ t.latest = s.latest ∧ t.store = s.store.put doc ∧
      t.log = s.log ++ [(k, call.request, now)] ∧ client.modify call.request now client.empty = .ok doc := by
  obtain ⟨rfl, here, phase⟩ := blind
  obtain ⟨early, made⟩ := sound.waiting k call now .any doc here phase
  unfold Client.step Store.write Store.admits at stepped
  simp only [here, phase, Bool.and_true, if_true, Option.some.injEq] at stepped
  rw [← stepped]
  cases made with
  | blind modified => exact ⟨early, rfl, rfl, rfl, modified⟩

theorem effect_of_step (sound : Sound client s) (stepped : client.step s action = some t) :
    (∃ k call now doc, Blind s action k call now doc) ∨ Effect client s t := by
  cases moved_of_step stepped with
  | called request moved => exact .inr (.still (by rw [moved]) (by rw [moved]))
  | read now works here phase moved => exact .inr (.still (by rw [moved]) (by rw [moved]))
  | missed works here phase moved => exact .inr (.still (by rw [moved]) (by rw [moved]))
  | wrote here phase admitted moved =>
    obtain ⟨early, made⟩ := sound.waiting _ _ _ _ _ here phase
    rcases made.admitted admitted with modified | ⟨rfl, -⟩
    · exact .inr (.made early (by rw [moved]) (by rw [moved]) (by rw [moved]) modified)
    · exact .inl ⟨_, _, _, _, rfl, here, phase⟩

section Sequential

variable {View : Type*} (view : Doc → View)

/-- A write that names no version finds a document that shows what the empty one does. -/
def Vacant (client : Client Request Time Doc Answer) (s : State Request Time Doc Answer)
    (action : Action Request Time) : Prop :=
  ∀ k call now doc, Blind s action k call now doc → view (client.current s.store) = view client.empty

variable {view} {grow : Request → Time → View → Except Answer View}

theorem sequential_step (acts : ∀ request now doc next, client.modify request now doc = .ok next →
      grow request now (view doc) = .ok (view next))
    {start : View} (sound : Sound client s) (sequential : Sequential view grow client start s)
    (stepped : client.step s action = some t) (vacant : Vacant view client s action) :
    Sequential view grow client start t := by
  have append : ∀ {k : Nat} {call : Call Request Time Doc Answer} {now : Time} {doc : Doc},
      t.store = s.store.put doc → t.log = s.log ++ [(k, call.request, now)] →
      grow call.request now (view (client.current s.store)) = .ok (view doc) →
      Sequential view grow client start t := by
    intro k call now doc store log made
    unfold Sequential at sequential ⊢
    rw [store, log, current_put, replay_concat, ← sequential]
    change view doc = grown grow call.request now (view (client.current s.store))
    rw [grown, made]
  rcases effect_of_step sound stepped with ⟨k, call, now, doc, blind⟩ | effect
  · obtain ⟨-, -, store, log, modified⟩ := blind_step sound stepped blind
    apply append store log
    rw [vacant k call now doc blind]
    exact acts _ _ _ _ modified
  · cases effect with
    | still store log =>
      unfold Sequential at sequential ⊢
      rw [store, log, sequential]
    | made early latest store log modified => exact append store log (acts _ _ _ _ modified)

/-- Any run whose blind writes find nothing to undo. -/
theorem sequential_always (acts : ∀ request now doc next, client.modify request now doc = .ok next →
      grow request now (view doc) = .ok (view next))
    {start : View} (actions : List (Action Request Time)) (sound : Sound client s)
    (sequential : Sequential view grow client start s)
    (vacant : EachStep client.step (Vacant view client) s actions) :
    Always client.step (fun s => Sequential view grow client start s ∧ Accounted s) s actions := by
  have both : Always client.step (fun s => Sequential view grow client start s ∧ Sound client s) s actions := always_of_eachStep
    (fun s action t holds met stepped =>
      ⟨sequential_step acts holds.2 holds.1 stepped met, sound_step holds.2 stepped⟩) ⟨sequential, sound⟩ actions vacant
  exact both.imp fun s holds => ⟨holds.1, holds.2.toAccounted⟩

end Sequential

end Steps

end Mello.Library.Documents
