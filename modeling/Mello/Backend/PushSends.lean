import Mello.Library.Runs
import Mello.Library.Tables
import Mello.Library.Versioned
import Mello.Backend.PushQueue

/-!
The calls that queue belt pushes and the flushes that send them. A flush reads the queue,
sends what is due at its own clock reading, and writes what came of it under the version
it read, up to three times. Storage works but for version conflicts.
-/

namespace Mello.Backend.PushSends
open Mello.Library Documents Runs Tables Versioned PushQueue

variable {Event : Type}

/-- An item that was sent to the Worker. -/
structure Push (Event : Type) where
  item : RecapPushItem Event
  time : Int
  accepted : Bool
  deriving DecidableEq, Repr

/-- An item that was dropped, and how often the Worker had rejected it. -/
structure Drop (Event : Type) where
  item : RecapPushItem Event
  nowMs : Int
  rejections : Nat
  deriving DecidableEq, Repr

inductive UpdatePhase (Event : Type) where
  | reading
  | writing (expect : Expect) (base : List (RecapPushItem Event))
  | done
  | failed
  deriving DecidableEq, Repr

structure Update (Event : Type) where
  now : Int
  entries : List (Entry Event)
  attempt : Nat := 0
  phase : UpdatePhase Event := .reading
  deriving DecidableEq, Repr

inductive FlushPhase (Event : Type) where
  | reading
  | clocking (stored : Object (List (RecapPushItem Event)))
  | sending (version : Nat) (base due : List (RecapPushItem Event))
  | writing (version : Nat) (base : List (RecapPushItem Event))
  | rereading
  | done
  deriving DecidableEq, Repr

/-- An immediate flush reads its clock after the queue, the hourly one before. The
outcomes are those that are not stored yet. -/
structure Flush (Event : Type) where
  immediate : Bool
  nowMs : Int
  attempt : Nat := 0
  outcomes : List (Outcome Event) := []
  phase : FlushPhase Event := .reading
  deriving DecidableEq, Repr

/-- `queued` has the events of the writes that took effect, with their members. -/
structure State (Event : Type) where
  clock : Int
  store : Store (List (RecapPushItem Event)) := {}
  updates : List (Update Event) := []
  flushes : List (Flush Event) := []
  queued : List (String × Event) := []
  pushes : List (Push Event) := []
  dropped : List (Drop Event) := []

inductive Action (Event : Type) where
  | tick (now : Int)
  | queueBeltPushes (entries : List (Entry Event))
  | updatePushQueue (j : Nat)
  | flush (immediate : Bool)
  | processPushQueueDoc (k : Nat) (accepted : Bool)
  deriving DecidableEq, Repr

def tell (it : RecapPushItem Event) : List (String × Event) := it.events.map fun event => (it.userID, event)

def tellEntry (entry : Entry Event) : List (String × Event) := entry.events.map fun event => (entry.userID, event)

/-- The rejections of an item since it was begun. -/
def rejections (pushes : List (Push Event)) (it : RecapPushItem Event) : Nat :=
  ((pushes.drop it.since).filter fun p => p.accepted = false ∧ p.item.userID = it.userID).length

def acceptedFor (outcomes : List (Outcome Event)) (userID : String) : Bool :=
  outcomes.any fun o => o.accepted && o.item.userID = userID

/-- What a write of a flush drops. -/
def dropOf (s : State Event) (f : Flush Event) (it : RecapPushItem Event) : Option (Drop Event) :=
  if it.sent = false ∧ (settleItem f.nowMs f.outcomes it).sent = true ∧ acceptedFor f.outcomes it.userID = false then
    some ⟨it, f.nowMs, rejections s.pushes it⟩
  else none

def items (s : State Event) : List (RecapPushItem Event) := value [] s.store

def State.gotoUpdate (s : State Event) (j : Nat) (u : Update Event) : State Event := { s with updates := s.updates.set j u }

def State.gotoFlush (s : State Event) (k : Nat) (f : Flush Event) : State Event := { s with flushes := s.flushes.set k f }

/-- The next read or write of `updatePushQueue`. -/
def advanceUpdate (s : State Event) (j : Nat) (u : Update Event) : Option (State Event) :=
  match u.phase with
  | .reading =>
    let found := take [] s.store.read
    some (s.gotoUpdate j { u with phase := if u.entries = [] then .done else .writing found.2 found.1 })
  | .writing expect base =>
    if s.store.admits expect then
      some { s.gotoUpdate j { u with phase := .done } with
        store := s.store.put (addBeltEvents u.now s.pushes.length u.entries base)
        queued := s.queued ++ u.entries.flatMap tellEntry }
    else some (s.gotoUpdate j
      (if u.attempt + 1 < 3 then { u with attempt := u.attempt + 1, phase := .reading } else { u with phase := .failed }))
  | .done => none
  | .failed => none

/-- A flush with nothing to send and nothing to drop ends. -/
def afterClock (f : Flush Event) (stored : Object (List (RecapPushItem Event))) (nowMs : Int) : Flush Event :=
  let (due, changed) := splitDueRecapPushes nowMs stored.value
  { f with nowMs, phase := if due.isEmpty && !changed then .done else .sending stored.version stored.value due }

/-- The next step of `processPushQueueDoc`, after the read of the queue. -/
def advanceFlush (s : State Event) (k : Nat) (f : Flush Event) (accepted : Bool) : Option (State Event) :=
  match f.phase with
  | .reading =>
    some (s.gotoFlush k { f with phase := match s.store.object with
      | some stored => .clocking stored
      | none => .done })
  | .clocking stored => some (s.gotoFlush k (afterClock f stored (if f.immediate then s.clock else f.nowMs)))
  | .sending version base (it :: due) =>
    some { s.gotoFlush k { f with outcomes := f.outcomes ++ [⟨it, accepted, f.nowMs⟩], phase := .sending version base due } with
      pushes := s.pushes ++ [⟨it, f.nowMs, accepted⟩] }
  | .sending version base [] => some (s.gotoFlush k { f with phase := .writing version base })
  | .writing version base =>
    if s.store.admits (.version version) then
      some { s.gotoFlush k { f with outcomes := [], phase := .done } with
        store := s.store.put (settle f.nowMs f.outcomes base)
        dropped := s.dropped ++ base.filterMap (dropOf s f) }
    else some (s.gotoFlush k { f with phase := .rereading })
  | .rereading =>
    some (s.gotoFlush k (match s.store.object with
      | some stored =>
        if f.attempt + 1 < 3 then { f with attempt := f.attempt + 1, phase := .writing stored.version stored.value }
        else { f with outcomes := [], phase := .done }
      | none => { f with outcomes := [], phase := .done }))
  | .done => none

def step (s : State Event) : Action Event → Option (State Event)
  | .tick now => if s.clock ≤ now then some { s with clock := now } else none
  | .queueBeltPushes entries => some { s with updates := s.updates ++ [{ now := s.clock, entries }] }
  | .updatePushQueue j =>
    match s.updates[j]? with
    | some u => advanceUpdate s j u
    | none => none
  | .flush immediate => some { s with flushes := s.flushes ++ [{ immediate, nowMs := s.clock }] }
  | .processPushQueueDoc k accepted =>
    match s.flushes[k]? with
    | some f => advanceFlush s k f accepted
    | none => none

/-! ## The law -/

/-- The outcomes that no flush has stored yet. -/
def flying (s : State Event) : List (Outcome Event) := s.flushes.flatMap Flush.outcomes

/-- The events of an item that is pending and was not accepted. -/
def waitingOf (flying : List (Outcome Event)) (it : RecapPushItem Event) : List (String × Event) :=
  if it.sent || acceptedFor flying it.userID then [] else tell it

def acceptedPushes (s : State Event) : List (Push Event) := s.pushes.filter Push.accepted

/-- Each queued event is in one accepted push, dropped or waiting; what was dropped was
late or rejected often enough; accepted pushes to a member are apart; and each push goes
at its time, outside of quiet hours. -/
structure Pushed (s : State Event) : Prop where
  conserved : ((acceptedPushes s).flatMap (fun p => tell p.item) ++
    (s.dropped.flatMap (fun d => tell d.item) ++ (items s).flatMap (waitingOf (flying s)))).Perm s.queued
  dropped : ∀ d ∈ s.dropped, Late d.nowMs d.item ∨ recapPushMaxAttempts ≤ d.rejections
  spaced : (acceptedPushes s).Pairwise fun p q => p.item.userID = q.item.userID → p.time + beltPushWindow ≤ q.time
  timely : ∀ p ∈ s.pushes, p.item.sendAtMs ≤ p.time ∧ ¬Quiet p.item.sendAtMs p.item.tz

/-- What a flush sends is stored as it was read, and no flush has sent it and not stored
what came of it. A write drops no item that a flush has sent, and a flush does not give up
what was accepted. -/
def Alone (s : State Event) (f : Flush Event) : Prop :=
  match f.phase with
  | .sending _ _ (it :: _) => it ∈ items s ∧ ∀ o ∈ flying s, o.item.userID ≠ it.userID
  | .writing version _ => s.store.admits (.version version) = true → ∀ it ∈ items s, Late f.nowMs it →
      acceptedFor (flying s) it.userID = false
  | .rereading => f.attempt + 1 < 3 ∨ ∀ o ∈ f.outcomes, o.accepted = false
  | _ => True

/-- Each flush is alone. Events join an item that was not accepted meanwhile, and a sent
item begins again with no rejections and nothing on its way. -/
def Undisturbed (s : State Event) : Action Event → Prop
  | .updatePushQueue j => ∀ u, s.updates[j]? = some u → ∀ expect base, u.phase = .writing expect base →
      s.store.admits expect = true → ∀ entry ∈ u.entries, ∀ it ∈ items s, it.userID = entry.userID →
        (it.sent = true → it.attempts = 0) ∧
          ∀ o ∈ flying s, o.item.userID = it.userID → o.accepted = false ∧ it.sent = false
  | .processPushQueueDoc k _ => ∀ f, s.flushes[k]? = some f → Alone s f
  | _ => True

/-! ## What every item keeps -/

section Items

variable {flying : List (Outcome Event)} {pushes : List (Push Event)} {stock : List (RecapPushItem Event)}
  {it : RecapPushItem Event} {entry : Entry Event} {userID : String}

def rejectedFor (outcomes : List (Outcome Event)) (userID : String) : Nat :=
  (outcomes.filter fun o => o.accepted = false ∧ o.item.userID = userID).length

/-- The items of the queue, beside the pushes and the outcomes on their way. -/
structure Stocked (flying : List (Outcome Event)) (pushes : List (Push Event)) (stock : List (RecapPushItem Event)) : Prop where
  names : (stock.map RecapPushItem.userID).Nodup
  timed : ∀ it ∈ stock, it.sent = false → Timed it
  known : ∀ o ∈ flying, ∃ it ∈ stock, it.userID = o.item.userID
  stored : ∀ o ∈ flying, o.accepted = true → o.item ∈ stock
  begun : ∀ it ∈ stock, it.since ≤ pushes.length
  tried : ∀ it ∈ stock, it.sent = false → it.attempts + rejectedFor flying it.userID ≤ rejections pushes it
  last : ∀ p ∈ pushes, p.accepted = true → ∃ it ∈ stock, it.userID = p.item.userID ∧
    (p.time ≤ it.lastSentMs ∨ ∃ o ∈ flying, o.accepted = true ∧ o.item.userID = p.item.userID ∧ p.time ≤ o.nowMs)

/-- The events of a member may join. -/
def Joinable (flying : List (Outcome Event)) (stock : List (RecapPushItem Event)) (userID : String) : Prop :=
  ∀ it ∈ stock, it.userID = userID → (it.sent = true → it.attempts = 0) ∧
    ∀ o ∈ flying, o.item.userID = it.userID → o.accepted = false ∧ it.sent = false

theorem acceptedFor_eq_false :
    acceptedFor flying userID = false ↔ ∀ o ∈ flying, o.item.userID = userID → o.accepted = false := by
  unfold acceptedFor
  rw [List.any_eq_false]
  apply forall₂_congr
  intro o _
  cases o.accepted <;> simp

theorem acceptedFor_eq_true :
    acceptedFor flying userID = true ↔ ∃ o ∈ flying, o.accepted = true ∧ o.item.userID = userID := by
  unfold acceptedFor
  simp only [List.any_eq_true, Bool.and_eq_true, decide_eq_true_eq]

theorem rejectedFor_eq_zero (none : ∀ o ∈ flying, o.item.userID ≠ userID) : rejectedFor flying userID = 0 := by
  apply List.length_eq_zero_iff.mpr
  apply List.filter_eq_nil_iff.mpr
  intro o member both
  exact none o member (of_decide_eq_true both).2

theorem Stocked.one (stocked : Stocked flying pushes stock) {other : RecapPushItem Event} (member : it ∈ stock)
    (there : other ∈ stock) (same : it.userID = other.userID) : it = other :=
  List.inj_on_of_nodup_map stocked.names member there same

theorem tell_joinItem {now : Int} {count : Nat} (same : it.userID = entry.userID) :
    tell (joinItem now count entry it) = (if it.sent then [] else tell it) ++ tellEntry entry := by
  unfold tell tellEntry joinItem
  dsimp only
  rw [List.map_append, same]
  cases it.sent <;> rfl

/-- The member's item takes the events, and nothing else changes. -/
theorem join_stocked {now : Int} {front back : List (RecapPushItem Event)}
    (stocked : Stocked flying pushes (front ++ it :: back)) (same : it.userID = entry.userID)
    (joinable : Joinable flying (front ++ it :: back) entry.userID) :
    Stocked flying pushes (front ++ joinItem now pushes.length entry it :: back) := by
  have here : it ∈ front ++ it :: back := List.mem_append_right _ List.mem_cons_self
  obtain ⟨fresh, quiet⟩ := joinable it here same
  have cases' : ∀ other ∈ front ++ joinItem now pushes.length entry it :: back,
      other = joinItem now pushes.length entry it ∨ other ∈ front ++ it :: back := by
    intro other member
    rcases List.mem_append.mp member with before | after
    · exact .inr (List.mem_append_left _ before)
    · rcases List.mem_cons.mp after with now | later
      · exact .inl now
      · exact .inr (List.mem_append_right _ (List.mem_cons_of_mem _ later))
  have kept : ∀ other ∈ front ++ it :: back, other ≠ it → other ∈ front ++ joinItem now pushes.length entry it :: back := by
    intro other member apart
    rcases List.mem_append.mp member with before | after
    · exact List.mem_append_left _ before
    · rcases List.mem_cons.mp after with now | later
      · exact absurd now apart
      · exact List.mem_append_right _ (List.mem_cons_of_mem _ later)
  have joined : joinItem now pushes.length entry it ∈ front ++ joinItem now pushes.length entry it :: back :=
    List.mem_append_right _ List.mem_cons_self
  refine ⟨?_, ?_, ?_, ?_, ?_, ?_, ?_⟩
  · have names := stocked.names
    rw [List.map_append, List.map_cons] at names ⊢
    exact names
  · intro other member pending
    rcases cases' other member with rfl | old
    · exact joinItem_timed
    · exact stocked.timed other old pending
  · intro o flies
    obtain ⟨other, member, user⟩ := stocked.known o flies
    by_cases this : other = it
    · subst this
      exact ⟨_, joined, user⟩
    · exact ⟨other, kept other member this, user⟩
  · intro o flies accepted
    apply kept o.item (stocked.stored o flies accepted)
    intro this
    have rejected := (quiet o flies (congrArg _ this)).1
    rw [rejected] at accepted
    cases accepted
  · intro other member
    rcases cases' other member with rfl | old
    · unfold joinItem
      dsimp only
      split_ifs
      · exact le_rfl
      · exact stocked.begun it here
    · exact stocked.begun other old
  · intro other member pending
    rcases cases' other member with rfl | old
    · cases sent : it.sent with
      | true =>
        have none : ∀ o ∈ flying, o.item.userID ≠ it.userID := by
          intro o flies user
          have unsent := (quiet o flies user).2
          rw [sent] at unsent
          cases unsent
        have attempts : (joinItem now pushes.length entry it).attempts = 0 := fresh sent
        change _ + rejectedFor flying it.userID ≤ _
        rw [attempts, rejectedFor_eq_zero none]
        exact Nat.zero_le _
      | false =>
        have tried := stocked.tried it here sent
        unfold rejections at tried ⊢
        unfold joinItem
        dsimp only
        rw [sent]
        exact tried
    · exact stocked.tried other old pending
  · intro p member accepted
    obtain ⟨other, there, user, time⟩ := stocked.last p member accepted
    by_cases this : other = it
    · subst this
      exact ⟨_, joined, user, time⟩
    · exact ⟨other, kept other there this, user, time⟩

/-- A member's first item has the events. -/
theorem new_stocked {now : Int} (stocked : Stocked flying pushes stock) (new : ∀ it ∈ stock, it.userID ≠ entry.userID) :
    Stocked flying pushes (stock ++ [joinItem now pushes.length entry { userID := entry.userID, sent := true }]) := by
  have quiet : ∀ o ∈ flying, o.item.userID ≠ entry.userID := by
    intro o flies user
    obtain ⟨it, member, same⟩ := stocked.known o flies
    exact new it member (same.trans user)
  refine ⟨?_, ?_, ?_, ?_, ?_, ?_, ?_⟩
  · rw [List.map_append]
    apply stocked.names.append (List.nodup_singleton _)
    intro user old last
    obtain ⟨it, member, rfl⟩ := List.mem_map.mp old
    exact new it member (List.mem_singleton.mp last)
  · intro it member pending
    rcases List.mem_append.mp member with old | last
    · exact stocked.timed it old pending
    · rw [List.mem_singleton.mp last]
      exact joinItem_timed
  · intro o flies
    obtain ⟨it, member, user⟩ := stocked.known o flies
    exact ⟨it, List.mem_append_left _ member, user⟩
  · intro o flies accepted
    exact List.mem_append_left _ (stocked.stored o flies accepted)
  · intro it member
    rcases List.mem_append.mp member with old | last
    · exact stocked.begun it old
    · rw [List.mem_singleton.mp last]
      exact le_rfl
  · intro it member pending
    rcases List.mem_append.mp member with old | last
    · exact stocked.tried it old pending
    · rw [List.mem_singleton.mp last]
      change 0 + rejectedFor flying entry.userID ≤ _
      rw [rejectedFor_eq_zero quiet]
      exact Nat.zero_le _
  · intro p member accepted
    obtain ⟨it, there, user, time⟩ := stocked.last p member accepted
    exact ⟨it, List.mem_append_left _ there, user, time⟩

theorem waitingOf_joinItem {now : Int} (same : it.userID = entry.userID)
    (quiet : ∀ o ∈ flying, o.item.userID = it.userID → o.accepted = false ∧ it.sent = false) :
    waitingOf flying (joinItem now pushes.length entry it) = waitingOf flying it ++ tellEntry entry := by
  have waits : acceptedFor flying it.userID = false := acceptedFor_eq_false.mpr fun o flies user => (quiet o flies user).1
  have joined : waitingOf flying (joinItem now pushes.length entry it) = tell (joinItem now pushes.length entry it) := by
    change (if false || acceptedFor flying it.userID then _ else _) = _
    rw [waits]
    rfl
  rw [joined, tell_joinItem same]
  unfold waitingOf
  rw [waits, Bool.or_false]

/-- One member's events: the queue keeps its laws and waits for these events too. -/
theorem addFor_stocked (now : Int) (stocked : Stocked flying pushes stock) (joinable : Joinable flying stock entry.userID) :
    Stocked flying pushes (addFor now pushes.length stock entry) ∧
      ((addFor now pushes.length stock entry).flatMap (waitingOf flying)).Perm
        (stock.flatMap (waitingOf flying) ++ tellEntry entry) := by
  rcases addFor_cases now pushes.length stock entry stocked.names with ⟨front, it, back, rfl, same, made⟩ | ⟨new, made⟩
  · rw [made]
    refine ⟨join_stocked stocked same joinable, ?_⟩
    have quiet := (joinable it (List.mem_append_right _ List.mem_cons_self) same).2
    rw [List.flatMap_append, List.flatMap_append, List.flatMap_cons, List.flatMap_cons, waitingOf_joinItem same quiet,
      List.append_assoc, List.append_assoc, List.append_assoc]
    exact (List.perm_append_comm.append_left _).append_left _
  · rw [made]
    refine ⟨new_stocked stocked new, ?_⟩
    have quiet : ∀ o ∈ flying, o.item.userID = entry.userID → o.accepted = false ∧ true = false := by
      intro o flies user
      obtain ⟨it, member, known⟩ := stocked.known o flies
      exact absurd (known.trans user) (new it member)
    have joined : waitingOf flying (joinItem now pushes.length entry { userID := entry.userID, sent := true }) = tellEntry entry :=
      waitingOf_joinItem rfl quiet
    rw [List.flatMap_append, List.flatMap_singleton, joined]

theorem joinable_addFor {now : Int} {count : Nat} (names : (stock.map RecapPushItem.userID).Nodup)
    (here : Joinable flying stock entry.userID) (joinable : Joinable flying stock userID)
    (known : ∀ o ∈ flying, ∃ it ∈ stock, it.userID = o.item.userID) :
    Joinable flying (addFor now count stock entry) userID := by
  rcases addFor_cases now count stock entry names with ⟨front, it, back, rfl, same, made⟩ | ⟨new, made⟩
  · rw [made]
    intro other member user
    have old : other = joinItem now count entry it ∨ other ∈ front ++ it :: back := by
      rcases List.mem_append.mp member with before | after
      · exact .inr (List.mem_append_left _ before)
      · rcases List.mem_cons.mp after with now | later
        · exact .inl now
        · exact .inr (List.mem_append_right _ (List.mem_cons_of_mem _ later))
    rcases old with rfl | old
    · refine ⟨nofun, fun o flies target => ⟨?_, rfl⟩⟩
      exact ((here it (List.mem_append_right _ List.mem_cons_self) same).2 o flies target).1
    · exact joinable other old user
  · rw [made]
    intro it member user
    rcases List.mem_append.mp member with old | last
    · exact joinable it old user
    · obtain rfl := List.mem_singleton.mp last
      refine ⟨nofun, fun o flies target => ?_⟩
      obtain ⟨other, there, same⟩ := known o flies
      exact absurd (same.trans target) (new other there)

theorem addBeltEvents_stocked (now : Int) (entries : List (Entry Event)) (stocked : Stocked flying pushes stock)
    (joinable : ∀ entry ∈ entries, Joinable flying stock entry.userID) :
    Stocked flying pushes (addBeltEvents now pushes.length entries stock) ∧
      ((addBeltEvents now pushes.length entries stock).flatMap (waitingOf flying)).Perm
        (stock.flatMap (waitingOf flying) ++ entries.flatMap tellEntry) := by
  unfold addBeltEvents
  induction entries generalizing stock with
  | nil =>
    refine ⟨stocked, ?_⟩
    rw [List.flatMap_nil, List.append_nil]
    exact List.Perm.refl _
  | cons entry rest ih =>
    have here := joinable entry List.mem_cons_self
    obtain ⟨added, waits⟩ := addFor_stocked now stocked here
    obtain ⟨kept, all⟩ := ih added fun other member =>
      joinable_addFor stocked.names here (joinable other (List.mem_cons_of_mem _ member)) stocked.known
    refine ⟨kept, ?_⟩
    rw [List.flatMap_cons, ← List.append_assoc]
    exact all.trans (waits.append_right _)

/-! ## What a flush stores -/

variable {outcomes left : List (Outcome Event)} {nowMs : Int}

/-- A flush stores its outcomes, and the others stay on their way. -/
structure Storing (flying outcomes left : List (Outcome Event)) (nowMs : Int) (stock : List (RecapPushItem Event)) : Prop where
  all : flying.Perm (outcomes ++ left)
  names : (flying.map fun o => o.item.userID).Nodup
  own : ∀ o ∈ outcomes, o.nowMs = nowMs ∧ Due nowMs o.item
  later : 0 < nowMs
  spared : ∀ it ∈ stock, Late nowMs it → acceptedFor flying it.userID = false

namespace Storing

variable (storing : Storing flying outcomes left nowMs stock)
include storing

theorem mem {o : Outcome Event} (member : o ∈ outcomes) : o ∈ flying :=
  storing.all.mem_iff.mpr (List.mem_append_left _ member)

theorem left_mem {o : Outcome Event} (member : o ∈ left) : o ∈ flying :=
  storing.all.mem_iff.mpr (List.mem_append_right _ member)

theorem one {o other : Outcome Event} (member : o ∈ flying) (there : other ∈ flying)
    (same : o.item.userID = other.item.userID) : o = other :=
  List.inj_on_of_nodup_map storing.names member there same

theorem own_names : (outcomes.map fun o => o.item.userID).Nodup := by
  have names := (storing.all.map fun o => o.item.userID).nodup_iff.mp storing.names
  rw [List.map_append] at names
  exact (List.nodup_append.mp names).1

theorem apart {o other : Outcome Event} (member : o ∈ outcomes) (there : other ∈ left) :
    o.item.userID ≠ other.item.userID := by
  have names := (storing.all.map fun o => o.item.userID).nodup_iff.mp storing.names
  rw [List.map_append] at names
  exact (List.nodup_append.mp names).2.2 _ (List.mem_map_of_mem member) _ (List.mem_map_of_mem there)

theorem acceptedFor_left (others : ∀ o ∈ outcomes, o.item.userID ≠ userID) :
    acceptedFor left userID = acceptedFor flying userID := by
  apply Bool.eq_iff_iff.mpr
  rw [acceptedFor_eq_true, acceptedFor_eq_true]
  constructor
  · rintro ⟨o, member, both⟩
    exact ⟨o, storing.left_mem member, both⟩
  · rintro ⟨o, member, accepted, user⟩
    rcases List.mem_append.mp (storing.all.mem_iff.mp member) with mine | other
    · exact absurd user (others o mine)
    · exact ⟨o, other, accepted, user⟩

/-- The rejections on their way are the flush's own and the others. -/
theorem rejectedFor_split (userID : String) :
    rejectedFor flying userID = rejectedFor outcomes userID + rejectedFor left userID := by
  unfold rejectedFor
  rw [(storing.all.filter _).length_eq, List.filter_append, List.length_append]

end Storing

theorem rejectedFor_pos {o : Outcome Event} (member : o ∈ outcomes) (rejected : o.accepted = false)
    (user : o.item.userID = userID) : 1 ≤ rejectedFor outcomes userID :=
  List.length_pos_of_mem (List.mem_filter.mpr ⟨member, decide_eq_true ⟨rejected, user⟩⟩)

/-- What a flush makes of an item: nothing, of a sent one; a sent one, of what was
accepted; one more attempt, of what was rejected; and what has no outcome is dropped
when it is late. -/
inductive Settled (flying outcomes : List (Outcome Event)) (nowMs : Int) (it : RecapPushItem Event) :
    RecapPushItem Event → Prop
  | sent (sent : it.sent = true) : Settled flying outcomes nowMs it it
  | accepted (pending : it.sent = false) (mine : acceptedFor outcomes it.userID = true)
      (window : it.lastSentMs ≤ nowMs) :
      Settled flying outcomes nowMs it { it with sent := true, lastSentMs := nowMs, attempts := 0 }
  | rejected {o : Outcome Event} {sent : Bool} {attempts : Nat} (pending : it.sent = false) (member : o ∈ outcomes)
      (rejected : o.accepted = false) (user : o.item.userID = it.userID)
      (tried : attempts ≤ it.attempts + 1)
      (dropped : sent = true → Late nowMs it ∨ recapPushMaxAttempts ≤ it.attempts + 1) :
      Settled flying outcomes nowMs it { it with sent, attempts }
  | alone (pending : it.sent = false) (others : ∀ o ∈ outcomes, o.item.userID ≠ it.userID) :
      Settled flying outcomes nowMs it (dropLate nowMs it)

theorem settled_item (stocked : Stocked flying pushes stock) (storing : Storing flying outcomes left nowMs stock)
    (member : it ∈ stock) : Settled flying outcomes nowMs it (settleItem nowMs outcomes it) := by
  cases sent : it.sent with
  | true =>
    rw [settleItem_of_sent sent]
    exact .sent sent
  | false =>
    rcases settleItem_cases nowMs it storing.own_names with ⟨o, mine, user, made⟩ | ⟨others, made⟩
    · rw [made]
      cases accepted : o.accepted with
      | true =>
        have same : o.item = it := stocked.one (stocked.stored o (storing.mem mine) accepted) member user
        obtain ⟨now, due⟩ := storing.own o mine
        rw [same] at due
        have early : ¬Late nowMs it := fun late => not_lt.mpr due.2.2 late.2.2
        rw [dropLate_of_not_late early]
        have applied : applyOutcome it o = { it with sent := true, lastSentMs := nowMs, attempts := 0 } := by
          unfold applyOutcome applyPushOutcome
          rw [if_pos ⟨sent, user.symm, congrArg _ same.symm⟩, if_pos accepted, now]
        rw [applied]
        refine .accepted sent (acceptedFor_eq_true.mpr ⟨o, mine, accepted, user⟩) ?_
        have later := storing.later
        have window := (stocked.timed it member sent).1
        have sendAt := due.2.1
        unfold beltPushWindow hourMs at window
        omega
      | false =>
        have early : dropLate nowMs it = { it with sent := decide (Late nowMs it) } := by
          unfold dropLate
          split_ifs with late
          · rw [decide_eq_true late]
          · rw [decide_eq_false late, ← sent]
        rw [early]
        unfold applyOutcome applyPushOutcome
        split_ifs with met rejected
        · rw [accepted] at rejected
          cases rejected
        · refine .rejected sent mine accepted user le_rfl fun dropped => ?_
          dsimp only at dropped
          rw [Bool.or_eq_true, decide_eq_true_iff, decide_eq_true_iff] at dropped
          exact dropped
        · refine .rejected sent mine accepted user (Nat.le_succ _) fun dropped => ?_
          exact .inl (of_decide_eq_true dropped)
    · rw [made]
      exact .alone sent others

theorem Settled.same {other : RecapPushItem Event} (settled : Settled flying outcomes nowMs it other) : Same it other := by
  cases settled with
  | sent | accepted | rejected => exact ⟨rfl, rfl, rfl, rfl, rfl⟩
  | alone => exact dropLate_same

theorem dropLate_lastSentMs : (dropLate nowMs it).lastSentMs = it.lastSentMs := by
  unfold dropLate
  split_ifs <;> rfl

theorem dropLate_attempts : (dropLate nowMs it).attempts = it.attempts := by
  unfold dropLate
  split_ifs <;> rfl

theorem dropLate_sent : (dropLate nowMs it).sent = true ↔ it.sent = true ∨ Late nowMs it := by
  unfold dropLate
  split_ifs with late
  · exact iff_of_true rfl (.inr late)
  · exact (or_iff_left late).symm

theorem rejections_same {other : RecapPushItem Event} (same : Same it other) :
    rejections pushes other = rejections pushes it := by
  unfold rejections
  rw [same.since, same.userID]

/-- An item that is pending after a flush was pending before. -/
theorem Settled.pending {other : RecapPushItem Event} (settled : Settled flying outcomes nowMs it other)
    (pending : other.sent = false) : it.sent = false ∧ other.lastSentMs = it.lastSentMs ∧
      other.attempts ≤ it.attempts + rejectedFor outcomes it.userID := by
  cases settled with
  | sent sent =>
    rw [sent] at pending
    cases pending
  | accepted => cases pending
  | rejected before member rejected user tried dropped =>
    exact ⟨before, rfl, tried.trans (Nat.add_le_add_left (rejectedFor_pos member rejected user) _)⟩
  | alone before others =>
    rw [dropLate_attempts]
    exact ⟨before, dropLate_lastSentMs, Nat.le_add_right _ _⟩

theorem Settled.lastSentMs {other : RecapPushItem Event} (settled : Settled flying outcomes nowMs it other) :
    it.lastSentMs ≤ other.lastSentMs := by
  cases settled with
  | sent | rejected => exact le_rfl
  | accepted pending mine window => exact window
  | alone => exact dropLate_lastSentMs.ge

/-- An item with an accepted push that another flush has still to store stays as it is. -/
theorem settleItem_spared {o : Outcome Event} (stocked : Stocked flying pushes stock)
    (storing : Storing flying outcomes left nowMs stock) (member : o ∈ left) (accepted : o.accepted = true) :
    settleItem nowMs outcomes o.item = o.item := by
  have flies := storing.left_mem member
  have there := stocked.stored o flies accepted
  rcases settleItem_cases nowMs o.item storing.own_names with ⟨other, mine, user, -⟩ | ⟨-, made⟩
  · exact absurd user (storing.apart mine member)
  · rw [made]
    apply dropLate_of_not_late
    intro late
    have spared := acceptedFor_eq_false.mp (storing.spared o.item there late) o flies rfl
    rw [accepted] at spared
    cases spared

theorem settle_stocked (stocked : Stocked flying pushes stock) (storing : Storing flying outcomes left nowMs stock) :
    Stocked left pushes (settle nowMs outcomes stock) := by
  have back : ∀ other ∈ settle nowMs outcomes stock, ∃ it ∈ stock, Settled flying outcomes nowMs it other := by
    intro other member
    obtain ⟨it, there, rfl⟩ := List.mem_map.mp member
    exact ⟨it, there, settled_item stocked storing there⟩
  have forth : ∀ it ∈ stock, settleItem nowMs outcomes it ∈ settle nowMs outcomes stock := fun it => List.mem_map_of_mem
  refine ⟨?_, ?_, ?_, ?_, ?_, ?_, ?_⟩
  · have names : (settle nowMs outcomes stock).map RecapPushItem.userID = stock.map RecapPushItem.userID := by
      unfold settle
      rw [List.map_map]
      exact List.map_congr_left fun it _ => settleItem_same.userID
    rw [names]
    exact stocked.names
  · intro other member pending
    obtain ⟨it, there, settled⟩ := back other member
    obtain ⟨before, last, -⟩ := settled.pending pending
    have timed := stocked.timed it there before
    unfold Timed at timed ⊢
    rw [last, settled.same.sendAtMs, settled.same.tz]
    exact timed
  · intro o flies
    obtain ⟨it, there, user⟩ := stocked.known o (storing.left_mem flies)
    exact ⟨_, forth it there, settleItem_same.userID.trans user⟩
  · intro o flies accepted
    have kept := forth o.item (stocked.stored o (storing.left_mem flies) accepted)
    rw [settleItem_spared stocked storing flies accepted] at kept
    exact kept
  · intro other member
    obtain ⟨it, there, settled⟩ := back other member
    rw [settled.same.since]
    exact stocked.begun it there
  · intro other member pending
    obtain ⟨it, there, settled⟩ := back other member
    obtain ⟨before, -, attempts⟩ := settled.pending pending
    have tried := stocked.tried it there before
    rw [storing.rejectedFor_split] at tried
    rw [rejections_same settled.same, settled.same.userID]
    omega
  · intro p member accepted
    obtain ⟨it, there, user, time⟩ := stocked.last p member accepted
    refine ⟨_, forth it there, settleItem_same.userID.trans user, ?_⟩
    have settled := settled_item stocked storing there
    rcases time with before | ⟨o, flies, got, same, early⟩
    · exact .inl (before.trans settled.lastSentMs)
    · rcases List.mem_append.mp (storing.all.mem_iff.mp flies) with mine | other
      · left
        have now := (storing.own o mine).1
        have item : o.item = it := stocked.one (stocked.stored o flies got) there (same.trans user.symm)
        generalize settleItem nowMs outcomes it = after at settled
        cases settled with
        | sent sent =>
          have pending := (storing.own o mine).2.1
          rw [item, sent] at pending
          cases pending
        | accepted => exact early.trans now.le
        | rejected pending member rejected user tried dropped =>
          have one := storing.one (storing.mem member) flies (user.trans (congrArg _ item.symm))
          rw [one, got] at rejected
          cases rejected
        | alone pending others => exact absurd (congrArg _ item) (others o mine)
      · exact .inr ⟨o, other, got, same, early⟩

theorem waitingOf_of_sent (sent : it.sent = true) : waitingOf flying it = [] := by
  unfold waitingOf
  rw [sent]
  rfl

theorem waitingOf_of_away (away : acceptedFor flying it.userID = true) : waitingOf flying it = [] := by
  unfold waitingOf
  rw [away, Bool.or_true]
  rfl

theorem waitingOf_of_pending (pending : it.sent = false) (waits : acceptedFor flying it.userID = false) :
    waitingOf flying it = tell it := by
  unfold waitingOf
  rw [pending, waits]
  rfl

/-- The events that a drop loses. -/
def lost (d : Option (Drop Event)) : List (String × Event) := d.toList.flatMap fun d => tell d.item

/-- What waited of an item is dropped, or waits on. -/
theorem settled_waits {s : State Event} {f : Flush Event} (stocked : Stocked flying pushes stock)
    (storing : Storing flying f.outcomes left f.nowMs stock) (member : it ∈ stock) :
    waitingOf flying it = lost (dropOf s f it) ++ waitingOf left (settleItem f.nowMs f.outcomes it) := by
  have settled := settled_item stocked storing member
  unfold dropOf
  generalize settleItem f.nowMs f.outcomes it = after at settled
  cases settled with
  | sent sent =>
    rw [waitingOf_of_sent sent, waitingOf_of_sent sent, if_neg (by simp [sent])]
    rfl
  | accepted pending mine window =>
    have away : acceptedFor flying it.userID = true := by
      obtain ⟨o, own, accepted⟩ := acceptedFor_eq_true.mp mine
      exact acceptedFor_eq_true.mpr ⟨o, storing.mem own, accepted⟩
    rw [waitingOf_of_away away, if_neg (by simp [mine]), waitingOf_of_sent rfl]
    rfl
  | rejected pending own rejected user tried dropped =>
    rename_i o sent attempts
    have waits : acceptedFor flying it.userID = false := by
      apply acceptedFor_eq_false.mpr
      intro other flies same
      rw [storing.one flies (storing.mem own) (same.trans user.symm)]
      exact rejected
    have unclaimed : acceptedFor f.outcomes it.userID = false :=
      acceptedFor_eq_false.mpr fun other mine => acceptedFor_eq_false.mp waits other (storing.mem mine)
    have free : acceptedFor left it.userID = false :=
      acceptedFor_eq_false.mpr fun other mine => acceptedFor_eq_false.mp waits other (storing.left_mem mine)
    rw [waitingOf_of_pending pending waits]
    cases sent with
    | true =>
      rw [if_pos ⟨pending, rfl, unclaimed⟩, waitingOf_of_sent rfl, List.append_nil]
      exact (List.append_nil _).symm
    | false =>
      have kept : waitingOf left { it with sent := false, attempts } = tell it := waitingOf_of_pending rfl free
      rw [if_neg (by simp), kept]
      rfl
  | alone pending others =>
    have unclaimed : acceptedFor f.outcomes it.userID = false :=
      acceptedFor_eq_false.mpr fun o mine user => absurd user (others o mine)
    by_cases late : Late f.nowMs it
    · have sent : (dropLate f.nowMs it).sent = true := dropLate_sent.mpr (.inr late)
      rw [waitingOf_of_pending pending (storing.spared it member late), if_pos ⟨pending, sent, unclaimed⟩,
        waitingOf_of_sent sent, List.append_nil]
      exact (List.append_nil _).symm
    · rw [dropLate_of_not_late late, if_neg (by simp [pending])]
      unfold waitingOf
      rw [storing.acceptedFor_left others]
      rfl

theorem settle_waits {s : State Event} {f : Flush Event} (stocked : Stocked flying pushes stock)
    (storing : Storing flying f.outcomes left f.nowMs stock) :
    (stock.flatMap (waitingOf flying)).Perm ((stock.filterMap (dropOf s f)).flatMap (fun d => tell d.item) ++
      (settle f.nowMs f.outcomes stock).flatMap (waitingOf left)) := by
  have split : stock.flatMap (waitingOf flying) =
      stock.flatMap fun it => lost (dropOf s f it) ++ waitingOf left (settleItem f.nowMs f.outcomes it) :=
    List.flatMap_congr fun it member => settled_waits stocked storing member
  have drops : stock.flatMap (fun it => lost (dropOf s f it)) = (stock.filterMap (dropOf s f)).flatMap fun d => tell d.item := by
    clear split storing stocked
    induction stock with
    | nil => rfl
    | cons it rest ih =>
      rw [List.flatMap_cons, filterMap_cons_toList, List.flatMap_append, ih]
      rfl
  have kept : (settle f.nowMs f.outcomes stock).flatMap (waitingOf left) =
      stock.flatMap fun it => waitingOf left (settleItem f.nowMs f.outcomes it) := List.flatMap_map _ _ stock
  rw [split, ← drops, kept]
  exact (List.flatMap_append_perm stock _ _).symm

/-- What a flush drops was late, or the Worker had rejected it often enough. -/
theorem dropped_of_dropOf {s : State Event} {f : Flush Event} {d : Drop Event} (stocked : Stocked flying s.pushes stock)
    (storing : Storing flying f.outcomes left f.nowMs stock) (member : it ∈ stock) (dropped : dropOf s f it = some d) :
    Late d.nowMs d.item ∨ recapPushMaxAttempts ≤ d.rejections := by
  have settled := settled_item stocked storing member
  unfold dropOf at dropped
  split_ifs at dropped with sure
  cases dropped
  obtain ⟨before, sent, unclaimed⟩ := sure
  generalize settleItem f.nowMs f.outcomes it = after at settled sent
  cases settled with
  | sent already =>
    rw [before] at already
    cases already
  | accepted pending mine =>
    rw [mine] at unclaimed
    cases unclaimed
  | rejected pending own rejected user tried dropped =>
    rcases dropped sent with late | often
    · exact .inl late
    · right
      have count := stocked.tried it member pending
      have one := rejectedFor_pos (storing.mem own) rejected user
      dsimp only
      omega
  | alone pending others =>
    rcases dropLate_sent.mp sent with already | late
    · rw [pending] at already
      cases already
    · exact .inl late

/-! ## What is sent, and what is forgotten -/

/-- Rejections on their way that no flush will store. -/
theorem acceptedFor_forget {gone : List (Outcome Event)} (all : flying.Perm (gone ++ left))
    (rejected : ∀ o ∈ gone, o.accepted = false) : acceptedFor left userID = acceptedFor flying userID := by
  apply Bool.eq_iff_iff.mpr
  rw [acceptedFor_eq_true, acceptedFor_eq_true]
  constructor
  · rintro ⟨o, member, both⟩
    exact ⟨o, all.mem_iff.mpr (List.mem_append_right _ member), both⟩
  · rintro ⟨o, member, accepted, user⟩
    rcases List.mem_append.mp (all.mem_iff.mp member) with lost | other
    · rw [rejected o lost] at accepted
      cases accepted
    · exact ⟨o, other, accepted, user⟩

theorem forget_waits {gone : List (Outcome Event)} (all : flying.Perm (gone ++ left))
    (rejected : ∀ o ∈ gone, o.accepted = false) :
    stock.flatMap (waitingOf left) = stock.flatMap (waitingOf flying) := by
  apply List.flatMap_congr
  intro it _
  unfold waitingOf
  rw [acceptedFor_forget all rejected]

theorem forget_stocked {gone : List (Outcome Event)} (stocked : Stocked flying pushes stock)
    (all : flying.Perm (gone ++ left)) (rejected : ∀ o ∈ gone, o.accepted = false) : Stocked left pushes stock := by
  have old : ∀ o ∈ left, o ∈ flying := fun o member => all.mem_iff.mpr (List.mem_append_right _ member)
  refine ⟨stocked.names, stocked.timed, fun o flies => stocked.known o (old o flies),
    fun o flies => stocked.stored o (old o flies), stocked.begun, ?_, ?_⟩
  · intro it member pending
    have fewer : rejectedFor left it.userID ≤ rejectedFor flying it.userID := by
      unfold rejectedFor
      rw [(all.filter _).length_eq, List.filter_append, List.length_append]
      exact Nat.le_add_left _ _
    exact (Nat.add_le_add_left fewer _).trans (stocked.tried it member pending)
  · intro p member accepted
    obtain ⟨it, there, user, time⟩ := stocked.last p member accepted
    refine ⟨it, there, user, time.imp_right ?_⟩
    rintro ⟨o, flies, got, same, early⟩
    rcases List.mem_append.mp (all.mem_iff.mp flies) with lost | other
    · rw [rejected o lost] at got
      cases got
    · exact ⟨o, other, got, same, early⟩

theorem rejections_concat {p : Push Event} (begun : it.since ≤ pushes.length) :
    rejections (pushes ++ [p]) it = rejections pushes it +
      if p.accepted = false ∧ p.item.userID = it.userID then 1 else 0 := by
  unfold rejections
  rw [List.drop_append_of_le_length begun, List.filter_append, List.length_append, List.filter_singleton]
  split_ifs with counts
  · rw [decide_eq_true counts]
    rfl
  · rw [decide_eq_false counts]
    rfl

theorem rejectedFor_cons {o : Outcome Event} :
    rejectedFor (o :: flying) userID = rejectedFor flying userID +
      if o.accepted = false ∧ o.item.userID = userID then 1 else 0 := by
  unfold rejectedFor
  rw [List.filter_cons]
  split_ifs with sure counts counts
  · rfl
  · exact absurd (of_decide_eq_true sure) counts
  · exact absurd (decide_eq_true counts) sure
  · rfl

/-- An item is sent, and its outcome is on its way. -/
theorem send_stocked {accepted : Bool} (stocked : Stocked flying pushes stock) (member : it ∈ stock) :
    Stocked (⟨it, accepted, nowMs⟩ :: flying) (pushes ++ [⟨it, nowMs, accepted⟩]) stock := by
  refine ⟨stocked.names, stocked.timed, ?_, ?_, ?_, ?_, ?_⟩
  · intro o flies
    rcases List.mem_cons.mp flies with rfl | old
    · exact ⟨it, member, rfl⟩
    · exact stocked.known o old
  · intro o flies got
    rcases List.mem_cons.mp flies with rfl | old
    · exact member
    · exact stocked.stored o old got
  · intro other there
    rw [List.length_append]
    exact (stocked.begun other there).trans (Nat.le_add_right _ _)
  · intro other there pending
    rw [rejections_concat (stocked.begun other there), rejectedFor_cons, ← Nat.add_assoc]
    exact Nat.add_le_add_right (stocked.tried other there pending) _
  · intro p sent got
    rcases List.mem_append.mp sent with old | new
    · obtain ⟨other, there, user, time⟩ := stocked.last p old got
      refine ⟨other, there, user, time.imp_right ?_⟩
      rintro ⟨o, flies, rest⟩
      exact ⟨o, List.mem_cons_of_mem _ flies, rest⟩
    · obtain rfl := List.mem_singleton.mp new
      exact ⟨it, member, rfl, .inr ⟨_, List.mem_cons_self, got, rfl, le_rfl⟩⟩

/-- The events of an accepted push wait no more. -/
theorem send_waits {accepted : Bool} (stocked : Stocked flying pushes stock) (member : it ∈ stock) (pending : it.sent = false)
    (free : ∀ o ∈ flying, o.item.userID ≠ it.userID) :
    (stock.flatMap (waitingOf flying)).Perm
      ((if accepted then tell it else []) ++ stock.flatMap (waitingOf (⟨it, accepted, nowMs⟩ :: flying))) := by
  have others : ∀ other ∈ stock, other ≠ it →
      waitingOf (⟨it, accepted, nowMs⟩ :: flying) other = waitingOf flying other := by
    intro other there apart
    have user : it.userID ≠ other.userID := fun same => apart (stocked.one there member same.symm)
    unfold waitingOf acceptedFor
    rw [List.any_cons, decide_eq_false user, Bool.and_false, Bool.false_or]
  have waits : acceptedFor flying it.userID = false := acceptedFor_eq_false.mpr fun o flies user => absurd user (free o flies)
  have here : waitingOf flying it =
      (if accepted then tell it else []) ++ waitingOf (⟨it, accepted, nowMs⟩ :: flying) it := by
    rw [waitingOf_of_pending pending waits]
    unfold waitingOf
    have first : acceptedFor (⟨it, accepted, nowMs⟩ :: flying) it.userID = accepted := by
      change (accepted && decide (it.userID = it.userID) || acceptedFor flying it.userID) = accepted
      rw [waits, decide_eq_true rfl, Bool.and_true, Bool.or_false]
    rw [first, pending]
    cases accepted with
    | false => rfl
    | true => exact (List.append_nil _).symm
  obtain ⟨front, back, rfl⟩ := List.append_of_mem member
  have names := stocked.names
  rw [List.map_append, List.map_cons] at names
  have before : front.flatMap (waitingOf (⟨it, accepted, nowMs⟩ :: flying)) = front.flatMap (waitingOf flying) := by
    apply List.flatMap_congr
    intro other there
    apply others other (List.mem_append_left _ there)
    rintro rfl
    exact (List.nodup_append.mp names).2.2 _ (List.mem_map_of_mem there) _ List.mem_cons_self rfl
  have after : back.flatMap (waitingOf (⟨it, accepted, nowMs⟩ :: flying)) = back.flatMap (waitingOf flying) := by
    apply List.flatMap_congr
    intro other there
    apply others other (List.mem_append_right _ (List.mem_cons_of_mem _ there))
    rintro rfl
    exact (List.nodup_cons.mp (List.nodup_append.mp names).2.1).1 (List.mem_map_of_mem there)
  rw [List.flatMap_append, List.flatMap_append, List.flatMap_cons, List.flatMap_cons, before, after, here, List.append_assoc]
  exact List.perm_append_comm_assoc _ _ _

end Items

/-! ## One step -/

section Step

variable {s t : State Event} {action : Action Event} {k : Nat} {f : Flush Event} {u : Update Event}

/-- What a flush knows of the queue and of what it sends. -/
structure FlushSound (store : Store (List (RecapPushItem Event))) (f : Flush Event) : Prop where
  later : 0 < f.nowMs
  own : ∀ o ∈ f.outcomes, o.nowMs = f.nowMs ∧ Due f.nowMs o.item
  phase : match f.phase with
    | .reading => f.outcomes = []
    | .clocking stored => f.outcomes = [] ∧ Seen [] store stored.value (.version stored.version)
    | .sending version base due => Seen [] store base (.version version) ∧ ∀ it ∈ due, Due f.nowMs it
    | .writing version base => Seen [] store base (.version version)
    | .rereading => True
    | .done => True

def UpdateSound (store : Store (List (RecapPushItem Event))) (u : Update Event) : Prop :=
  ∀ expect base, u.phase = .writing expect base → Seen [] store base expect

structure Inv (s : State Event) : Prop where
  clock : 0 < s.clock
  stocked : Stocked (flying s) s.pushes (items s)
  names : ((flying s).map fun o => o.item.userID).Nodup
  times : ∀ p ∈ s.pushes, 0 < p.time
  updates : ∀ u ∈ s.updates, UpdateSound s.store u
  flushes : ∀ f ∈ s.flushes, FlushSound s.store f

/-- The kinds of step of a run that is not disturbed. -/
inductive Moved (s t : State Event) : Action Event → Prop
  | ticked {now : Int} (later : s.clock ≤ now) (moved : t = { s with clock := now }) : Moved s t (.tick now)
  | updates {action : Action Event} {updates : List (Update Event)} (known : ∀ u ∈ updates, UpdateSound s.store u)
      (moved : t = { s with updates }) : Moved s t action
  | joined {j : Nat} {u : Update Event} (here : s.updates[j]? = some u)
      (joinable : ∀ entry ∈ u.entries, Joinable (flying s) (items s) entry.userID)
      (moved : t = { s.gotoUpdate j { u with phase := .done } with
        store := s.store.put (addBeltEvents u.now s.pushes.length u.entries (items s))
        queued := s.queued ++ u.entries.flatMap tellEntry }) : Moved s t (.updatePushQueue j)
  | began {immediate : Bool} (moved : t = { s with flushes := s.flushes ++ [{ immediate, nowMs := s.clock }] }) :
      Moved s t (.flush immediate)
  | still {k : Nat} {accepted : Bool} {f g : Flush Event} (here : s.flushes[k]? = some f) (known : FlushSound s.store g)
      (outcomes : g.outcomes = f.outcomes ∨ (g.outcomes = [] ∧ ∀ o ∈ f.outcomes, o.accepted = false))
      (moved : t = s.gotoFlush k g) : Moved s t (.processPushQueueDoc k accepted)
  | sent {k version : Nat} {accepted : Bool} {f : Flush Event} {base due : List (RecapPushItem Event)}
      {it : RecapPushItem Event} (here : s.flushes[k]? = some f) (member : it ∈ items s) (due' : Due f.nowMs it)
      (free : ∀ o ∈ flying s, o.item.userID ≠ it.userID)
      (known : FlushSound s.store
        { f with outcomes := f.outcomes ++ [⟨it, accepted, f.nowMs⟩], phase := .sending version base due })
      (moved : t = { s.gotoFlush k
          { f with outcomes := f.outcomes ++ [⟨it, accepted, f.nowMs⟩], phase := .sending version base due } with
        pushes := s.pushes ++ [⟨it, f.nowMs, accepted⟩] }) : Moved s t (.processPushQueueDoc k accepted)
  | stored {k : Nat} {accepted : Bool} {f : Flush Event} (here : s.flushes[k]? = some f)
      (spared : ∀ it ∈ items s, Late f.nowMs it → acceptedFor (flying s) it.userID = false)
      (moved : t = { s.gotoFlush k { f with outcomes := [], phase := .done } with
        store := s.store.put (settle f.nowMs f.outcomes (items s))
        dropped := s.dropped ++ (items s).filterMap (dropOf s f) }) : Moved s t (.processPushQueueDoc k accepted)

theorem sound_afterClock {stored : Object (List (RecapPushItem Event))} {nowMs : Int} (none : f.outcomes = [])
    (seen : Seen [] s.store stored.value (.version stored.version)) (later : 0 < nowMs) :
    FlushSound s.store (afterClock f stored nowMs) := by
  unfold afterClock splitDueRecapPushes
  dsimp only
  split_ifs
  · exact ⟨later, none ▸ nofun, trivial⟩
  · refine ⟨later, none ▸ nofun, seen, fun it member => ?_⟩
    exact of_decide_eq_true (List.mem_filter.mp member).2

theorem moved_of_update (inv : Inv s) {j : Nat} (here : s.updates[j]? = some u)
    (undisturbed : Undisturbed s (.updatePushQueue j))
    (stepped : advanceUpdate s j u = some t) : Moved s t (.updatePushQueue j) := by
  have others : ∀ next, UpdateSound s.store next → ∀ other ∈ s.updates.set j next, UpdateSound s.store other := by
    intro next known other member
    rcases mem_set_cases member with rfl | old
    · exact known
    · exact inv.updates other old
  unfold advanceUpdate at stepped
  split at stepped
  · refine .updates (others _ ?_) (Option.some.inj stepped).symm
    intro expect base writing
    dsimp only at writing
    split_ifs at writing
    cases writing
    exact seen_take true
  · rename_i expect base phase
    split_ifs at stepped with admitted again
    · have seen := inv.updates u (List.mem_of_getElem? here) expect base phase
      have current : items s = base := seen.admitted admitted
      refine .joined here ?_ (current ▸ (Option.some.inj stepped).symm)
      intro entry member it stock user
      exact undisturbed u here expect base phase admitted entry member it stock user
    · refine .updates (others _ ?_) (Option.some.inj stepped).symm
      exact nofun
    · refine .updates (others _ ?_) (Option.some.inj stepped).symm
      exact nofun
  · cases stepped
  · cases stepped

theorem moved_of_flush (inv : Inv s) {accepted : Bool} (here : s.flushes[k]? = some f)
    (undisturbed : Undisturbed s (.processPushQueueDoc k accepted)) (stepped : advanceFlush s k f accepted = some t) :
    Moved s t (.processPushQueueDoc k accepted) := by
  have known := inv.flushes f (List.mem_of_getElem? here)
  have undisturbed := undisturbed f here
  unfold Alone at undisturbed
  obtain ⟨later, own, known⟩ := known
  unfold advanceFlush at stepped
  split at stepped
  · rename_i phase
    rw [phase] at known
    refine .still here ?_ ?_ (Option.some.inj stepped).symm
    · refine ⟨later, own, ?_⟩
      cases read : s.store.object with
      | none => trivial
      | some stored => exact ⟨known, seen_found read⟩
    · exact .inl rfl
  · rename_i stored phase
    rw [phase] at known
    refine .still here ?_ ?_ (Option.some.inj stepped).symm
    · apply sound_afterClock known.1 known.2
      split_ifs
      · exact inv.clock
      · exact later
    · left
      unfold afterClock
      rfl
  · rename_i version base it due phase
    rw [phase] at known undisturbed
    refine .sent here undisturbed.1 (known.2 it List.mem_cons_self) undisturbed.2 ⟨later, ?_, known.1, ?_⟩
      (Option.some.inj stepped).symm
    · intro o member
      rcases List.mem_append.mp member with old | new
      · exact own o old
      · rw [List.mem_singleton.mp new]
        exact ⟨rfl, known.2 it List.mem_cons_self⟩
    · exact fun other member => known.2 other (List.mem_cons_of_mem _ member)
  · rename_i version base phase
    rw [phase] at known
    refine .still here ?_ ?_ (Option.some.inj stepped).symm
    · exact ⟨later, own, known.1⟩
    · exact .inl rfl
  · rename_i version base phase
    rw [phase] at known undisturbed
    split_ifs at stepped with admitted
    · have current : items s = base := known.admitted admitted
      exact .stored here (undisturbed admitted) (current ▸ (Option.some.inj stepped).symm)
    · refine .still here ?_ ?_ (Option.some.inj stepped).symm
      · exact ⟨later, own, trivial⟩
      · exact .inl rfl
  · rename_i phase
    rw [phase] at undisturbed
    cases read : s.store.object with
    | none =>
      have gone : ∀ o ∈ f.outcomes, o.accepted = false := by
        intro o member
        obtain ⟨it, there, -⟩ := inv.stocked.known o (List.mem_flatMap.mpr ⟨f, List.mem_of_getElem? here, member⟩)
        unfold items value at there
        rw [read] at there
        cases there
      rw [read] at stepped
      refine .still here ?_ ?_ (Option.some.inj stepped).symm
      · exact ⟨later, nofun, trivial⟩
      · exact .inr ⟨rfl, gone⟩
    | some stored =>
      rw [read] at stepped
      dsimp only at stepped
      split_ifs at stepped with again
      · refine .still here ?_ ?_ (Option.some.inj stepped).symm
        · exact ⟨later, own, seen_found read⟩
        · exact .inl rfl
      · refine .still here ?_ ?_ (Option.some.inj stepped).symm
        · exact ⟨later, nofun, trivial⟩
        · exact .inr ⟨rfl, undisturbed.resolve_left again⟩
  · cases stepped

theorem moved_of_step (inv : Inv s) (undisturbed : Undisturbed s action) (stepped : step s action = some t) :
    Moved s t action := by
  cases action with
  | tick now =>
    rw [step] at stepped
    split_ifs at stepped with later
    exact .ticked later (Option.some.inj stepped).symm
  | queueBeltPushes entries =>
    refine .updates (fun u member => ?_) (Option.some.inj stepped).symm
    rcases List.mem_append.mp member with old | new
    · exact inv.updates u old
    · rw [List.mem_singleton.mp new]
      exact nofun
  | updatePushQueue j =>
    rw [step] at stepped
    split at stepped
    · rename_i u here
      exact moved_of_update inv here undisturbed stepped
    · cases stepped
  | flush immediate => exact .began (Option.some.inj stepped).symm
  | processPushQueueDoc k accepted =>
    rw [step] at stepped
    split at stepped
    · rename_i f here
      exact moved_of_flush inv here undisturbed stepped
    · cases stepped

/-! ## The invariant -/

theorem flying_gotoFlush (here : s.flushes[k]? = some f) (g : Flush Event) :
    (f.outcomes ++ flying (s.gotoFlush k g)).Perm (g.outcomes ++ flying s) := flatMap_set_perm Flush.outcomes here g

/-- What a flush and an update know stays true when another call writes. -/
theorem UpdateSound.put {store : Store (List (RecapPushItem Event))} {doc : List (RecapPushItem Event)}
    (known : UpdateSound store u) : UpdateSound (store.put doc) u :=
  fun expect base writing => (known expect base writing).put doc

theorem FlushSound.put {store : Store (List (RecapPushItem Event))} {doc : List (RecapPushItem Event)}
    (known : FlushSound store f) : FlushSound (store.put doc) f := by
  obtain ⟨later, own, phase⟩ := known
  refine ⟨later, own, ?_⟩
  cases at_ : f.phase with
  | reading | rereading | done =>
    rw [at_] at phase
    exact phase
  | clocking stored =>
    rw [at_] at phase
    exact ⟨phase.1, phase.2.put doc⟩
  | sending version base due =>
    rw [at_] at phase
    exact ⟨phase.1.put doc, phase.2⟩
  | writing version base =>
    rw [at_] at phase
    exact phase.put doc

/-- The outcomes that a flush forgets were rejections. -/
theorem forgotten (here : s.flushes[k]? = some f) {g : Flush Event}
    (outcomes : g.outcomes = f.outcomes ∨ (g.outcomes = [] ∧ ∀ o ∈ f.outcomes, o.accepted = false)) :
    ∃ gone : List (Outcome Event), (∀ o ∈ gone, o.accepted = false) ∧ (flying s).Perm (gone ++ flying (s.gotoFlush k g)) := by
  have moved := flying_gotoFlush here g
  rcases outcomes with same | ⟨empty, rejected⟩
  · rw [same] at moved
    exact ⟨[], nofun, ((List.perm_append_left_iff f.outcomes).mp moved).symm⟩
  · rw [empty, List.nil_append] at moved
    exact ⟨f.outcomes, rejected, moved.symm⟩

theorem flying_began {g : Flush Event} (empty : g.outcomes = []) :
    flying { s with flushes := s.flushes ++ [g] } = flying s := by
  unfold flying
  rw [List.flatMap_append, List.flatMap_singleton, empty, List.append_nil]

theorem flying_sent (here : s.flushes[k]? = some f) (it : RecapPushItem Event) (accepted : Bool) (phase : FlushPhase Event) :
    (flying (s.gotoFlush k { f with outcomes := f.outcomes ++ [⟨it, accepted, f.nowMs⟩], phase })).Perm
      (⟨it, accepted, f.nowMs⟩ :: flying s) := by
  have moved := flying_gotoFlush here { f with outcomes := f.outcomes ++ [⟨it, accepted, f.nowMs⟩], phase }
  rw [List.append_assoc] at moved
  exact (List.perm_append_left_iff f.outcomes).mp moved

theorem gotoFlush_sound (inv : Inv s) {g : Flush Event} (known : FlushSound s.store g) :
    ∀ other ∈ s.flushes.set k g, FlushSound s.store other := by
  intro other member
  rcases mem_set_cases member with rfl | old
  · exact known
  · exact inv.flushes other old

/-- What a flush stores, and what stays on its way. -/
theorem Inv.storing (inv : Inv s) (here : s.flushes[k]? = some f) {g : Flush Event} (empty : g.outcomes = [])
    (spared : ∀ it ∈ items s, Late f.nowMs it → acceptedFor (flying s) it.userID = false) :
    Storing (flying s) f.outcomes (flying (s.gotoFlush k g)) f.nowMs (items s) := by
  have moved := flying_gotoFlush here g
  rw [empty, List.nil_append] at moved
  have known := inv.flushes f (List.mem_of_getElem? here)
  exact ⟨moved.symm, inv.names, known.own, known.later, spared⟩

theorem inv_step (inv : Inv s) (moved : Moved s t action) : Inv t := by
  cases moved with
  | ticked later moved =>
    subst moved
    exact ⟨inv.clock.trans_le later, inv.stocked, inv.names, inv.times, inv.updates, inv.flushes⟩
  | updates known moved =>
    subst moved
    exact ⟨inv.clock, inv.stocked, inv.names, inv.times, known, inv.flushes⟩
  | joined here joinable moved =>
    rename_i j u
    subst moved
    refine ⟨inv.clock, (addBeltEvents_stocked u.now u.entries inv.stocked joinable).1, inv.names, inv.times, ?_, ?_⟩
    · intro other member
      rcases mem_set_cases member with rfl | old
      · exact nofun
      · exact (inv.updates other old).put
    · exact fun f member => (inv.flushes f member).put
  | began moved =>
    rename_i immediate
    subst moved
    have flies : flying { s with flushes := s.flushes ++ [{ immediate, nowMs := s.clock }] } = flying s := flying_began rfl
    refine ⟨inv.clock, ?_, ?_, inv.times, inv.updates, ?_⟩
    · rw [flies]
      exact inv.stocked
    · rw [flies]
      exact inv.names
    · intro f member
      rcases List.mem_append.mp member with old | new
      · exact inv.flushes f old
      · rw [List.mem_singleton.mp new]
        exact ⟨inv.clock, nofun, rfl⟩
  | still here known outcomes moved =>
    rename_i k accepted f g
    subst moved
    obtain ⟨gone, rejected, all⟩ := forgotten here outcomes
    have names := (all.map fun o => o.item.userID).nodup_iff.mp inv.names
    rw [List.map_append] at names
    exact ⟨inv.clock, forget_stocked inv.stocked all rejected, (List.nodup_append.mp names).2.1, inv.times, inv.updates,
      gotoFlush_sound inv known⟩
  | sent here member due free known moved =>
    rename_i k version accepted f base rest it
    subst moved
    have flies := flying_sent here it accepted (.sending version base rest)
    refine ⟨inv.clock, ?_, ?_, ?_, inv.updates, gotoFlush_sound inv known⟩
    · exact forget_stocked (send_stocked inv.stocked member) (show List.Perm _ ([] ++ _) from flies.symm) nofun
    · refine (flies.map fun o => o.item.userID).nodup_iff.mpr (List.nodup_cons.mpr ⟨?_, inv.names⟩)
      intro known
      obtain ⟨o, flies, user⟩ := List.mem_map.mp known
      exact free o flies user
    · intro p member
      rcases List.mem_append.mp member with old | new
      · exact inv.times p old
      · rw [List.mem_singleton.mp new]
        exact (inv.flushes f (List.mem_of_getElem? here)).later
  | stored here spared moved =>
    rename_i k accepted f
    subst moved
    have storing := inv.storing here (g := { f with outcomes := [], phase := .done }) rfl spared
    have names := (storing.all.map fun o => o.item.userID).nodup_iff.mp inv.names
    rw [List.map_append] at names
    refine ⟨inv.clock, settle_stocked inv.stocked storing, (List.nodup_append.mp names).2.1, inv.times, ?_, ?_⟩
    · exact fun u member => (inv.updates u member).put
    · intro g member
      rcases mem_set_cases member with rfl | old
      · exact ⟨(inv.flushes f (List.mem_of_getElem? here)).later, nofun, trivial⟩
      · exact (inv.flushes g old).put

theorem acceptedPushes_concat (pushes : List (Push Event)) (p : Push Event) :
    (pushes ++ [p]).filter Push.accepted = pushes.filter Push.accepted ++ if p.accepted then [p] else [] := by
  rw [List.filter_append, List.filter_singleton]
  cases p.accepted <;> rfl

/-- An accepted push goes after the window of the accepted pushes before it. -/
theorem sent_spaced (inv : Inv s) {it : RecapPushItem Event} {nowMs : Int} (member : it ∈ items s) (due : Due nowMs it)
    (free : ∀ o ∈ flying s, o.item.userID ≠ it.userID) {p : Push Event} (before : p ∈ acceptedPushes s)
    (user : p.item.userID = it.userID) : p.time + beltPushWindow ≤ nowMs := by
  obtain ⟨pushed, accepted⟩ := List.mem_filter.mp before
  obtain ⟨other, there, same, time⟩ := inv.stocked.last p pushed accepted
  obtain rfl := inv.stocked.one there member (same.trans user)
  rcases time with last | ⟨o, flies, -, same, -⟩
  · have first := inv.times p pushed
    have window := (inv.stocked.timed other member due.1).1 (first.trans_le last)
    have sendAt := due.2.1
    omega
  · exact absurd (same.trans user) (free o flies)

theorem pushed_step (inv : Inv s) (law : Pushed s) (moved : Moved s t action) : Pushed t := by
  cases moved with
  | ticked later moved =>
    subst moved
    exact ⟨law.conserved, law.dropped, law.spaced, law.timely⟩
  | updates known moved =>
    subst moved
    exact ⟨law.conserved, law.dropped, law.spaced, law.timely⟩
  | joined here joinable moved =>
    rename_i j u
    subst moved
    refine ⟨?_, law.dropped, law.spaced, law.timely⟩
    have waits := (addBeltEvents_stocked u.now u.entries inv.stocked joinable).2
    have queued := law.conserved.append_right (u.entries.flatMap tellEntry)
    rw [List.append_assoc, List.append_assoc] at queued
    exact ((waits.append_left _).append_left _).trans queued
  | began moved =>
    rename_i immediate
    subst moved
    have flies : flying { s with flushes := s.flushes ++ [{ immediate, nowMs := s.clock }] } = flying s := flying_began rfl
    refine ⟨?_, law.dropped, law.spaced, law.timely⟩
    rw [flies]
    exact law.conserved
  | still here known outcomes moved =>
    subst moved
    obtain ⟨gone, rejected, all⟩ := forgotten here outcomes
    have waits : (items s).flatMap _ = _ := forget_waits all rejected
    refine ⟨?_, law.dropped, law.spaced, law.timely⟩
    have conserved := law.conserved
    rw [← waits] at conserved
    exact conserved
  | sent here member due free known moved =>
    rename_i k version accepted f base rest it
    subst moved
    have flies := flying_sent here it accepted (.sending version base rest)
    have sends : List.Perm ((items s).flatMap (waitingOf (flying s))) ((if accepted then tell it else []) ++
        (items s).flatMap (waitingOf (⟨it, accepted, f.nowMs⟩ :: flying s))) := send_waits inv.stocked member due.1 free
    have waits := forget_waits (show List.Perm _ ([] ++ _) from flies.symm) nofun ▸ sends
    have pushes := acceptedPushes_concat s.pushes ⟨it, f.nowMs, accepted⟩
    refine ⟨?_, law.dropped, ?_, ?_⟩
    · unfold acceptedPushes
      rw [pushes, List.flatMap_append, List.append_assoc]
      refine List.Perm.trans (.append_left _ ?_) law.conserved
      refine (List.perm_append_comm_assoc _ _ _).trans (.append_left _ ?_)
      have told : (if accepted then [(⟨it, f.nowMs, accepted⟩ : Push Event)] else []).flatMap (fun p => tell p.item) =
          if accepted then tell it else [] := by
        cases accepted with
        | false => rfl
        | true => exact List.flatMap_singleton _ _
      rw [told]
      exact waits.symm
    · unfold acceptedPushes
      rw [pushes]
      refine List.pairwise_append.mpr ⟨law.spaced, ?_, ?_⟩
      · cases accepted with
        | false => exact .nil
        | true => exact List.pairwise_singleton _ _
      · intro p before q last user
        cases accepted with
        | false => cases last
        | true =>
          obtain rfl := List.mem_singleton.mp last
          exact sent_spaced inv member due free before user
    · intro p sent
      rcases List.mem_append.mp sent with old | new
      · exact law.timely p old
      · rw [List.mem_singleton.mp new]
        exact ⟨due.2.1, (inv.stocked.timed it member due.1).2⟩
  | stored here spared moved =>
    rename_i k accepted f
    subst moved
    have storing := inv.storing here (g := { f with outcomes := [], phase := .done }) rfl spared
    refine ⟨?_, ?_, law.spaced, law.timely⟩
    · have waits := settle_waits (s := s) (f := f) inv.stocked storing
      refine List.Perm.trans (.append_left _ ?_) law.conserved
      rw [List.flatMap_append, List.append_assoc]
      exact waits.symm.append_left _
    · intro d member
      rcases List.mem_append.mp member with old | new
      · exact law.dropped d old
      · obtain ⟨it, there, dropped⟩ := List.mem_filterMap.mp new
        exact dropped_of_dropOf inv.stocked storing there dropped

end Step

/-! ## Every run -/

/-- In a run that is not disturbed each queued event is in one accepted push, dropped or
waiting, and the accepted pushes to a member are spaced and timely. -/
theorem pushed_always {clock : Int} (later : 0 < clock) (actions : List (Action Event))
    (undisturbed : EachStep step Undisturbed { clock } actions) : Always step Pushed { clock } actions := by
  have all : Always step (fun s : State Event => Inv s ∧ Pushed s) { clock } actions := by
    refine always_of_eachStep ?_ ⟨?_, ?_⟩ actions undisturbed
    · rintro s action t ⟨inv, law⟩ met stepped
      have moved := moved_of_step inv met stepped
      exact ⟨inv_step inv moved, pushed_step inv law moved⟩
    · exact ⟨later, ⟨List.nodup_nil, nofun, nofun, nofun, nofun, nofun, nofun⟩, List.nodup_nil, nofun, nofun, nofun⟩
    · exact ⟨List.Perm.refl _, nofun, .nil, nofun⟩
  exact all.imp fun s both => both.2

/-- A second before 09:00. -/
def morning : Int := 9 * hourMs - 1000

/-- An event waits for the end of the quiet hours, and a flush sends it. -/
def oneSent : List (Action String) :=
  [.queueBeltPushes [⟨"member", ["first"], none⟩], .updatePushQueue 0, .updatePushQueue 0, .tick (9 * hourMs), .flush true] ++
    List.replicate 5 (.processPushQueueDoc 0 true)

theorem oneSent_pushed : Always step Pushed { clock := morning } oneSent ∧
    (run step { clock := morning } oneSent).map (fun s => (s.queued, s.pushes.map fun p => (p.time, p.accepted))) =
      some ([("member", "first")], [(9 * hourMs, true)]) := by
  refine ⟨pushed_always (by decide) oneSent ?_, by decide⟩
  have quiet : ∀ {s : State String} {f : Flush String}, s.flushes[0]? = some f → Alone s f →
      Undisturbed s (.processPushQueueDoc 0 true) := by
    intro s f here met other found
    cases here.symm.trans found
    exact met
  have sends : ∀ {s : State String} {f : Flush String} {version : Nat} {base due : List (RecapPushItem String)}
      {it : RecapPushItem String}, f.phase = .sending version base (it :: due) → it ∈ items s →
      (∀ o ∈ flying s, o.item.userID ≠ it.userID) → Alone s f := by
    intro s f version base due it phase stored free
    unfold Alone
    rw [phase]
    exact ⟨stored, free⟩
  have writes : ∀ {s : State String} {f : Flush String} {version : Nat} {base : List (RecapPushItem String)},
      f.phase = .writing version base → (∀ it ∈ items s, ¬Late f.nowMs it) → Alone s f := by
    intro s f version base phase early
    unfold Alone
    rw [phase]
    exact fun _ it member late => absurd late (early it member)
  have reads : Undisturbed { clock := morning, updates := [{ now := morning, entries := [⟨"member", ["first"], none⟩] }] }
      (.updatePushQueue 0) := by
    intro u here expect base writing
    cases here
    cases writing
  refine .cons rfl trivial (.cons rfl reads (.cons rfl ?_ (.cons rfl trivial (.cons rfl trivial ?_))))
  · intro u here expect base writing admitted entry member it stored
    cases here
    cases stored
  · refine .cons rfl (quiet rfl trivial) (.cons rfl (quiet rfl trivial) (.cons rfl (quiet rfl ?_) ?_))
    · exact sends rfl (by decide) (by decide)
    · exact .cons rfl (quiet rfl trivial) (.cons rfl (quiet rfl (writes rfl (by decide))) trivial)

/-- A second event joins the item while the flush sends it. -/
def joinsSent : List (Action String) :=
  [.queueBeltPushes [⟨"member", ["first"], none⟩], .updatePushQueue 0, .updatePushQueue 0,
    .queueBeltPushes [⟨"member", ["second"], none⟩], .tick (9 * hourMs), .flush true] ++
    List.replicate 3 (.processPushQueueDoc 0 true) ++ [.updatePushQueue 1, .updatePushQueue 1] ++
    List.replicate 4 (.processPushQueueDoc 0 true)

/-- The second event was not sent, not dropped, and does not wait. -/
theorem joinsSent_loses : (run step { clock := morning } joinsSent).map (fun s => (s.queued, (acceptedPushes s).map fun p =>
      p.item.events, s.dropped, (items s).map RecapPushItem.sent)) =
        some ([("member", "first"), ("member", "second")], [["first"]], [], [true]) ∧
    ¬Always step Pushed { clock := morning } joinsSent := by
  refine ⟨by decide, fun all => ?_⟩
  have conserved := (all.last rfl).conserved.length_eq
  revert conserved
  decide

end Mello.Backend.PushSends
