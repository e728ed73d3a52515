import Mello.Library.Runs
import Mello.Backend.PushCoalesce

/-!
The limiter in front of the mention pushes. A submit and a flush lock it, read the clock and change the
state of one user; a push that they release goes out after the lock. The time of a push is the one that
the limiter keeps for it. Times are in nanoseconds and counters do not overflow.
-/

namespace Mello.Backend.MentionPushes
open Mello.Library Keyed Runs PushCoalesce

def pushLimiterSweepAt : Nat := 1000

/-- The longest duration, which is also the one since the zero time. -/
def maxDuration : Int := 2 ^ 63 - 1

/-- The last push is at the zero time when there was none. -/
structure UserPushState where
  lastSent : Option Int := none
  held : Table String HeldMention := ∅
  flushDue : Bool := false
  heldTotal : Nat := 0

structure PushLimiter where
  window : Int
  users : Table String UserPushState := ∅
  seq : Nat := 0

def sinceLast (now : Int) (st : UserPushState) : Int := st.lastSent.elim maxDuration fun last => now - last

/-- Nothing is held, and the last push is the window ago. -/
def Quiet (window now : Int) (st : UserPushState) : Bool := !st.flushDue && sinceLast now st ≥ window

def sweepLocked (l : PushLimiter) (now : Int) : Table String UserPushState :=
  if l.users.entries.length < pushLimiterSweepAt then l.users
  else filterValues (fun st => !Quiet l.window now st) l.users

def stateOf (users : Table String UserPushState) (userID : String) : UserPushState := (users.lookup userID).getD {}

/-- The alert goes out, or is held, and perhaps a flush is set after a wait. -/
inductive Outcome where
  | pushed
  | held (after : Option Int)

def UserPushState.hold (st : UserPushState) (a : PushAlert) (seq : Nat) : UserPushState :=
  { st with held := PushCoalesce.hold st.held a seq, heldTotal := st.heldTotal + 1, flushDue := true }

def submit (l : PushLimiter) (now : Int) (userID : String) (a : PushAlert) : PushLimiter × Outcome :=
  let users := sweepLocked l now
  let st := stateOf users userID
  if Quiet l.window now st then
    ({ l with users := users.insert userID { st with lastSent := some now } }, .pushed)
  else
    let seq := l.seq + 1
    let wait := l.window - sinceLast now st
    ({ l with users := users.insert userID (st.hold a seq), seq }, .held (if st.flushDue then none else some wait))

def flush (l : PushLimiter) (now : Int) (userID : String) : PushLimiter × Option PushAlert :=
  match l.users.lookup userID with
  | none => (l, none)
  | some st =>
    if st.flushDue then
      let alert := coalesceHeld st.held
      let lastSent := if alert.isSome then some now else st.lastSent
      ({ l with users := l.users.insert userID { st with held := ∅, heldTotal := 0, flushDue := false, lastSent } }, alert)
    else (l, none)

/-! ## Runs -/

/-- A mention that was submitted, with its number. -/
structure Mention where
  id : Nat
  userID : String
  alert : PushAlert
  deriving DecidableEq, Repr

/-- A push and the mentions that it stands for. -/
structure Push where
  userID : String
  alert : PushAlert
  time : Int
  mentions : List Mention
  deriving DecidableEq, Repr

structure Timer where
  userID : String
  due : Int
  deriving DecidableEq, Repr

/-- The limiter, its timers, and what became of the mentions. -/
structure State where
  limiter : PushLimiter
  clock : Int
  timers : List Timer := []
  submitted : List Mention := []
  waiting : List Mention := []
  released : List Push := []
  flying : List Push := []
  sent : List Push := []

inductive Action where
  | submit (now : Int) (userID : String) (a : PushAlert)
  | fire (now : Int) (i : Nat)
  | send (i : Nat)
  deriving DecidableEq, Repr

def waitsFor (s : State) (userID : String) : List Mention := s.waiting.filter (·.userID = userID)

def release (s : State) (p : Push) : State := { s with released := s.released ++ [p], flying := s.flying ++ [p] }

def afterSubmit (s : State) (now : Int) (userID : String) (a : PushAlert) : State :=
  let m : Mention := { id := s.submitted.length, userID, alert := a }
  let (limiter, outcome) := submit s.limiter now userID a
  let s := { s with limiter, clock := now, submitted := s.submitted ++ [m] }
  match outcome with
  | .pushed => release s { userID, alert := a, time := now, mentions := [m] }
  | .held after =>
    { s with waiting := s.waiting ++ [m], timers := s.timers ++ (after.map fun wait => ⟨userID, now + wait⟩).toList }

/-- The timer is gone, and a push of the flush stands for all that was held for the user. -/
def afterFlush (s : State) (now : Int) (i : Nat) (userID : String) : State :=
  let (limiter, alert) := flush s.limiter now userID
  let fired := { s with limiter, clock := now, timers := s.timers.eraseIdx i }
  match alert with
  | none => fired
  | some alert =>
    release { fired with waiting := s.waiting.filter (·.userID ≠ userID) }
      { userID, alert, time := now, mentions := waitsFor s userID }

def step (s : State) : Action → Option State
  | .submit now userID a => if s.clock ≤ now then some (afterSubmit s now userID a) else none
  | .fire now i =>
    s.timers[i]?.bind fun t => if s.clock ≤ now ∧ t.due ≤ now then some (afterFlush s now i t.userID) else none
  | .send i => s.flying[i]?.map fun p => { s with flying := s.flying.eraseIdx i, sent := s.sent ++ [p] }

/-! ## What is claimed -/

def timesOf (s : State) (userID : String) : List Int := (s.released.filter (·.userID = userID)).map Push.time

structure Limited (s : State) : Prop where
  spaced : ∀ userID, (timesOf s userID).Pairwise fun earlier later => earlier + s.limiter.window ≤ later
  ids : s.submitted.map Mention.id = List.range s.submitted.length
  once : (s.released.flatMap Push.mentions ++ s.waiting).Perm s.submitted
  pending : ∀ m ∈ s.waiting, ∃ st, s.limiter.users.lookup m.userID = some st ∧ st.flushDue = true ∧
    Holds s.limiter.seq ((waitsFor s m.userID).map Mention.alert) st.held ∧ ∃ t ∈ s.timers, t.userID = m.userID
  stands : ∀ p ∈ s.released, (∀ m ∈ p.mentions, m.userID = p.userID) ∧ digest (p.mentions.map Mention.alert) = some p.alert
  shown : ∀ p ∈ s.released, 2 ≤ p.mentions.length → p.mentions.length < 2 ^ 63 → Shows p.alert.body p.mentions.length
  kept : ∀ now userID st, s.limiter.users.lookup userID = some st → st.heldTotal ≠ 0 ∨ values st.held ≠ [] →
    (sweepLocked s.limiter now).lookup userID = some st
  sent : (s.sent ++ s.flying).Perm s.released

/-! ## One user -/

/-- What the state of a user says about the mentions that wait and the times of the pushes. -/
structure UserSound (window clock : Int) (seq : Nat) (waits : List Mention) (times : List Int) (st : UserPushState) : Prop where
  held : Holds seq (waits.map Mention.alert) st.held
  total : st.heldTotal = waits.length
  due : st.flushDue = true ↔ waits ≠ []
  last : ∀ time ∈ times, time + window ≤ clock ∨ ∃ last, st.lastSent = some last ∧ time ≤ last

variable {window now clock : Int} {seq : Nat} {waits : List Mention} {times : List Int} {st : UserPushState} {userID : String}

theorem UserSound.later (sound : UserSound window clock seq waits times st) {later : Nat} (time : clock ≤ now)
    (order : seq ≤ later) : UserSound window now later waits times st :=
  ⟨holds_later sound.held order, sound.total, sound.due, fun t member => (sound.last t member).imp_left fun le => le.trans time⟩

theorem idle_of_quiet (quiet : Quiet window now st = true) : st.flushDue = false := by
  unfold Quiet at quiet
  rw [Bool.and_eq_true, Bool.not_eq_true'] at quiet
  exact quiet.1

theorem waits_eq_nil (sound : UserSound window clock seq waits times st) (quiet : Quiet window now st = true) : waits = [] := by
  by_contra some
  exact Bool.false_ne_true ((idle_of_quiet quiet).symm.trans (sound.due.mpr some))

/-- A push now is the window behind all others. -/
theorem spaced_of_quiet (sound : UserSound window now seq waits times st) (quiet : Quiet window now st = true) :
    ∀ time ∈ times, time + window ≤ now := by
  intro time member
  rcases sound.last time member with early | ⟨last, found, bound⟩
  · exact early
  · unfold Quiet sinceLast at quiet
    rw [found, Bool.and_eq_true] at quiet
    have gap : now - last ≥ window := of_decide_eq_true quiet.2
    omega

/-- A state that is forgotten says no more than none. -/
theorem sound_of_quiet (sound : UserSound window now seq waits times st) (quiet : Quiet window now st = true) :
    UserSound window now seq waits times {} := by
  obtain rfl := waits_eq_nil sound quiet
  refine ⟨holds_empty seq, rfl, ?_, fun time member => .inl (spaced_of_quiet sound quiet time member)⟩
  exact iff_of_false (by decide) (by simp)

theorem sound_push (sound : UserSound window now seq waits times st) (past : ∀ time ∈ times, time + window ≤ now) :
    UserSound window now seq waits (times ++ [now]) { st with lastSent := some now } := by
  refine ⟨sound.held, sound.total, sound.due, fun time member => ?_⟩
  rcases List.mem_append.mp member with early | own
  · exact .inl (past time early)
  · exact .inr ⟨now, rfl, (List.mem_singleton.mp own).le⟩

theorem sound_hold (sound : UserSound window now seq waits times st) (m : Mention) :
    UserSound window now (seq + 1) (waits ++ [m]) times (st.hold m.alert (seq + 1)) := by
  refine ⟨?_, ?_, iff_of_true rfl (by simp), sound.last⟩
  · rw [List.map_append]
    exact hold_holds sound.held m.alert
  · rw [List.length_append, List.length_singleton, ← sound.total]
    rfl

theorem sound_flush (sound : UserSound window now seq waits times st) (past : ∀ time ∈ times, time + window ≤ now) :
    UserSound window now seq [] (times ++ [now]) { st with held := ∅, heldTotal := 0, flushDue := false, lastSent := some now } := by
  have empty : UserSound window now seq [] times { st with held := ∅, heldTotal := 0, flushDue := false } :=
    ⟨holds_empty seq, rfl, iff_of_false Bool.false_ne_true (by simp), sound.last⟩
  exact sound_push empty past

/-! ## The users' states -/

section Users

variable {users : Table String UserPushState} {l : PushLimiter}

@[simp] theorem stateOf_insert (users : Table String UserPushState) (userID : String) (st : UserPushState) :
    stateOf (users.insert userID st) userID = st := by
  rw [stateOf, AList.lookup_insert]
  rfl

theorem stateOf_insert_ne (users : Table String UserPushState) {userID other : String} (apart : other ≠ userID)
    (st : UserPushState) : stateOf (users.insert userID st) other = stateOf users other := by
  rw [stateOf, AList.lookup_insert_ne apart, stateOf]

theorem lookup_of_due (due : (stateOf users userID).flushDue = true) :
    users.lookup userID = some (stateOf users userID) := by
  unfold stateOf at *
  rcases found : users.lookup userID with _ | st
  · rw [found] at due
    cases due
  · rfl

/-- A sweep forgets users with nothing held and the last push the window ago. -/
theorem lookup_sweep (l : PushLimiter) (now : Int) (userID : String) :
    (sweepLocked l now).lookup userID = l.users.lookup userID ∨
      Quiet l.window now (stateOf l.users userID) = true ∧ (sweepLocked l now).lookup userID = none := by
  unfold sweepLocked
  split_ifs
  · exact .inl rfl
  · rw [lookup_filterValues]
    rcases found : l.users.lookup userID with _ | st
    · exact .inl rfl
    · have here : stateOf l.users userID = st := by rw [stateOf, found, Option.getD_some]
      rw [here]
      by_cases quiet : Quiet l.window now st = true
      · refine .inr ⟨quiet, ?_⟩
        rw [Option.filter_some, if_neg (by simp [quiet])]
      · refine .inl ?_
        rw [Option.filter_some, if_pos (by simp [quiet])]

theorem stateOf_sweep (l : PushLimiter) (now : Int) (userID : String) :
    stateOf (sweepLocked l now) userID = stateOf l.users userID ∨
      Quiet l.window now (stateOf l.users userID) = true ∧ stateOf (sweepLocked l now) userID = {} := by
  rcases lookup_sweep l now userID with same | ⟨quiet, gone⟩
  · exact .inl (by rw [stateOf, same, stateOf])
  · exact .inr ⟨quiet, by rw [stateOf, gone, Option.getD_none]⟩

theorem stateOf_sweep_of_due (due : (stateOf l.users userID).flushDue = true) (now : Int) :
    stateOf (sweepLocked l now) userID = stateOf l.users userID := by
  rcases stateOf_sweep l now userID with same | ⟨quiet, -⟩
  · exact same
  · exact (Bool.false_ne_true ((idle_of_quiet quiet).symm.trans due)).elim

theorem due_of_sweep (due : (stateOf (sweepLocked l now) userID).flushDue = true) :
    (stateOf l.users userID).flushDue = true := by
  rcases stateOf_sweep l now userID with same | ⟨-, gone⟩
  · rw [← same]
    exact due
  · rw [gone] at due
    cases due

theorem sound_sweep (sound : UserSound l.window now seq waits times (stateOf l.users userID)) :
    UserSound l.window now seq waits times (stateOf (sweepLocked l now) userID) := by
  rcases stateOf_sweep l now userID with same | ⟨quiet, gone⟩
  · rw [same]
    exact sound
  · rw [gone]
    exact sound_of_quiet sound quiet

end Users

/-! ## All users -/

/-- Each user's state is sound, and a flush that is due has the one timer of its user, set for the end of
the window. -/
structure Inv (s : State) : Prop where
  users : ∀ userID, UserSound s.limiter.window s.clock s.limiter.seq (waitsFor s userID) (timesOf s userID)
    (stateOf s.limiter.users userID)
  set : ∀ t ∈ s.timers, (stateOf s.limiter.users t.userID).flushDue = true ∧
    ∀ last, (stateOf s.limiter.users t.userID).lastSent = some last → last + s.limiter.window ≤ t.due
  timers : ∀ userID, (stateOf s.limiter.users userID).flushDue = true → ∃ t ∈ s.timers, t.userID = userID
  single : (s.timers.map Timer.userID).Nodup

/-- The pushes that were released, and the mentions that were submitted. -/
structure Logged (s : State) : Prop where
  spaced : ∀ userID, (timesOf s userID).Pairwise fun earlier later => earlier + s.limiter.window ≤ later
  ids : s.submitted.map Mention.id = List.range s.submitted.length
  once : (s.released.flatMap Push.mentions ++ s.waiting).Perm s.submitted
  stands : ∀ p ∈ s.released, (∀ m ∈ p.mentions, m.userID = p.userID) ∧ digest (p.mentions.map Mention.alert) = some p.alert
  sent : (s.sent ++ s.flying).Perm s.released

theorem limited_of_inv {s : State} (inv : Inv s) (logged : Logged s) : Limited s where
  spaced := logged.spaced
  ids := logged.ids
  once := logged.once
  pending m member := by
    have sound := inv.users m.userID
    have waits : waitsFor s m.userID ≠ [] := by
      intro none
      have own : m ∈ waitsFor s m.userID := List.mem_filter.mpr ⟨member, decide_eq_true rfl⟩
      rw [none] at own
      cases own
    have due := sound.due.mpr waits
    exact ⟨_, lookup_of_due due, due, sound.held, inv.timers m.userID due⟩
  stands := logged.stands
  shown p member several counted := by
    obtain ⟨-, same⟩ := logged.stands p member
    rw [← List.length_map (f := Mention.alert)] at several counted ⊢
    exact digest_shows same several counted
  kept now userID st found holding := by
    have here : stateOf s.limiter.users userID = st := by rw [stateOf, found, Option.getD_some]
    have sound := inv.users userID
    rw [here] at sound
    rcases lookup_sweep s.limiter now userID with same | ⟨quiet, -⟩
    · rw [same, found]
    · rw [here] at quiet
      have none := waits_eq_nil sound quiet
      rcases holding with count | crews
      · rw [sound.total, none] at count
        exact absurd rfl count
      · obtain ⟨order, perm, -, -, same⟩ := sound.held.order
        rw [none] at same
        rw [List.map_eq_nil_iff.mp same] at perm
        exact absurd (List.nil_perm.mp perm) crews
  sent := logged.sent

/-- The times of a user after one more push, if it is to them. -/
theorem timesOf_release (s : State) (p : Push) (userID : String) :
    timesOf (release s p) userID = if p.userID = userID then timesOf s userID ++ [p.time] else timesOf s userID := by
  unfold timesOf release
  rw [List.filter_append, List.map_append]
  by_cases own : p.userID = userID <;> simp [own]

/-- A push of mentions that waited or have just come. -/
theorem logged_release {s t : State} {p : Push} (logged : Logged s) (window : t.limiter.window = s.limiter.window)
    (released : t.released = s.released ∧ t.flying = s.flying ∧ t.sent = s.sent)
    (ids : t.submitted.map Mention.id = List.range t.submitted.length)
    (once : (s.released.flatMap Push.mentions ++ (p.mentions ++ t.waiting)).Perm t.submitted)
    (past : ∀ time ∈ timesOf s p.userID, time + s.limiter.window ≤ p.time)
    (stands : (∀ m ∈ p.mentions, m.userID = p.userID) ∧ digest (p.mentions.map Mention.alert) = some p.alert) :
    Logged (release t p) := by
  obtain ⟨pushes, flying, sent⟩ := released
  have times : ∀ userID, timesOf t userID = timesOf s userID := fun userID => by rw [timesOf, pushes, timesOf]
  refine ⟨fun userID => ?_, ids, ?_, fun other member => ?_, ?_⟩
  · have gap : (release t p).limiter.window = s.limiter.window := window
    rw [gap, timesOf_release, times]
    split_ifs with own
    · subst own
      refine List.pairwise_append.mpr ⟨logged.spaced p.userID, List.pairwise_singleton _ _, fun earlier member later last => ?_⟩
      rw [List.mem_singleton.mp last]
      exact past earlier member
    · exact logged.spaced userID
  · rw [release]
    dsimp only
    rw [pushes, List.flatMap_append, List.flatMap_singleton, List.append_assoc]
    exact once
  · rw [release] at member
    dsimp only at member
    rw [pushes] at member
    rcases List.mem_append.mp member with old | new
    · exact logged.stands other old
    · rw [List.mem_singleton.mp new]
      exact stands
  · rw [release]
    dsimp only
    rw [pushes, flying, sent, ← List.append_assoc]
    exact logged.sent.append_right _

/-! ## A submit -/

section Submit

variable {s : State} {userID : String} (a : PushAlert)

def mentionOf (s : State) (userID : String) (a : PushAlert) : Mention := { id := s.submitted.length, userID, alert := a }

theorem afterSubmit_pushed (quiet : Quiet s.limiter.window now (stateOf (sweepLocked s.limiter now) userID) = true) :
    afterSubmit s now userID a =
      release
        { s with
          limiter := { s.limiter with
            users := (sweepLocked s.limiter now).insert userID
              { stateOf (sweepLocked s.limiter now) userID with lastSent := some now } }
          clock := now
          submitted := s.submitted ++ [mentionOf s userID a] }
        { userID, alert := a, time := now, mentions := [mentionOf s userID a] } := by
  unfold afterSubmit submit
  dsimp only
  rw [if_pos quiet]
  rfl

theorem afterSubmit_held (busy : ¬Quiet s.limiter.window now (stateOf (sweepLocked s.limiter now) userID) = true) :
    afterSubmit s now userID a =
      { s with
        limiter := { s.limiter with
          users := (sweepLocked s.limiter now).insert userID
            ((stateOf (sweepLocked s.limiter now) userID).hold a (s.limiter.seq + 1))
          seq := s.limiter.seq + 1 }
        clock := now
        submitted := s.submitted ++ [mentionOf s userID a]
        waiting := s.waiting ++ [mentionOf s userID a]
        timers := s.timers ++ if (stateOf (sweepLocked s.limiter now) userID).flushDue then [] else
          [⟨userID, now + (s.limiter.window - sinceLast now (stateOf (sweepLocked s.limiter now) userID))⟩] } := by
  unfold afterSubmit submit
  dsimp only
  rw [if_neg busy]
  dsimp only
  split_ifs <;> rfl

variable {a}

theorem swept_users (inv : Inv s) (time : s.clock ≤ now) (other : String) :
    UserSound s.limiter.window now s.limiter.seq (waitsFor s other) (timesOf s other)
      (stateOf (sweepLocked s.limiter now) other) :=
  sound_sweep ((inv.users other).later time le_rfl)

theorem inv_pushed (inv : Inv s) (time : s.clock ≤ now)
    (quiet : Quiet s.limiter.window now (stateOf (sweepLocked s.limiter now) userID) = true) :
    Inv (afterSubmit s now userID a) := by
  have idle := idle_of_quiet quiet
  have other : ∀ t ∈ s.timers, t.userID ≠ userID := by
    rintro t member rfl
    rw [stateOf_sweep_of_due (inv.set t member).1, (inv.set t member).1] at idle
    cases idle
  rw [afterSubmit_pushed a quiet]
  refine ⟨fun v => ?_, fun t member => ?_, fun v due => ?_, inv.single⟩
  · have sound := swept_users inv time v
    by_cases own : v = userID
    · subst own
      have next := sound_push sound (spaced_of_quiet sound quiet)
      simpa [timesOf, release, waitsFor] using next
    · simpa [timesOf, release, waitsFor, stateOf_insert_ne _ own, Ne.symm own] using sound
  · have apart := other t member
    have same := stateOf_sweep_of_due (inv.set t member).1 now
    simpa [release, stateOf_insert_ne _ apart, same] using inv.set t member
  · have apart : v ≠ userID := by
      rintro rfl
      rw [release, stateOf_insert] at due
      exact Bool.false_ne_true (idle.symm.trans due)
    rw [release, stateOf_insert_ne _ apart] at due
    exact inv.timers v (due_of_sweep due)

theorem inv_held (inv : Inv s) (time : s.clock ≤ now)
    (busy : ¬Quiet s.limiter.window now (stateOf (sweepLocked s.limiter now) userID) = true) :
    Inv (afterSubmit s now userID a) := by
  rw [afterSubmit_held a busy]
  have old : ∀ t ∈ s.timers, ∀ last, (stateOf (sweepLocked s.limiter now) t.userID).lastSent = some last →
      last + s.limiter.window ≤ t.due := by
    intro t member last found
    rw [stateOf_sweep_of_due (inv.set t member).1] at found
    exact (inv.set t member).2 last found
  have set : ∀ t ∈ s.timers, (stateOf (sweepLocked s.limiter now) t.userID).flushDue = true := fun t member => by
    rw [stateOf_sweep_of_due (inv.set t member).1]
    exact (inv.set t member).1
  refine ⟨fun v => ?_, fun t member => ?_, fun v due => ?_, ?_⟩
  · have sound := swept_users inv time v
    by_cases own : v = userID
    · subst own
      have next := sound_hold sound (mentionOf s v a)
      simpa [timesOf, waitsFor, mentionOf] using next
    · have next := sound.later le_rfl (Nat.le_succ s.limiter.seq)
      simpa [timesOf, waitsFor, mentionOf, stateOf_insert_ne _ own, Ne.symm own] using next
  · rcases List.mem_append.mp member with member | new
    · by_cases own : t.userID = userID
      · rw [own, stateOf_insert]
        exact ⟨rfl, fun last found => old t member last (own ▸ found)⟩
      · rw [stateOf_insert_ne _ own]
        exact ⟨set t member, old t member⟩
    · split_ifs at new
      · cases new
      · obtain rfl := List.mem_singleton.mp new
        dsimp only
        rw [stateOf_insert]
        refine ⟨rfl, fun last found => ?_⟩
        have since : sinceLast now (stateOf (sweepLocked s.limiter now) userID) = now - last := by
          rw [sinceLast]
          exact congrArg (fun lastSent => Option.elim lastSent maxDuration fun last => now - last) found
        rw [since]
        omega
  · dsimp only at due ⊢
    by_cases waits : (stateOf (sweepLocked s.limiter now) v).flushDue = true
    · obtain ⟨t, member, own⟩ := inv.timers v (due_of_sweep waits)
      exact ⟨t, List.mem_append_left _ member, own⟩
    · by_cases own : v = userID
      · subst own
        rw [if_neg waits]
        exact ⟨_, List.mem_append_right _ (List.mem_singleton_self _), rfl⟩
      · rw [stateOf_insert_ne _ own] at due
        exact absurd due waits
  · dsimp only
    split_ifs with waits
    · rw [List.append_nil]
      exact inv.single
    · rw [List.map_append, List.map_singleton]
      refine List.nodup_append.mpr ⟨inv.single, List.nodup_singleton _, ?_⟩
      rintro other member fresh listed same
      obtain ⟨t, known, rfl⟩ := List.mem_map.mp member
      have own : t.userID = userID := same.trans (List.mem_singleton.mp listed)
      exact waits (own ▸ set t known)

theorem inv_submit (inv : Inv s) (time : s.clock ≤ now) : Inv (afterSubmit s now userID a) := by
  by_cases quiet : Quiet s.limiter.window now (stateOf (sweepLocked s.limiter now) userID) = true
  · exact inv_pushed inv time quiet
  · exact inv_held inv time quiet

theorem logged_submit (inv : Inv s) (logged : Logged s) (time : s.clock ≤ now) :
    Logged (afterSubmit s now userID a) := by
  have ids : (s.submitted ++ [mentionOf s userID a]).map Mention.id = List.range (s.submitted ++ [mentionOf s userID a]).length := by
    rw [List.map_append, logged.ids, List.length_append, List.length_singleton, List.range_succ]
    rfl
  by_cases quiet : Quiet s.limiter.window now (stateOf (sweepLocked s.limiter now) userID) = true
  · rw [afterSubmit_pushed a quiet]
    refine logged_release logged rfl ⟨rfl, rfl, rfl⟩ ids ?_ (spaced_of_quiet (swept_users inv time userID) quiet) ⟨?_, rfl⟩
    · have moved : (s.released.flatMap Push.mentions ++ ([mentionOf s userID a] ++ s.waiting)).Perm
          (s.released.flatMap Push.mentions ++ s.waiting ++ [mentionOf s userID a]) := by
        rw [List.append_assoc]
        exact List.perm_append_comm.append_left _
      exact moved.trans (logged.once.append_right _)
    · intro m member
      rw [List.mem_singleton.mp member]
      rfl
  · rw [afterSubmit_held a quiet]
    refine ⟨logged.spaced, ids, ?_, logged.stands, logged.sent⟩
    dsimp only
    rw [← List.append_assoc]
    exact logged.once.append_right _

end Submit

/-! ## A flush -/

section Flush

variable {s : State} {i : Nat} {t : Timer}

/-- The timer of a user that waits: there is a push, and it stands for what waits. -/
theorem afterFlush_eq (now : Int) (inv : Inv s) (here : s.timers[i]? = some t) :
    ∃ alert, digest ((waitsFor s t.userID).map Mention.alert) = some alert ∧
      afterFlush s now i t.userID =
        release
          { s with
            limiter := { s.limiter with
              users := s.limiter.users.insert t.userID
                { stateOf s.limiter.users t.userID with held := ∅, heldTotal := 0, flushDue := false, lastSent := some now } }
            clock := now
            timers := s.timers.eraseIdx i
            waiting := s.waiting.filter (·.userID ≠ t.userID) }
          { userID := t.userID, alert, time := now, mentions := waitsFor s t.userID } := by
  have due := (inv.set t (List.mem_of_getElem? here)).1
  have sound := inv.users t.userID
  have waits : (waitsFor s t.userID).map Mention.alert ≠ [] := by
    simpa using sound.due.mp due
  obtain ⟨alert, stands⟩ := Option.isSome_iff_exists.mp (digest_isSome waits)
  refine ⟨alert, stands, ?_⟩
  unfold afterFlush flush
  rw [lookup_of_due due]
  dsimp only
  rw [if_pos due, coalesceHeld_eq sound.held, stands]
  rfl

theorem timers_erase (here : s.timers[i]? = some t) : (t :: s.timers.eraseIdx i).Perm s.timers := by
  obtain ⟨inside, rfl⟩ := List.getElem?_eq_some_iff.mp here
  exact List.getElem_cons_eraseIdx_perm inside

theorem past_of_due (inv : Inv s) (time : s.clock ≤ now) (here : s.timers[i]? = some t) (due : t.due ≤ now) :
    ∀ earlier ∈ timesOf s t.userID, earlier + s.limiter.window ≤ now := by
  intro earlier member
  rcases (inv.users t.userID).last earlier member with early | ⟨last, found, bound⟩
  · omega
  · have end' := (inv.set t (List.mem_of_getElem? here)).2 last found
    omega

theorem inv_flush (inv : Inv s) (time : s.clock ≤ now) (here : s.timers[i]? = some t) (due : t.due ≤ now) :
    Inv (afterFlush s now i t.userID) := by
  obtain ⟨alert, -, same⟩ := afterFlush_eq now inv here
  have perm := timers_erase here
  have single := (perm.map Timer.userID).nodup_iff.mpr inv.single
  obtain ⟨fresh, single⟩ := List.nodup_cons.mp single
  rw [same]
  refine ⟨fun v => ?_, fun other member => ?_, fun v waits => ?_, single⟩
  · have sound := (inv.users v).later time le_rfl
    by_cases own : v = t.userID
    · subst own
      have next := sound_flush sound (past_of_due inv time here due)
      simpa [timesOf, waitsFor, release] using next
    · have others : (s.waiting.filter (·.userID ≠ t.userID)).filter (·.userID = v) = waitsFor s v := by
        rw [List.filter_filter, waitsFor]
        refine List.filter_congr fun m _ => ?_
        by_cases mine : m.userID = v
        · simp [mine, own]
        · simp [mine]
      have next : UserSound s.limiter.window now s.limiter.seq
          ((s.waiting.filter (·.userID ≠ t.userID)).filter (·.userID = v)) (timesOf s v) (stateOf s.limiter.users v) := by
        rw [others]
        exact sound
      simpa [timesOf, waitsFor, release, stateOf_insert_ne _ own, Ne.symm own] using next
  · have apart : other.userID ≠ t.userID := fun same => fresh (List.mem_map.mpr ⟨other, member, same⟩)
    have old := inv.set other (List.mem_of_mem_eraseIdx member)
    simpa [release, stateOf_insert_ne _ apart] using old
  · have apart : v ≠ t.userID := by
      rintro rfl
      rw [release, stateOf_insert] at waits
      cases waits
    rw [release, stateOf_insert_ne _ apart] at waits
    obtain ⟨other, listed, rfl⟩ := inv.timers v waits
    rcases List.mem_cons.mp (perm.mem_iff.mpr listed) with rfl | rest
    · exact absurd rfl apart
    · exact ⟨other, rest, rfl⟩

theorem logged_flush (inv : Inv s) (logged : Logged s) (time : s.clock ≤ now) (here : s.timers[i]? = some t)
    (due : t.due ≤ now) : Logged (afterFlush s now i t.userID) := by
  obtain ⟨alert, stands, same⟩ := afterFlush_eq now inv here
  rw [same]
  refine logged_release logged rfl ⟨rfl, rfl, rfl⟩ logged.ids ?_ (past_of_due inv time here due) ⟨fun m member => ?_, stands⟩
  · have split : (waitsFor s t.userID ++ s.waiting.filter (·.userID ≠ t.userID)).Perm s.waiting := by
      simpa [waitsFor] using List.filter_append_perm (fun m : Mention => decide (m.userID = t.userID)) s.waiting
    exact (split.append_left _).trans logged.once
  · exact of_decide_eq_true (List.mem_filter.mp member).2

end Flush

/-! ## All steps -/

theorem inv_step {s t : State} {action : Action} (inv : Inv s) (logged : Logged s) (stepped : step s action = some t) :
    Inv t ∧ Logged t := by
  cases action with
  | submit now userID a =>
    unfold step at stepped
    dsimp only at stepped
    split_ifs at stepped with time
    obtain rfl := Option.some.inj stepped
    exact ⟨inv_submit inv time, logged_submit inv logged time⟩
  | fire now i =>
    unfold step at stepped
    obtain ⟨timer, here, fired⟩ := Option.bind_eq_some_iff.mp stepped
    split_ifs at fired with due
    obtain rfl := Option.some.inj fired
    exact ⟨inv_flush inv due.1 here due.2, logged_flush inv logged due.1 here due.2⟩
  | send i =>
    unfold step at stepped
    obtain ⟨p, here, rfl⟩ := Option.map_eq_some_iff.mp stepped
    refine ⟨⟨inv.users, inv.set, inv.timers, inv.single⟩,
      ⟨logged.spaced, logged.ids, logged.once, logged.stands, List.Perm.trans ?_ logged.sent⟩⟩
    obtain ⟨inside, rfl⟩ := List.getElem?_eq_some_iff.mp here
    rw [List.append_assoc]
    exact (List.getElem_cons_eraseIdx_perm inside).append_left _

/-- The pushes to a user are the window apart, each mention is in one push or waits for a flush that is set,
the counts are right, and no user with held mentions is forgotten. -/
theorem limited_always (window clock : Int) (actions : List Action) :
    Always step Limited { limiter := { window }, clock } actions := by
  have none : ∀ userID, UserSound window clock 0 [] [] (stateOf ∅ userID) := fun userID =>
    ⟨holds_empty 0, rfl, iff_of_false Bool.false_ne_true (fun some => some rfl), fun _ member => (List.not_mem_nil member).elim⟩
  have first : Inv { limiter := { window }, clock } :=
    { users := none
      set := fun _ member => (List.not_mem_nil member).elim
      timers := fun _ due => (Bool.false_ne_true due).elim
      single := List.nodup_nil }
  have nothing : Logged { limiter := { window }, clock } :=
    { spaced := fun _ => List.Pairwise.nil
      ids := rfl
      once := List.Perm.refl _
      stands := fun _ member => (List.not_mem_nil member).elim
      sent := List.Perm.refl _ }
  have steps : EachStep step (fun _ _ => True) { limiter := { window }, clock } actions := eachStep_true actions
  have all := always_of_eachStep (fun s _ t (holds : Inv s ∧ Logged s) _ stepped => inv_step holds.1 holds.2 stepped)
    ⟨first, nothing⟩ actions steps
  exact all.imp fun _ holds => limited_of_inv holds.1 holds.2

end Mello.Backend.MentionPushes
