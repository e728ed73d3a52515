import Mello.Library.Documents

/-!
`GameSessionEndRPC` for one session id of one member: the create-only mark
against duplicates, the update of the user's stats for the game, and the ledger
event. Any number of calls interleave, one storage step at a time, and each step
may fail. Of a request the model keeps what decides which steps a call takes.
-/

namespace Mello.Backend.GameSession
open Mello.Library Runs Tables
open Documents (Store Object)

structure GameSessionEndRequest where
  crewID : String
  gameName : String
  gameID : String
  sessionID : String
  deriving DecidableEq, Repr

/-- The step that a call takes next, or its answer. `UpdateUserGameStatsForSession`
and `AppendCrewEvent` write up to three times. -/
inductive Phase where
  | isCrewMember
  | dedupRead
  | dedupWrite
  | stats (attempt : Nat)
  | append (attempt : Nat)
  | success (duplicate : Bool)
  | error (code : Nat)
  deriving DecidableEq, Repr

structure Call where
  request : GameSessionEndRequest
  statsFailed : Bool := false
  phase : Phase
  deriving DecidableEq, Repr

/-- What the calls share: the dedup object, here with the call that created it,
and the calls that updated the stats and appended the event. -/
structure Shared where
  dedup : Store Nat := {}
  statsUpdates : List Nat := []
  events : List Nat := []

structure State where
  shared : Shared := {}
  calls : List Call := []

inductive Action where
  | call (request : GameSessionEndRequest)
  | advance (k : Nat) (works : Bool)
  deriving DecidableEq, Repr

def maxAttempts : Nat := 3

/-- The checks before the first storage step. -/
def GameSessionEndRequest.validate (request : GameSessionEndRequest) : Option Nat :=
  if request.crewID = "" ∨ request.gameName = "" then some 3
  else if 64 < request.sessionID.utf8ByteSize then some 3
  else none

def GameSessionEndRequest.firstPhase (request : GameSessionEndRequest) : Phase :=
  match request.validate with
  | some code => .error code
  | none => .isCrewMember

/-- Past the mark: a game without an id has no stats. -/
def GameSessionEndRequest.record (request : GameSessionEndRequest) : Phase :=
  if request.gameID = "" then .append 0 else .stats 0

/-- `isDuplicateGameSession` reads the mark, then creates it. A write that fails
counts as a duplicate. -/
def advance (shared : Shared) (k : Nat) (call : Call) (works : Bool) : Option (Shared × Call) :=
  match call.phase with
  | .isCrewMember =>
    let next := if call.request.sessionID = "" then call.request.record else .dedupRead
    some (shared, { call with phase := if works then next else .error 7 })
  | .dedupRead =>
    some (shared, { call with phase := if works && shared.dedup.object.isSome then .success true else .dedupWrite })
  | .dedupWrite =>
    match shared.dedup.write .absent k works with
    | some dedup => some ({ shared with dedup }, { call with phase := call.request.record })
    | none => some (shared, { call with phase := .success true })
  | .stats attempt =>
    if works then some ({ shared with statsUpdates := shared.statsUpdates ++ [k] }, { call with phase := .append 0 })
    else if attempt + 1 < maxAttempts then some (shared, { call with phase := .stats (attempt + 1) })
    else some (shared, { call with statsFailed := true, phase := .append 0 })
  | .append attempt =>
    if works then some ({ shared with events := shared.events ++ [k] }, { call with phase := .success false })
    else if attempt + 1 < maxAttempts then some (shared, { call with phase := .append (attempt + 1) })
    else some (shared, { call with phase := .error 13 })
  | .success _ => none
  | .error _ => none

/-- All calls carry the same session id. -/
def step (sessionID : String) (s : State) : Action → Option State
  | .call request =>
    if request.sessionID = sessionID then
      some { s with calls := s.calls ++ [{ request, phase := request.firstPhase }] }
    else none
  | .advance k works =>
    match s.calls[k]? with
    | some call => (advance s.shared k call works).map fun (shared, call) =>
        { shared, calls := s.calls.set k call }
    | none => none

/-! ## Exactly once -/

def Answered (s : State) : Prop :=
  ∃ (k : Nat) (call : Call) (duplicate : Bool), s.calls[k]? = some call ∧ call.phase = .success duplicate

/-- The stats updates that a recorded session made. -/
def statsOf (k : Nat) (call : Call) : List Nat :=
  if call.request.gameID = "" ∨ call.statsFailed = true then [] else [k]

/-- One call appended the one event, and updated the stats once unless the game
has no id or its stats write failed. -/
def Recorded (s : State) : Prop :=
  ∃ k call, s.calls[k]? = some call ∧ s.shared.events = [k] ∧ s.shared.statsUpdates = statsOf k call

/-- The step makes a call answer as a duplicate. -/
def AnswersDuplicate (s : State) : Action → Prop
  | .call _ => False
  | .advance k works => ∃ call, s.calls[k]? = some call ∧
      ((call.phase = .dedupRead ∧ works = true ∧ s.shared.dedup.object.isSome = true) ∨
        (call.phase = .dedupWrite ∧ (works = false ∨ s.shared.dedup.object.isSome = true)))

/-- A call answers as a duplicate only when the call that created the mark has
appended its event. -/
def Settled (s : State) (action : Action) : Prop :=
  AnswersDuplicate s action → ∃ mark, s.shared.dedup.object = some mark ∧ mark.value ∈ s.shared.events

/-! ## The invariant -/

/-- The phases of a call that did not create the mark. -/
def Quiet : Phase → Prop
  | .isCrewMember | .dedupRead | .dedupWrite | .success true | .error _ => True
  | .stats _ | .append _ | .success false => False

/-- How far the call that created the mark is. -/
inductive Stage (shared : Shared) (k : Nat) (call : Call) : Prop
  | stats (attempt : Nat) (phase : call.phase = .stats attempt) (game : call.request.gameID ≠ "")
      (works : call.statsFailed = false) (updates : shared.statsUpdates = []) (events : shared.events = [])
  | append (attempt : Nat) (phase : call.phase = .append attempt)
      (updates : shared.statsUpdates = statsOf k call) (events : shared.events = [])
  | done (phase : call.phase = .success false) (updates : shared.statsUpdates = statsOf k call)
      (events : shared.events = [k])
  | failed (phase : call.phase = .error 13) (events : shared.events = [])

structure Sound (sessionID : String) (s : State) : Prop where
  session : ∀ (k : Nat) (call : Call), s.calls[k]? = some call → call.request.sessionID = sessionID
  quiet : ∀ (k : Nat) (call : Call), s.calls[k]? = some call →
    s.shared.dedup.object.map Object.value ≠ some k → Quiet call.phase ∧ call.statsFailed = false
  unmarked : s.shared.dedup.object = none → s.shared.statsUpdates = [] ∧ s.shared.events = []
  marked : ∀ mark, s.shared.dedup.object = some mark →
    ∃ call, s.calls[mark.value]? = some call ∧ Stage s.shared mark.value call

theorem sound_start (sessionID : String) : Sound sessionID {} where
  session := fun k call here => by simp at here
  quiet := fun k call here => by simp at here
  unmarked := fun _ => ⟨rfl, rfl⟩
  marked := fun mark here => nomatch here

section Steps

variable {sessionID : String} {s t : State} {k : Nat} {call next : Call} {shared : Shared}

/-- A call that is not done with the checks did not create the mark. -/
theorem Sound.unrelated (sound : Sound sessionID s) (here : s.calls[k]? = some call)
    (early : call.phase = .isCrewMember ∨ call.phase = .dedupRead ∨ call.phase = .dedupWrite) :
    s.shared.dedup.object.map Object.value ≠ some k := by
  intro same
  obtain ⟨mark, present, rfl⟩ := Option.map_eq_some_iff.mp same
  obtain ⟨other, found, stage⟩ := sound.marked mark present
  obtain rfl := Option.some.inj (here.symm.trans found)
  cases stage with
  | stats attempt phase => simp [phase] at early
  | append attempt phase => simp [phase] at early
  | done phase => simp [phase] at early
  | failed phase => simp [phase] at early

/-- A call that records created the mark. -/
theorem Sound.recording (sound : Sound sessionID s) (here : s.calls[k]? = some call) (loud : ¬Quiet call.phase) :
    ∃ mark, s.shared.dedup.object = some mark ∧ mark.value = k ∧ Stage s.shared k call := by
  by_contra apart
  refine loud (sound.quiet k call here ?_).1
  intro same
  obtain ⟨mark, present, rfl⟩ := Option.map_eq_some_iff.mp same
  obtain ⟨other, found, stage⟩ := sound.marked mark present
  obtain rfl := Option.some.inj (here.symm.trans found)
  exact apart ⟨mark, present, rfl, stage⟩

theorem Sound.session_set (sound : Sound sessionID s) (here : s.calls[k]? = some call)
    (next : Call) (request : next.request = call.request) {j : Nat} {other : Call} (found : (s.calls.set k next)[j]? = some other) :
    other.request.sessionID = sessionID := by
  rcases getElem?_set_cases found with ⟨-, rfl⟩ | ⟨-, found⟩
  · rw [request]
    exact sound.session k call here
  · exact sound.session j other found

/-- A call moves between two quiet phases. -/
theorem Sound.quiet_move (sound : Sound sessionID s) (here : s.calls[k]? = some call)
    (early : call.phase = .isCrewMember ∨ call.phase = .dedupRead ∨ call.phase = .dedupWrite)
    (request : next.request = call.request) (quiet : Quiet next.phase) (failed : next.statsFailed = call.statsFailed) :
    Sound sessionID { s with calls := s.calls.set k next } where
  session := fun j other found => sound.session_set here _ request found
  quiet := by
    intro j other found apart
    rcases getElem?_set_cases found with ⟨rfl, rfl⟩ | ⟨-, found⟩
    · exact ⟨quiet, failed.trans (sound.quiet j call here apart).2⟩
    · exact sound.quiet j other found apart
  unmarked := sound.unmarked
  marked := by
    intro mark present
    obtain ⟨other, found, stage⟩ := sound.marked mark present
    refine ⟨other, ?_, stage⟩
    have apart : k ≠ mark.value := by
      intro same
      apply sound.unrelated here early
      rw [present, same]
      rfl
    rw [List.getElem?_set_ne apart, found]

/-- The call that created the mark moves from stage to stage. -/
theorem Sound.stage_move (sound : Sound sessionID s) (here : s.calls[k]? = some call) {mark : Object Nat}
    (present : s.shared.dedup.object = some mark) (own : mark.value = k) (request : next.request = call.request)
    (dedup : shared.dedup = s.shared.dedup) (stage : Stage shared k next) :
    Sound sessionID { shared, calls := s.calls.set k next } where
  session := fun j other found => sound.session_set here _ request found
  quiet := by
    intro j other found apart
    rcases getElem?_set_cases found with ⟨rfl, rfl⟩ | ⟨-, found⟩
    · rw [dedup, present] at apart
      exact absurd (congrArg some own) apart
    · rw [dedup] at apart
      exact sound.quiet j other found apart
  unmarked := by
    intro none
    rw [dedup, present] at none
    cases none
  marked := by
    intro other found
    rw [dedup, present] at found
    obtain rfl := Option.some.inj found
    rw [own]
    exact ⟨next, List.getElem?_set_self (lt_length here), stage⟩

/-- A call creates the mark, and goes on to record. -/
theorem Sound.mark (sound : Sound sessionID s) (here : s.calls[k]? = some call)
    (absent : s.shared.dedup.object = none) :
    Sound sessionID
      { shared := { s.shared with dedup := s.shared.dedup.put k }
        calls := s.calls.set k { call with phase := call.request.record } } where
  session := fun j other found => sound.session_set here { call with phase := call.request.record } rfl found
  quiet := by
    intro j other found apart
    rcases getElem?_set_cases found with ⟨rfl, -⟩ | ⟨-, found⟩
    · exact absurd rfl apart
    · exact sound.quiet j other found (by simp [absent])
  unmarked := nofun
  marked := by
    intro mark present
    obtain rfl := Option.some.inj present
    obtain ⟨updates, events⟩ := sound.unmarked absent
    have works := (sound.quiet k call here (by simp [absent])).2
    refine ⟨_, List.getElem?_set_self (lt_length here), ?_⟩
    by_cases game : call.request.gameID = ""
    · refine .append 0 ?_ ?_ events
      · simp [GameSessionEndRequest.record, game]
      · simp [statsOf, game, updates]
    · refine .stats 0 ?_ game works updates events
      simp [GameSessionEndRequest.record, game]

theorem Sound.called (sound : Sound sessionID s) {request : GameSessionEndRequest}
    (session : request.sessionID = sessionID) :
    Sound sessionID { s with calls := s.calls ++ [{ request, phase := request.firstPhase }] } where
  session := by
    intro j other found
    rcases getElem?_concat_cases found with found | ⟨-, rfl⟩
    · exact sound.session j other found
    · exact session
  quiet := by
    intro j other found apart
    rcases getElem?_concat_cases found with found | ⟨-, rfl⟩
    · exact sound.quiet j other found apart
    · refine ⟨?_, rfl⟩
      unfold GameSessionEndRequest.firstPhase
      split <;> trivial
  unmarked := sound.unmarked
  marked := by
    intro mark present
    obtain ⟨other, found, stage⟩ := sound.marked mark present
    exact ⟨other, by rw [List.getElem?_append_left (lt_length found), found], stage⟩

theorem sound_advance (named : sessionID ≠ "") (sound : Sound sessionID s) (here : s.calls[k]? = some call)
    {works : Bool} (moved : advance s.shared k call works = some (shared, next)) :
    Sound sessionID { shared, calls := s.calls.set k next } := by
  have session := sound.session k call here
  unfold advance at moved
  cases phase : call.phase with
  | isCrewMember =>
    simp only [phase, Option.some.injEq, Prod.mk.injEq] at moved
    obtain ⟨rfl, rfl⟩ := moved
    refine sound.quiet_move here (.inl phase) rfl ?_ rfl
    have checked : ¬call.request.sessionID = "" := by
      rw [session]
      exact named
    cases works with
    | false => trivial
    | true =>
      simp only [if_true, checked, if_false]
      trivial
  | dedupRead =>
    simp only [phase, Option.some.injEq, Prod.mk.injEq] at moved
    obtain ⟨rfl, rfl⟩ := moved
    refine sound.quiet_move here (.inr (.inl phase)) rfl ?_ rfl
    dsimp only
    split <;> trivial
  | dedupWrite =>
    simp only [phase] at moved
    cases written : s.shared.dedup.write .absent k works with
    | none =>
      simp only [written, Option.some.injEq, Prod.mk.injEq] at moved
      obtain ⟨rfl, rfl⟩ := moved
      exact sound.quiet_move here (.inr (.inr phase)) rfl trivial rfl
    | some dedup =>
      simp only [written, Option.some.injEq, Prod.mk.injEq] at moved
      obtain ⟨rfl, rfl⟩ := moved
      obtain ⟨-, admitted, rfl⟩ := Store.write_eq_some.mp written
      exact sound.mark here (Option.isNone_iff_eq_none.mp admitted)
  | stats attempt =>
    obtain ⟨mark, present, own, stage⟩ := sound.recording here (by simp [phase, Quiet])
    cases stage with
    | stats attempt _ game worked updates events =>
      simp only [phase] at moved
      split_ifs at moved with wrote again
      · obtain ⟨rfl, rfl⟩ := Prod.mk.inj (Option.some.inj moved)
        refine sound.stage_move here present own rfl rfl (.append 0 rfl ?_ events)
        simp [statsOf, game, worked, updates]
      · obtain ⟨rfl, rfl⟩ := Prod.mk.inj (Option.some.inj moved)
        exact sound.stage_move here present own rfl rfl (.stats _ rfl game worked updates events)
      · obtain ⟨rfl, rfl⟩ := Prod.mk.inj (Option.some.inj moved)
        refine sound.stage_move here present own rfl rfl (.append 0 rfl ?_ events)
        simp [statsOf, updates]
    | append _ other | done other | failed other => simp [phase] at other
  | append attempt =>
    obtain ⟨mark, present, own, stage⟩ := sound.recording here (by simp [phase, Quiet])
    cases stage with
    | append attempt _ updates events =>
      simp only [phase] at moved
      split_ifs at moved with wrote again
      · obtain ⟨rfl, rfl⟩ := Prod.mk.inj (Option.some.inj moved)
        exact sound.stage_move here present own rfl rfl (.done rfl updates (by simp [events]))
      · obtain ⟨rfl, rfl⟩ := Prod.mk.inj (Option.some.inj moved)
        exact sound.stage_move here present own rfl rfl (.append _ rfl updates events)
      · obtain ⟨rfl, rfl⟩ := Prod.mk.inj (Option.some.inj moved)
        exact sound.stage_move here present own rfl rfl (.failed rfl events)
    | stats _ other | done other | failed other => simp [phase] at other
  | success duplicate => simp [phase] at moved
  | error code => simp [phase] at moved

theorem sound_step (named : sessionID ≠ "") (sound : Sound sessionID s) {action : Action}
    (stepped : step sessionID s action = some t) : Sound sessionID t := by
  cases action with
  | call request =>
    unfold step at stepped
    dsimp only at stepped
    split_ifs at stepped with session
    obtain rfl := Option.some.inj stepped
    exact sound.called session
  | advance k works =>
    unfold step at stepped
    dsimp only at stepped
    split at stepped
    next call here =>
      obtain ⟨⟨shared, next⟩, moved, rfl⟩ := Option.map_eq_some_iff.mp stepped
      exact sound_advance named sound here moved
    next => cases stepped

/-! ## The answers -/

/-- An event in the ledger is that of the call that created the mark. -/
theorem Sound.done (sound : Sound sessionID s) (some : s.shared.events ≠ []) :
    ∃ mark call, s.shared.dedup.object = .some mark ∧ s.calls[mark.value]? = .some call ∧
      s.shared.events = [mark.value] ∧ s.shared.statsUpdates = statsOf mark.value call := by
  cases present : s.shared.dedup.object with
  | none => exact absurd (sound.unmarked present).2 some
  | some mark =>
    obtain ⟨call, here, stage⟩ := sound.marked mark present
    cases stage with
    | done phase updates events => exact ⟨mark, call, rfl, here, events, updates⟩
    | stats _ _ _ _ _ events | append _ _ _ events | failed _ events => exact absurd events some

theorem Sound.recorded_iff (sound : Sound sessionID s) : Recorded s ↔ s.shared.events ≠ [] := by
  constructor
  · rintro ⟨k, call, -, events, -⟩
    rw [events]
    exact List.cons_ne_nil _ _
  · intro some
    obtain ⟨mark, call, -, here, events, updates⟩ := sound.done some
    exact ⟨mark.value, call, here, events, updates⟩

theorem Sound.settled_iff (sound : Sound sessionID s) {action : Action} :
    Settled s action ↔ (AnswersDuplicate s action → s.shared.events ≠ []) := by
  constructor
  · intro settled answers
    obtain ⟨mark, -, member⟩ := settled answers
    exact List.ne_nil_of_mem member
  · intro settled answers
    obtain ⟨mark, -, present, -, events, -⟩ := sound.done (settled answers)
    exact ⟨mark, present, by rw [events]; exact List.mem_singleton_self _⟩

theorem record_ne_success (request : GameSessionEndRequest) (duplicate : Bool) :
    request.record ≠ .success duplicate := by
  unfold GameSessionEndRequest.record
  split <;> simp

/-- A step that answers as a duplicate appends nothing; any other that answers
with success appended the event. -/
theorem answered_advance (here : s.calls[k]? = some call) {works : Bool}
    (moved : advance s.shared k call works = some (shared, next)) :
    (AnswersDuplicate s (.advance k works) ∧ next.phase = .success true ∧ shared.events = s.shared.events) ∨
      (¬AnswersDuplicate s (.advance k works) ∧ ∃ more, shared.events = s.shared.events ++ more ∧
        ∀ duplicate, next.phase = .success duplicate → more ≠ []) := by
  have answers : AnswersDuplicate s (.advance k works) ↔
      (call.phase = .dedupRead ∧ works = true ∧ s.shared.dedup.object.isSome = true) ∨
        (call.phase = .dedupWrite ∧ (works = false ∨ s.shared.dedup.object.isSome = true)) := by
    simp [AnswersDuplicate, here]
  have silent : ∀ {shared' : Shared} {next' : Call}, shared'.events = s.shared.events →
      (∀ duplicate, next'.phase ≠ .success duplicate) → ∃ more, shared'.events = s.shared.events ++ more ∧
        ∀ duplicate, next'.phase = .success duplicate → more ≠ [] := by
    intro shared' next' events other
    exact ⟨[], by rw [events, List.append_nil], fun duplicate same => absurd same (other duplicate)⟩
  rw [answers]
  unfold advance at moved
  cases phase : call.phase with
  | isCrewMember =>
    simp only [phase, Option.some.injEq, Prod.mk.injEq] at moved
    obtain ⟨rfl, rfl⟩ := moved
    refine .inr ⟨by simp, silent rfl fun duplicate => ?_⟩
    dsimp only
    split_ifs
    · exact record_ne_success _ duplicate
    · nofun
    · nofun
  | dedupRead =>
    simp only [phase, Option.some.injEq, Prod.mk.injEq] at moved
    obtain ⟨rfl, rfl⟩ := moved
    by_cases found : (works && s.shared.dedup.object.isSome) = true
    · left
      refine ⟨.inl ⟨rfl, Bool.and_eq_true_iff.mp found⟩, ?_, rfl⟩
      simp [found]
    · right
      refine ⟨by simpa using found, silent rfl fun duplicate => ?_⟩
      simp [found]
  | dedupWrite =>
    simp only [phase] at moved
    cases written : s.shared.dedup.write .absent k works with
    | none =>
      simp only [written, Option.some.injEq, Prod.mk.injEq] at moved
      obtain ⟨rfl, rfl⟩ := moved
      refine .inl ⟨.inr ⟨rfl, ?_⟩, rfl, rfl⟩
      unfold Store.write Store.admits at written
      cases works <;> simp_all [Option.isSome_iff_ne_none]
    | some dedup =>
      simp only [written, Option.some.injEq, Prod.mk.injEq] at moved
      obtain ⟨rfl, rfl⟩ := moved
      obtain ⟨rfl, admitted, rfl⟩ := Store.write_eq_some.mp written
      have absent : s.shared.dedup.object = none := Option.isNone_iff_eq_none.mp admitted
      exact .inr ⟨by simp [absent], silent rfl (record_ne_success _)⟩
  | stats attempt =>
    simp only [phase] at moved
    split_ifs at moved
    all_goals
      obtain ⟨rfl, rfl⟩ := Prod.mk.inj (Option.some.inj moved)
      exact .inr ⟨by simp, silent rfl nofun⟩
  | append attempt =>
    simp only [phase] at moved
    split_ifs at moved
    · obtain ⟨rfl, rfl⟩ := Prod.mk.inj (Option.some.inj moved)
      exact .inr ⟨by simp, [k], rfl, fun _ _ => List.cons_ne_nil _ _⟩
    · obtain ⟨rfl, rfl⟩ := Prod.mk.inj (Option.some.inj moved)
      exact .inr ⟨by simp, silent rfl nofun⟩
    · obtain ⟨rfl, rfl⟩ := Prod.mk.inj (Option.some.inj moved)
      exact .inr ⟨by simp, silent rfl nofun⟩
  | success duplicate => simp [phase] at moved
  | error code => simp [phase] at moved

theorem recorded_step (sound : Sound sessionID s) (after : Sound sessionID t) (holds : Answered s → Recorded s)
    {action : Action} (stepped : step sessionID s action = some t) :
    (Answered t → Recorded t) ↔ Settled s action := by
  rw [after.recorded_iff, sound.settled_iff]
  rw [sound.recorded_iff] at holds
  cases action with
  | call request =>
    unfold step at stepped
    dsimp only at stepped
    split_ifs at stepped
    obtain rfl := Option.some.inj stepped
    refine ⟨fun _ answers => answers.elim, fun _ => ?_⟩
    rintro ⟨k, call, duplicate, found, phase⟩
    rcases getElem?_concat_cases found with found | ⟨-, rfl⟩
    · exact holds ⟨k, call, duplicate, found, phase⟩
    · unfold GameSessionEndRequest.firstPhase at phase
      dsimp only at phase
      split at phase <;> cases phase
  | advance k works =>
    unfold step at stepped
    dsimp only at stepped
    split at stepped
    next call here =>
      obtain ⟨⟨shared, next⟩, moved, rfl⟩ := Option.map_eq_some_iff.mp stepped
      rcases answered_advance here moved with ⟨answers, phase, events⟩ | ⟨silent, more, events, success⟩
      · change (_ → shared.events ≠ []) ↔ _
        rw [events]
        constructor
        · intro all _
          exact all ⟨k, next, true, List.getElem?_set_self (lt_length here), phase⟩
        · intro settled _
          exact settled answers
      · rw [iff_true_right fun answers => absurd answers silent]
        change _ → shared.events ≠ []
        rw [events]
        rintro ⟨j, other, duplicate, found, phase⟩
        rcases getElem?_set_cases found with ⟨-, rfl⟩ | ⟨-, found⟩
        · exact List.append_ne_nil_of_right_ne_nil _ (success duplicate phase)
        · exact List.append_ne_nil_of_left_ne_nil (holds ⟨j, other, duplicate, found, phase⟩) _
    next => cases stepped

end Steps

/-- Along exactly the runs in which no call answers as a duplicate before the
event is in the ledger, the first success finds the session recorded once. -/
theorem session_recorded_once_iff (sessionID : String) (named : sessionID ≠ "") (actions : List Action) :
    Always (step sessionID) (fun s => Answered s → Recorded s) {} actions ↔
      EachStep (step sessionID) Settled {} actions := by
  apply always_iff_eachStep (Sound sessionID)
  · intro s action t sound stepped
    exact sound_step named sound stepped
  · intro s action t sound holds stepped
    exact recorded_step sound (sound_step named sound stepped) holds stepped
  · exact sound_start sessionID
  · rintro ⟨k, call, duplicate, found, -⟩
    simp at found

def request : GameSessionEndRequest := { crewID := "crew", gameName := "Chess", gameID := "", sessionID := "night" }

/-- A session end that is saved, and a retry after its answer was lost. -/
theorem session_recorded_once_retry :
    Always (step "night") (fun s => Answered s → Recorded s) {}
      [.call request, .advance 0 true, .advance 0 true, .advance 0 true, .advance 0 true,
        .call request, .advance 1 true, .advance 1 true] := by
  apply (session_recorded_once_iff "night" (by decide) _).mpr
  have silent : ∀ {s : State} {action : Action}, ¬AnswersDuplicate s action → Settled s action :=
    fun silent answers => absurd answers silent
  refine .cons rfl (silent ?_) (.cons rfl (silent ?_) (.cons rfl (silent ?_) (.cons rfl (silent ?_)
    (.cons rfl (silent ?_) (.cons rfl (silent ?_) (.cons rfl (silent ?_) (.cons rfl ?_ trivial)))))))
  · exact id
  · rintro ⟨call, ⟨⟩, ⟨⟨⟩, -⟩ | ⟨⟨⟩, -⟩⟩
  · rintro ⟨call, ⟨⟩, ⟨-, -, ⟨⟩⟩ | ⟨⟨⟩, -⟩⟩
  · rintro ⟨call, ⟨⟩, ⟨⟨⟩, -⟩ | ⟨-, fails⟩⟩
    rcases fails with fails | fails <;> cases fails
  · rintro ⟨call, ⟨⟩, ⟨⟨⟩, -⟩ | ⟨⟨⟩, -⟩⟩
  · exact id
  · rintro ⟨call, ⟨⟩, ⟨⟨⟩, -⟩ | ⟨⟨⟩, -⟩⟩
  · intro answers
    exact ⟨_, rfl, List.mem_singleton_self _⟩

/-- The mark is there, every append failed, and the retry is answered as saved. -/
theorem retry_after_failed_append :
    ∃ s, run (step "night") {}
        [.call request, .advance 0 true, .advance 0 true, .advance 0 true, .advance 0 false, .advance 0 false,
          .advance 0 false, .call request, .advance 1 true, .advance 1 true] = some s ∧
      s.calls.map Call.phase = [.error 13, .success true] ∧ s.shared.events = [] :=
  ⟨_, rfl, rfl, rfl⟩

end Mello.Backend.GameSession
