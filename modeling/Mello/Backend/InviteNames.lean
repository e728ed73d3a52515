import Mello.Library.Runs
import Mello.Library.Tables
import Mello.Library.Versioned

/-!
The custom invite names of all crews: an object for each name, a profile for each crew,
and the calls that move a crew to another name. A call takes the name, writes it into the
profile and then puts a time on the old name. The checks of the owner and of the gift
come before and touch nothing; a read or write that fails has no effect.
-/

namespace Mello.Backend.InviteNames
open Mello.Library Documents Runs Tables Versioned

/-! ## The names -/

/-- Milliseconds. -/
def inviteNameHoldMs : Nat := 30 * 24 * 60 * 60 * 1000

def inviteNamesNotAllowed : List String :=
  ["m3llo", "mello", "mollo", "admin", "support", "help", "api", "join", "invite", "official", "staff", "mod", "moderator",
    "system", "lounge"]

def lowerOrDigit (c : Char) : Bool := ('a' ≤ c && c ≤ 'z') || ('0' ≤ c && c ≤ '9')

/-- `inviteNameRe`. -/
def inviteNameShape (name : List Char) : Bool :=
  3 ≤ name.length && name.length ≤ 24 && name.all (fun c => lowerOrDigit c || c == '-') &&
    name.head?.any lowerOrDigit && name.getLast?.any lowerOrDigit

/-- `inviteCodeShapeRe`. -/
def inviteCodeShape (name : List Char) : Bool :=
  (name.length == 8 && name.all lowerOrDigit) ||
    (name.length == 9 && name[4]? == some '-' && (name.eraseIdx 4).all lowerOrDigit)

def inviteNameAllowed (name : String) : Bool :=
  inviteNameShape name.toList && !(name.toList.zip name.toList.tail).contains ('-', '-') &&
    !inviteNamesNotAllowed.contains name && !inviteCodeShape name.toList

/-- `heldUntil` is zero while the name is not held. -/
structure InviteCodeObject where
  crewID : String
  custom : Bool := false
  heldUntil : Nat := 0
  deriving DecidableEq, Repr

structure CrewProfile where
  crewID : String
  inviteName : String := ""
  deriving DecidableEq, Repr

inductive NameState where
  | free (expect : Expect)
  | taken
  | notAllowed
  deriving DecidableEq, Repr

/-- The hold of the name is over. -/
def Expired (now : Nat) (o : InviteCodeObject) : Prop := o.custom = true ∧ 0 < o.heldUntil ∧ o.heldUntil ≤ now

instance (now : Nat) (o : InviteCodeObject) : Decidable (Expired now o) := inferInstanceAs (Decidable (_ ∧ _ ∧ _))

def inviteNameState (crewID name : String) (nowMs : Nat) (read : Read InviteCodeObject) : NameState :=
  if inviteNameAllowed name = false then .notAllowed
  else
    match read with
    | .failed => .taken
    | .absent => .free .absent
    | .found stored => if stored.value.crewID = crewID ∨ Expired nowMs stored.value then .free (.version stored.version) else .taken

/-! ## The calls -/

inductive Error where
  | nameNotAllowed
  | nameTaken
  | storeFailed
  deriving DecidableEq, Repr

inductive Phase where
  | checking
  | claiming (expect : Expect)
  | readingProfile (attempt : Nat)
  | writingProfile (attempt : Nat) (expect : Expect) (profile : CrewProfile) (old : String)
  | readingHold (old : String)
  | writingHold (old : String) (version : Nat) (object : InviteCodeObject)
  | done
  | refused (error : Error)
  deriving DecidableEq, Repr

structure Call where
  crewID : String
  name : String
  nowMs : Nat
  phase : Phase := .checking
  deriving DecidableEq, Repr

/-- An allowed name has no upper-case letter, so it stands for its key. `left` has when
a crew last moved away from a name. -/
structure State where
  clock : Nat
  names : String → Store InviteCodeObject := fun _ => {}
  profiles : String → Store CrewProfile := fun _ => {}
  calls : List Call := []
  left : String → String → Option Nat := fun _ _ => none

inductive Action where
  | tick (now : Nat)
  | SetInviteName (crewID name : String)
  | next (k : Nat) (works : Bool)
  deriving DecidableEq, Repr

def inviteName (s : State) (crewID : String) : String := (value { crewID } (s.profiles crewID)).inviteName

def State.goto (s : State) (k : Nat) (call : Call) (phase : Phase) : State :=
  { s with calls := s.calls.set k { call with phase } }

def readIf {Doc : Type} (store : Store Doc) (works : Bool) : Read Doc := if works then store.read else .failed

def afterState : NameState → Phase
  | .free expect => .claiming expect
  | .taken => .refused .nameTaken
  | .notAllowed => .refused .nameNotAllowed

/-- The profile to write, and the name that it had. -/
def afterProfile (call : Call) (attempt : Nat) (found : CrewProfile × Expect) : Phase :=
  .writingProfile attempt found.2 { found.1 with inviteName := call.name } found.1.inviteName

def afterHold (call : Call) (old : String) : Read InviteCodeObject → Phase
  | .failed | .absent => .done
  | .found stored =>
    if stored.value.crewID = call.crewID then
      .writingHold old stored.version { stored.value with heldUntil := call.nowMs + inviteNameHoldMs }
    else .done

/-- The time at which a crew leaves its name for another one. -/
def leave (s : State) (crewID name : String) : String → String → Option Nat :=
  if inviteName s crewID ≠ "" ∧ inviteName s crewID ≠ name then
    Function.update s.left crewID (Function.update (s.left crewID) (inviteName s crewID) (some s.clock))
  else s.left

/-- The next read or write of a call. -/
def advance (s : State) (k : Nat) (call : Call) (works : Bool) : Option State :=
  match call.phase with
  | .checking =>
    let state := inviteNameState call.crewID call.name call.nowMs (readIf (s.names call.name) works)
    some (s.goto k call (afterState state))
  | .claiming expect =>
    match (s.names call.name).write expect { crewID := call.crewID, custom := true } works with
    | some store => some { s.goto k call (.readingProfile 0) with names := Function.update s.names call.name store }
    | none => some (s.goto k call (.refused .nameTaken))
  | .readingProfile attempt =>
    some (s.goto k call (afterProfile call attempt (take { crewID := call.crewID } (readIf (s.profiles call.crewID) works))))
  | .writingProfile attempt expect profile old =>
    match (s.profiles call.crewID).write expect profile works with
    | some store => some { s.goto k call (if old ≠ "" ∧ old ≠ call.name then .readingHold old else .done) with
        profiles := Function.update s.profiles call.crewID store
        left := leave s call.crewID call.name }
    | none => some (s.goto k call (if attempt + 1 < 3 then .readingProfile (attempt + 1) else .refused .storeFailed))
  | .readingHold old => some (s.goto k call (afterHold call old (readIf (s.names old) works)))
  | .writingHold old version object =>
    match (s.names old).write (.version version) object works with
    | some store => some { s.goto k call .done with names := Function.update s.names old store }
    | none => some (s.goto k call .done)
  | .done => none
  | .refused _ => none

def step (s : State) : Action → Option State
  | .tick now => if s.clock ≤ now then some { s with clock := now } else none
  | .SetInviteName crewID name => some { s with calls := s.calls ++ [{ crewID, name, nowMs := s.clock }] }
  | .next k works =>
    match s.calls[k]? with
    | some call => advance s k call works
    | none => none

/-! ## The law -/

/-- `lookupInviteCode`, for a crew with an id. -/
def Resolves (s : State) (crewID name : String) : Prop :=
  ∃ stored, (s.names name).object = some stored ∧ stored.value.crewID = crewID

structure Belongs (s : State) : Prop where
  current : ∀ crewID, inviteName s crewID ≠ "" →
    Resolves s crewID (inviteName s crewID) ∧
      ∀ stored, (s.names (inviteName s crewID)).object = some stored → ¬Expired s.clock stored.value
  kept : ∀ crewID name t, s.left crewID name = some t → s.clock < t + inviteNameHoldMs → Resolves s crewID name

/-- The name is the crew's, with no hold. -/
def Owned (s : State) (crewID name : String) : Prop :=
  ∃ stored, (s.names name).object = some stored ∧ stored.value.crewID = crewID ∧ stored.value.heldUntil = 0

/-- The call has taken its name and has not written it into the profile. -/
def Phase.claimed : Phase → Bool
  | .readingProfile _ | .writingProfile .. => true
  | _ => false

/-- A name that is current or taken is not held, and one that was left is held long enough. -/
structure Settled (s : State) : Prop where
  current : ∀ crewID, inviteName s crewID ≠ "" → Owned s crewID (inviteName s crewID)
  claimed : ∀ (k : Nat) (call : Call), s.calls[k]? = some call → call.phase.claimed = true → Owned s call.crewID call.name
  kept : ∀ crewID name t, s.left crewID name = some t → s.clock < t + inviteNameHoldMs →
    ∃ stored, (s.names name).object = some stored ∧ stored.value.crewID = crewID ∧
      (stored.value.heldUntil = 0 ∨ t + inviteNameHoldMs ≤ stored.value.heldUntil)

/-- The hold of a name that the crew has left, no later than the call began, and has not
taken again. -/
structure Timed (s : State) (call : Call) (old : String) : Prop where
  moved : inviteName s call.crewID ≠ old
  unclaimed : ∀ (j : Nat) (other : Call), s.calls[j]? = some other → other.phase.claimed = true →
    other.crewID = call.crewID → other.name ≠ old
  time : ∀ t, s.left call.crewID old = some t → s.clock < t + inviteNameHoldMs → t ≤ call.nowMs

/-- Each hold that is written is timed. -/
def Timely (s : State) : Action → Prop
  | .next k true => ∀ (call : Call) (old : String) (version : Nat) (object : InviteCodeObject), s.calls[k]? = some call →
      call.phase = .writingHold old version object → (s.names old).admits (.version version) = true → Timed s call old
  | _ => True

/-! ## One step -/

section Step

variable {s t : State} {action : Action} {k : Nat} {call : Call}

/-- The value of an absent name. -/
def nobody : InviteCodeObject := { crewID := "" }

/-- What a call has found out before its next write. -/
def PhaseSound (s : State) (call : Call) : Phase → Prop
  | .claiming expect => ∃ doc, Seen nobody (s.names call.name) doc expect ∧
      (expect = .absent ∨ doc.crewID = call.crewID ∨ Expired call.nowMs doc)
  | .writingProfile _ _ profile _ => profile.inviteName = call.name
  | .readingHold old => old ≠ ""
  | .writingHold old version object => old ≠ "" ∧ ∃ doc, Seen nobody (s.names old) doc (.version version) ∧
      doc.crewID = call.crewID ∧ object = { doc with heldUntil := call.nowMs + inviteNameHoldMs }
  | _ => True

structure Sound (s : State) : Prop where
  begun : ∀ (k : Nat) (call : Call), s.calls[k]? = some call → call.nowMs ≤ s.clock
  phases : ∀ (k : Nat) (call : Call), s.calls[k]? = some call → PhaseSound s call call.phase

/-- The kinds of step: the three writes that are taken, and the rest. -/
inductive Moved (s t : State) : Action → Prop
  | ticked {now : Nat} (later : s.clock ≤ now) (moved : t = { s with clock := now }) : Moved s t (.tick now)
  | called {crewID name : String} (moved : t = { s with calls := s.calls ++ [{ crewID, name, nowMs := s.clock }] }) :
      Moved s t (.SetInviteName crewID name)
  | still {k : Nat} {works : Bool} {call : Call} {phase : Phase} (here : s.calls[k]? = some call)
      (sound : PhaseSound s call phase) (claimed : phase.claimed = true → call.phase.claimed = true)
      (timely : Timely s (.next k works)) (moved : t = s.goto k call phase) : Moved s t (.next k works)
  | took {k : Nat} {call : Call} {expect : Expect} (here : s.calls[k]? = some call) (phase : call.phase = .claiming expect)
      (admitted : (s.names call.name).admits expect = true)
      (moved : t = { s.goto k call (.readingProfile 0) with
        names := Function.update s.names call.name ((s.names call.name).put { crewID := call.crewID, custom := true }) }) :
      Moved s t (.next k true)
  | renamed {k : Nat} {call : Call} {attempt : Nat} {expect : Expect} {profile : CrewProfile} {old : String}
      (here : s.calls[k]? = some call) (phase : call.phase = .writingProfile attempt expect profile old)
      (moved : t = { s.goto k call (if old ≠ "" ∧ old ≠ call.name then .readingHold old else .done) with
        profiles := Function.update s.profiles call.crewID ((s.profiles call.crewID).put profile)
        left := leave s call.crewID call.name }) :
      Moved s t (.next k true)
  | held {k : Nat} {call : Call} {old : String} {version : Nat} {object : InviteCodeObject} (here : s.calls[k]? = some call)
      (phase : call.phase = .writingHold old version object) (admitted : (s.names old).admits (.version version) = true)
      (moved : t = { s.goto k call .done with names := Function.update s.names old ((s.names old).put object) }) :
      Moved s t (.next k true)

/-- Only the write of a hold has to be timed. -/
theorem timely_of_phase {works : Bool} (here : s.calls[k]? = some call)
    (other : ∀ old version object, call.phase ≠ .writingHold old version object) : Timely s (.next k works) := by
  cases works with
  | false => trivial
  | true =>
    intro found old version object same phase
    cases here.symm.trans same
    exact absurd phase (other old version object)

theorem read_eq_found {Doc : Type} {store : Store Doc} {works : Bool} {stored : Object Doc}
    (read : readIf store works = .found stored) : store.object = some stored := by
  cases works with
  | false => cases read
  | true =>
    unfold readIf Store.read at read
    rw [if_pos rfl] at read
    cases here : store.object with
    | none =>
      rw [here] at read
      cases read
    | some other =>
      rw [here] at read
      cases read
      rfl

theorem phaseSound_afterState {works : Bool} :
    PhaseSound s call (afterState (inviteNameState call.crewID call.name call.nowMs (readIf (s.names call.name) works))) := by
  unfold inviteNameState
  split_ifs with banned
  · trivial
  · cases read : readIf (s.names call.name) works with
    | failed => trivial
    | absent => exact ⟨nobody, .absent, .inl rfl⟩
    | found stored =>
      dsimp only
      split_ifs with free
      · exact ⟨stored.value, seen_found (read_eq_found read), .inr free⟩
      · trivial

theorem phaseSound_afterHold {works : Bool} {old : String} (nonempty : old ≠ "") :
    PhaseSound s call (afterHold call old (readIf (s.names old) works)) := by
  cases read : readIf (s.names old) works with
  | failed => trivial
  | absent => trivial
  | found stored =>
    unfold afterHold
    dsimp only
    split_ifs with own
    · exact ⟨nonempty, stored.value, seen_found (read_eq_found read), own, rfl⟩
    · trivial

theorem moved_of_step (sound : Sound s) (stepped : step s action = some t) : Moved s t action := by
  cases action with
  | tick now =>
    rw [step] at stepped
    split_ifs at stepped with later
    exact .ticked later (Option.some.inj stepped).symm
  | SetInviteName crewID name => exact .called (Option.some.inj stepped).symm
  | next k works =>
    rw [step] at stepped
    split at stepped
    · rename_i call here
      have known := sound.phases k call here
      unfold advance at stepped
      split at stepped
      · rename_i phase
        refine .still here phaseSound_afterState ?_ (timely_of_phase here (by rw [phase]; exact nofun)) (Option.some.inj stepped).symm
        generalize inviteNameState call.crewID call.name call.nowMs (readIf (s.names call.name) works) = state
        cases state <;> exact nofun
      · rename_i expect phase
        split at stepped
        · rename_i store written
          obtain ⟨rfl, admitted, rfl⟩ := Store.write_eq_some.mp written
          exact .took here phase admitted (Option.some.inj stepped).symm
        · refine .still here ?_ ?_ (timely_of_phase here (by rw [phase]; exact nofun)) (Option.some.inj stepped).symm
          · trivial
          · exact nofun
      · rename_i attempt phase
        refine .still here ?_ (fun _ => ?_) (timely_of_phase here (by rw [phase]; exact nofun)) (Option.some.inj stepped).symm
        · rfl
        · rw [phase]
          rfl
      · rename_i attempt expect profile old phase
        split at stepped
        · rename_i store written
          obtain ⟨rfl, -, rfl⟩ := Store.write_eq_some.mp written
          exact .renamed here phase (Option.some.inj stepped).symm
        · refine .still here ?_ (fun _ => ?_) (timely_of_phase here (by rw [phase]; exact nofun)) (Option.some.inj stepped).symm
          · split_ifs <;> trivial
          · rw [phase]
            rfl
      · rename_i old phase
        rw [phase] at known
        refine .still here (phaseSound_afterHold known) ?_ (timely_of_phase here (by rw [phase]; exact nofun))
          (Option.some.inj stepped).symm
        cases readIf (s.names old) works with
        | failed | absent => exact nofun
        | found stored =>
          unfold afterHold
          dsimp only
          split_ifs <;> exact nofun
      · rename_i old version object phase
        split at stepped
        · rename_i store written
          obtain ⟨rfl, admitted, rfl⟩ := Store.write_eq_some.mp written
          exact .held here phase admitted (Option.some.inj stepped).symm
        · rename_i refused
          refine .still here ?_ ?_ ?_ (Option.some.inj stepped).symm
          · trivial
          · exact nofun
          · cases works with
            | false => trivial
            | true =>
              intro other old version object same held admitted
              cases here.symm.trans same
              cases phase.symm.trans held
              rw [Store.write_eq_none refused] at admitted
              cases admitted
      · cases stepped
      · cases stepped
    · cases stepped

/-- Each name has the object that it had, or a new one. -/
def Grown (s t : State) : Prop := ∀ name, t.names name = s.names name ∨ ∃ o, t.names name = (s.names name).put o

theorem grown_update {name : String} {o : InviteCodeObject}
    (names : t.names = Function.update s.names name ((s.names name).put o)) : Grown s t := by
  intro other
  rw [names]
  by_cases same : other = name
  · subst same
    rw [Function.update_self]
    exact .inr ⟨o, rfl⟩
  · rw [Function.update_of_ne same]
    exact .inl rfl

theorem seen_grown {name : String} {doc : InviteCodeObject} {expect : Expect} (grown : Grown s t)
    (seen : Seen nobody (s.names name) doc expect) : Seen nobody (t.names name) doc expect := by
  rcases grown name with same | ⟨o, put⟩
  · rw [same]
    exact seen
  · rw [put]
    exact seen.put o

theorem phaseSound_grown {phase : Phase} (grown : Grown s t) (known : PhaseSound s call phase) : PhaseSound t call phase := by
  cases phase with
  | claiming expect =>
    obtain ⟨doc, seen, free⟩ := known
    exact ⟨doc, seen_grown grown seen, free⟩
  | writingHold old version object =>
    obtain ⟨nonempty, doc, seen, made⟩ := known
    exact ⟨nonempty, doc, seen_grown grown seen, made⟩
  | checking | readingProfile | writingProfile | readingHold | done | refused => exact known

theorem sound_of_set {phase : Phase} (sound : Sound s) (here : s.calls[k]? = some call) (grown : Grown s t)
    (clock : t.clock = s.clock) (known : PhaseSound s call phase) (calls : t.calls = s.calls.set k { call with phase }) :
    Sound t := by
  constructor
  · intro j other found
    rw [calls] at found
    rw [clock]
    rcases getElem?_set_cases found with ⟨-, rfl⟩ | ⟨-, old⟩
    · exact sound.begun k call here
    · exact sound.begun j other old
  · intro j other found
    rw [calls] at found
    apply phaseSound_grown grown
    rcases getElem?_set_cases found with ⟨-, rfl⟩ | ⟨-, old⟩
    · exact known
    · exact sound.phases j other old

theorem sound_step (sound : Sound s) (moved : Moved s t action) : Sound t := by
  have same : ∀ {t : State}, t.names = s.names → Grown s t := fun names name => .inl (congrFun names name)
  cases moved with
  | ticked later moved =>
    subst moved
    exact ⟨fun k call found => (sound.begun k call found).trans later,
      fun k call found => phaseSound_grown (same rfl) (sound.phases k call found)⟩
  | called moved =>
    subst moved
    constructor
    · intro k call found
      rcases getElem?_concat_cases found with old | ⟨-, rfl⟩
      · exact sound.begun k call old
      · exact le_rfl
    · intro k call found
      rcases getElem?_concat_cases found with old | ⟨-, rfl⟩
      · exact phaseSound_grown (same rfl) (sound.phases k call old)
      · trivial
  | still here known claimed timely moved =>
    subst moved
    exact sound_of_set sound here (same rfl) rfl known rfl
  | took here phase admitted moved =>
    subst moved
    refine sound_of_set sound here (grown_update rfl) rfl ?_ rfl
    trivial
  | renamed here phase moved =>
    subst moved
    refine sound_of_set sound here (same rfl) rfl ?_ rfl
    split_ifs with replaced
    · exact replaced.1
    · trivial
  | held here phase admitted moved =>
    subst moved
    refine sound_of_set sound here (grown_update rfl) rfl ?_ rfl
    trivial

/-- A name that is free for a call belongs to no other crew. -/
theorem own_of_free {expect : Expect} (sound : Sound s) (here : s.calls[k]? = some call) (phase : call.phase = .claiming expect)
    (admitted : (s.names call.name).admits expect = true) {stored : Object InviteCodeObject}
    (object : (s.names call.name).object = some stored)
    (unexpired : stored.value.heldUntil = 0 ∨ s.clock < stored.value.heldUntil) : stored.value.crewID = call.crewID := by
  have known := sound.phases k call here
  rw [phase] at known
  obtain ⟨doc, seen, free⟩ := known
  have found : stored.value = doc := by
    have current := seen.admitted admitted
    unfold value at current
    rw [object] at current
    exact current
  rw [found] at unexpired ⊢
  rcases free with rfl | own | ⟨-, positive, passed⟩
  · have absent : (s.names call.name).object = none := Option.isNone_iff_eq_none.mp admitted
    rw [object] at absent
    cases absent
  · exact own
  · have begun := sound.begun k call here
    omega

/-- The calls that have taken their names, after one call moved on. -/
theorem claimed_of_set {phase : Phase} (calls : t.calls = s.calls.set k { call with phase })
    (owned : phase.claimed = true → Owned t call.crewID call.name)
    (others : ∀ (j : Nat) (other : Call), j ≠ k → s.calls[j]? = some other → other.phase.claimed = true →
      Owned t other.crewID other.name) :
    ∀ (j : Nat) (other : Call), t.calls[j]? = some other → other.phase.claimed = true → Owned t other.crewID other.name := by
  intro j other found claimed
  rw [calls] at found
  rcases getElem?_set_cases found with ⟨-, rfl⟩ | ⟨apart, old⟩
  · exact owned claimed
  · exact others j other apart old claimed

theorem settled_took {expect : Expect} (sound : Sound s) (settled : Settled s) (here : s.calls[k]? = some call)
    (phase : call.phase = .claiming expect) (admitted : (s.names call.name).admits expect = true)
    (moved : t = { s.goto k call (.readingProfile 0) with
      names := Function.update s.names call.name ((s.names call.name).put { crewID := call.crewID, custom := true }) }) :
    Settled t := by
  have taken : (t.names call.name).object = some ⟨(s.names call.name).fresh, { crewID := call.crewID, custom := true }⟩ := by
    rw [moved]
    dsimp only
    rw [Function.update_self]
    rfl
  have others : ∀ name, name ≠ call.name → t.names name = s.names name := by
    intro name apart
    rw [moved]
    exact Function.update_of_ne apart _ _
  have owned : ∀ crewID name, Owned s crewID name → Owned t crewID name := by
    rintro crewID name ⟨stored, object, own, unheld⟩
    by_cases same : name = call.name
    · subst same
      have mine := own_of_free sound here phase admitted object (.inl unheld)
      exact ⟨_, taken, mine.symm.trans own, rfl⟩
    · refine ⟨stored, ?_, own, unheld⟩
      rw [others name same]
      exact object
  refine ⟨?_, ?_, ?_⟩
  · intro crewID named
    have names : inviteName t crewID = inviteName s crewID := by rw [moved]; rfl
    rw [names] at named ⊢
    exact owned _ _ (settled.current crewID named)
  · apply claimed_of_set (congrArg State.calls moved)
    · intro _
      exact ⟨_, taken, rfl, rfl⟩
    · intro j other _ found claimed
      exact owned _ _ (settled.claimed j other found claimed)
  · intro crewID name time left within
    have lefts : t.left = s.left := by rw [moved]; rfl
    have clock : t.clock = s.clock := by rw [moved]; rfl
    rw [lefts] at left
    rw [clock] at within
    obtain ⟨stored, object, own, held⟩ := settled.kept crewID name time left within
    by_cases same : name = call.name
    · subst same
      have mine := own_of_free sound here phase admitted object (by omega)
      exact ⟨_, taken, mine.symm.trans own, .inl rfl⟩
    · refine ⟨stored, ?_, own, held⟩
      rw [others name same]
      exact object

theorem settled_renamed {attempt : Nat} {expect : Expect} {profile : CrewProfile} {old : String} (sound : Sound s)
    (settled : Settled s) (here : s.calls[k]? = some call) (phase : call.phase = .writingProfile attempt expect profile old)
    (moved : t = { s.goto k call (if old ≠ "" ∧ old ≠ call.name then .readingHold old else .done) with
      profiles := Function.update s.profiles call.crewID ((s.profiles call.crewID).put profile)
      left := leave s call.crewID call.name }) :
    Settled t := by
  have owned : ∀ crewID name, Owned s crewID name → Owned t crewID name := by
    intro crewID name own
    rw [moved]
    exact own
  have named : profile.inviteName = call.name := by
    have known := sound.phases k call here
    rw [phase] at known
    exact known
  refine ⟨?_, ?_, ?_⟩
  · intro crewID nonempty
    by_cases same : crewID = call.crewID
    · subst same
      have now : inviteName t call.crewID = call.name := by
        rw [moved]
        unfold inviteName
        dsimp only
        rw [Function.update_self]
        exact named
      rw [now]
      exact owned _ _ (settled.claimed k call here (by rw [phase]; rfl))
    · have before : inviteName t crewID = inviteName s crewID := by
        rw [moved]
        unfold inviteName
        dsimp only
        rw [Function.update_of_ne same]
      rw [before] at nonempty ⊢
      exact owned _ _ (settled.current crewID nonempty)
  · apply claimed_of_set (congrArg State.calls moved)
    · intro claimed
      split_ifs at claimed <;> cases claimed
    · intro j other _ found claimed
      exact owned _ _ (settled.claimed j other found claimed)
  · intro crewID name time left within
    have clock : t.clock = s.clock := by rw [moved]; rfl
    have names : t.names = s.names := by rw [moved]; rfl
    have lefts : t.left = leave s call.crewID call.name := by rw [moved]
    rw [names]
    rw [clock] at within
    rw [lefts] at left
    unfold leave at left
    split_ifs at left with leaves
    · by_cases same : crewID = call.crewID ∧ name = inviteName s call.crewID
      · obtain ⟨rfl, rfl⟩ := same
        obtain ⟨stored, object, own, unheld⟩ := settled.current _ leaves.1
        exact ⟨stored, object, own, .inl unheld⟩
      · apply settled.kept crewID name time _ within
        by_cases crew : crewID = call.crewID
        · subst crew
          rw [Function.update_self, Function.update_of_ne (fun other => same ⟨rfl, other⟩)] at left
          exact left
        · rw [Function.update_of_ne crew] at left
          exact left
    · exact settled.kept crewID name time left within

/-- A hold that is written keeps all names settled when it is timed, and only then. -/
theorem settled_held {old : String} {version : Nat} {object : InviteCodeObject} (sound : Sound s) (settled : Settled s)
    (here : s.calls[k]? = some call) (phase : call.phase = .writingHold old version object)
    (admitted : (s.names old).admits (.version version) = true)
    (moved : t = { s.goto k call .done with names := Function.update s.names old ((s.names old).put object) }) :
    Settled t ↔ Timed s call old := by
  have known := sound.phases k call here
  rw [phase] at known
  obtain ⟨nonempty, doc, seen, own, rfl⟩ := known
  obtain ⟨stored, found, rfl⟩ := seen.found admitted
  have written : ∀ other, (t.names old).object = some other →
      other.value = { stored.value with heldUntil := call.nowMs + inviteNameHoldMs } := by
    intro other same
    rw [moved] at same
    dsimp only at same
    rw [Function.update_self] at same
    cases same
    rfl
  have names : ∀ crewID, inviteName t crewID = inviteName s crewID := by
    intro crewID
    rw [moved]
    rfl
  have clock : t.clock = s.clock := by rw [moved]; rfl
  have lefts : t.left = s.left := by rw [moved]; rfl
  have unowned : ∀ crewID, ¬Owned t crewID old := by
    rintro crewID ⟨other, same, -, unheld⟩
    rw [written other same] at unheld
    unfold inviteNameHoldMs at unheld
    exact absurd unheld (by dsimp only; omega)
  constructor
  · intro after
    refine ⟨?_, ?_, ?_⟩
    · intro current
      have named : inviteName t call.crewID = old := (names _).trans current
      have owned := after.current call.crewID (by rw [named]; exact nonempty)
      rw [named] at owned
      exact unowned _ owned
    · intro j other same claimed _ name
      have apart : k ≠ j := by
        rintro rfl
        cases here.symm.trans same
        rw [phase] at claimed
        cases claimed
      have still : t.calls[j]? = some other := by
        rw [moved]
        exact (List.getElem?_set_ne apart).trans same
      have owned := after.claimed j other still claimed
      rw [name] at owned
      exact unowned _ owned
    · intro time left within
      rw [← lefts] at left
      rw [← clock] at within
      obtain ⟨other, same, -, held⟩ := after.kept call.crewID old time left within
      rw [written other same] at held
      dsimp only at held
      unfold inviteNameHoldMs at held
      omega
  · intro timed
    have others : ∀ name, name ≠ old → t.names name = s.names name := by
      intro name apart
      rw [moved]
      exact Function.update_of_ne apart _ _
    have owned : ∀ crewID name, Owned s crewID name → (name = old → crewID ≠ call.crewID) → Owned t crewID name := by
      rintro crewID name ⟨other, same, mine, unheld⟩ apart
      by_cases this : name = old
      · subst this
        cases found.symm.trans same
        exact absurd (mine.symm.trans own) (apart rfl)
      · refine ⟨other, ?_, mine, unheld⟩
        rw [others name this]
        exact same
    refine ⟨?_, ?_, ?_⟩
    · intro crewID named
      rw [names] at named ⊢
      apply owned _ _ (settled.current crewID named)
      rintro current rfl
      exact timed.moved current
    · apply claimed_of_set (congrArg State.calls moved)
      · intro claimed
        cases claimed
      · intro j other _ same claimed
        apply owned _ _ (settled.claimed j other same claimed)
        intro name crew
        exact timed.unclaimed j other same claimed crew name
    · intro crewID name time left within
      rw [lefts] at left
      rw [clock] at within
      obtain ⟨other, same, mine, held⟩ := settled.kept crewID name time left within
      by_cases this : name = old
      · subst this
        cases found.symm.trans same
        obtain rfl : crewID = call.crewID := mine.symm.trans own
        have early := timed.time time left within
        refine ⟨⟨(s.names name).fresh, { stored.value with heldUntil := call.nowMs + inviteNameHoldMs }⟩, ?_, mine, .inr ?_⟩
        · rw [moved]
          dsimp only
          rw [Function.update_self]
          rfl
        · exact Nat.add_le_add_right early _
      · refine ⟨other, ?_, mine, held⟩
        rw [others name this]
        exact same

theorem settled_step (sound : Sound s) (settled : Settled s) (moved : Moved s t action) : Settled t ↔ Timely s action := by
  cases moved with
  | ticked later moved =>
    subst moved
    refine iff_of_true ⟨settled.current, settled.claimed, fun crewID name time left within => ?_⟩ trivial
    exact settled.kept crewID name time left (later.trans_lt within)
  | called moved =>
    subst moved
    refine iff_of_true ⟨settled.current, fun k call found claimed => ?_, settled.kept⟩ trivial
    rcases getElem?_concat_cases found with old | ⟨-, rfl⟩
    · exact settled.claimed k call old claimed
    · cases claimed
  | still here known claimed timely moved =>
    subst moved
    refine iff_of_true ⟨settled.current, ?_, settled.kept⟩ timely
    apply claimed_of_set rfl
    · intro now
      exact settled.claimed _ _ here (claimed now)
    · intro j other _ found taken
      exact settled.claimed j other found taken
  | took here phase admitted moved =>
    exact iff_of_true (settled_took sound settled here phase admitted moved) (timely_of_phase here (by rw [phase]; exact nofun))
  | renamed here phase moved =>
    exact iff_of_true (settled_renamed sound settled here phase moved) (timely_of_phase here (by rw [phase]; exact nofun))
  | held here phase admitted moved =>
    rw [settled_held sound settled here phase admitted moved]
    constructor
    · intro timed other old version object same writing _
      cases here.symm.trans same
      cases phase.symm.trans writing
      exact timed
    · intro timely
      exact timely _ _ _ _ here phase admitted

theorem belongs_of_settled (settled : Settled s) : Belongs s := by
  constructor
  · intro crewID named
    obtain ⟨stored, object, own, unheld⟩ := settled.current crewID named
    refine ⟨⟨stored, object, own⟩, ?_⟩
    rintro other same ⟨-, positive, -⟩
    cases object.symm.trans same
    exact positive.ne' unheld
  · intro crewID name time left within
    obtain ⟨stored, object, own, -⟩ := settled.kept crewID name time left within
    exact ⟨stored, object, own⟩

end Step

/-! ## Every run -/

/-- Along exactly the runs whose holds are timed, the names are settled, and then each
belongs to its crew. -/
theorem belongs_always_iff (clock : Nat) (actions : List Action) :
    Always step (fun s => Belongs s ∧ Settled s) { clock } actions ↔ EachStep step Timely { clock } actions := by
  have start : Settled { clock } := by
    refine ⟨?_, ?_, ?_⟩
    · intro crewID named
      exact absurd rfl named
    · intro k call found
      cases found
    · intro crewID name time left
      cases left
  apply always_iff_eachStep Sound
  · intro s action t sound stepped
    exact sound_step sound (moved_of_step sound stepped)
  · intro s action t sound good stepped
    rw [← settled_step sound good.2 (moved_of_step sound stepped)]
    exact ⟨And.right, fun settled => ⟨belongs_of_settled settled, settled⟩⟩
  · constructor
    · intro k call found
      cases found
    · intro k call found
      cases found
  · exact ⟨belongs_of_settled start, start⟩

/-- The reads and writes of a call up to its hold, and the hold. -/
def toHold (k : Nat) : List Action := List.replicate 4 (.next k true)

def hold (k : Nat) : List Action := List.replicate 2 (.next k true)

/-- A crew leaves its name and comes back before the name is held, and another crew
takes the name when the hold is over. -/
def cameBack : List Action :=
  .SetInviteName "crew" "first" :: toHold 0 ++ .SetInviteName "crew" "second" :: toHold 1 ++
    .SetInviteName "crew" "first" :: toHold 2 ++ hold 2 ++ hold 1 ++ [.tick inviteNameHoldMs]

/-- The current name of the crew is held, the hold is over, and the name is free for
another crew. -/
theorem cameBack_expires :
    (run step { clock := 0 } cameBack).map (fun s => (s.calls.map Call.phase, inviteName s "crew",
        inviteNameState "other" "first" s.clock (s.names "first").read)) =
        some ([.done, .done, .done], "first", .free (.version 2)) ∧
      ¬Always step Belongs { clock := 0 } cameBack := by
  refine ⟨by decide, fun all => ?_⟩
  have current := (all.last rfl).current "crew" (by decide)
  exact current.2 ⟨2, ⟨"crew", true, inviteNameHoldMs⟩⟩ (by decide) (by decide)

end Mello.Backend.InviteNames
