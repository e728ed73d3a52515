import Mello.Library.Runs
import Mello.Library.Tables
import Mello.Library.Versioned

/-!
The head-to-head document of one crew, and the runs of `recomputeHead2head` that store it.
A run reads the records of the members, one after the other, and then the document, up to
three times. The computation itself leaves the model: of a document it keeps the records
that were read for it. Storage works but for version conflicts, and no member comes or goes.
-/

namespace Mello.Backend.Head2head
open Mello.Library Documents Runs Tables

/-- Milliseconds. -/
def head2headSessionDebounceMs : Int := 60000

/-- A record stands for the stats of a member in one place, and its number for how often
it was written. -/
structure Head2headDoc (Record : Type) where
  reads : Record → Nat
  updatedAt : Int

inductive Trigger where
  | session
  | library
  deriving DecidableEq, Repr

inductive Phase (Record : Type) where
  | readingStats (left : List Record)
  | readingDoc (attempt : Nat)
  | writing (attempt : Nat) (expect : Expect)
  | marking
  | clearing
  | done
  | failed
  deriving DecidableEq, Repr

structure Call (Record : Type) where
  trigger : Trigger
  nowMs : Int
  reads : Record → Nat := fun _ => 0
  phase : Phase Record

/-- `issued` has the last write of each record with a trigger. -/
structure State (Record : Type) where
  stats : Record → Nat := fun _ => 0
  issued : Record → Nat := fun _ => 0
  store : Store (Head2headDoc Record) := {}
  head2headDirty : Bool := false
  calls : List (Call Record) := []

inductive Action (Record : Type) where
  | writeStats (record : Record)
  | recompute (record : Record) (n : Nat) (trigger : Trigger) (nowMs : Int)
  | flush (nowMs : Int)
  | next (k : Nat)
  deriving DecidableEq, Repr

variable {Record : Type}

def State.goto (s : State Record) (k : Nat) (call : Call Record) (phase : Phase Record) : State Record :=
  { s with calls := s.calls.set k { call with phase } }

/-- The phase after a read of the document. -/
def debounce (call : Call Record) (attempt : Nat) : Option (Object (Head2headDoc Record)) → Phase Record
  | none => .writing attempt .any
  | some prev =>
    if call.trigger = .session ∧ call.nowMs - prev.value.updatedAt < head2headSessionDebounceMs then .marking
    else .writing attempt (.version prev.version)

/-- The next read or write of a run. -/
def advance [DecidableEq Record] (s : State Record) (k : Nat) (call : Call Record) : Option (State Record) :=
  match call.phase with
  | .readingStats [] => some (s.goto k call (.readingDoc 0))
  | .readingStats (record :: left) =>
    some (s.goto k { call with reads := Function.update call.reads record (s.stats record) } (.readingStats left))
  | .readingDoc attempt => some (s.goto k call (debounce call attempt s.store.object))
  | .writing attempt expect =>
    if s.store.admits expect then some { s.goto k call .clearing with store := s.store.put ⟨call.reads, call.nowMs⟩ }
    else some (s.goto k call (if attempt + 1 < 3 then .readingDoc (attempt + 1) else .failed))
  | .marking => some { s.goto k call .done with head2headDirty := true }
  | .clearing => some { s.goto k call .done with head2headDirty := false }
  | .done => none
  | .failed => none

/-- A trigger is for a write that was made. A flush takes the mark and starts a run as
for a session. -/
def step [DecidableEq Record] (records : List Record) (s : State Record) : Action Record → Option (State Record)
  | .writeStats record => some { s with stats := Function.update s.stats record (s.stats record + 1) }
  | .recompute record n trigger nowMs =>
    if record ∈ records ∧ n ≤ s.stats record then
      some { s with
        issued := Function.update s.issued record (max (s.issued record) n)
        calls := s.calls ++ [{ trigger, nowMs, phase := .readingStats records }] }
    else none
  | .flush nowMs =>
    if s.head2headDirty then
      some { s with
        head2headDirty := false
        calls := s.calls ++ [{ trigger := .session, nowMs, phase := .readingStats records }] }
    else some s
  | .next k =>
    match s.calls[k]? with
    | some call => advance s k call
    | none => none

/-! ## The law -/

/-- The write of the record that the stored document has, zero while there is none. -/
def included (s : State Record) (record : Record) : Nat :=
  (Versioned.value ⟨fun _ => 0, 0⟩ s.store).reads record

def Phase.ended : Phase Record → Bool
  | .done | .failed => true
  | _ => false

/-- With no run in progress, the crew is marked or the document has every write with a
trigger. -/
def UpToDate (s : State Record) : Prop :=
  (∀ call ∈ s.calls, call.phase.ended = true) → s.head2headDirty = true ∨ ∀ record, s.issued record ≤ included s record

/-- The run has the write of the record in its reads, or will, and has still to store
them; or it is about to mark the crew. -/
def Sees (record : Record) (n : Nat) (call : Call Record) : Prop :=
  match call.phase with
  | .readingStats left => record ∈ left ∨ n ≤ call.reads record
  | .readingDoc _ => n ≤ call.reads record
  | .writing _ _ => n ≤ call.reads record
  | .marking => True
  | _ => False

/-- A run other than this one sees the last write of the record with a trigger. -/
def Others (s : State Record) (k : Nat) (record : Record) : Prop :=
  ∃ (j : Nat) (call : Call Record), j ≠ k ∧ s.calls[j]? = some call ∧ Sees record (s.issued record) call

def Covered (s : State Record) (record : Record) : Prop :=
  s.head2headDirty = true ∨ s.issued record ≤ included s record ∨
    ∃ (j : Nat) (call : Call Record), s.calls[j]? = some call ∧ Sees record (s.issued record) call

/-- A run that writes has each record's last write with a trigger, or the crew is marked
or another run sees it; a run that clears the mark, or gives up, finds it in the document. -/
def Kept (s : State Record) : Action Record → Prop
  | .next k => ∀ call, s.calls[k]? = some call → ∀ record,
      match call.phase with
      | .writing attempt expect =>
        if s.store.admits expect then
          s.head2headDirty = true ∨ s.issued record ≤ call.reads record ∨ Others s k record
        else attempt + 1 < 3 ∨ s.head2headDirty = true ∨ s.issued record ≤ included s record ∨ Others s k record
      | .clearing => s.issued record ≤ included s record ∨ Others s k record
      | _ => True
  | _ => True

/-! ## One step -/

section Step

variable {records : List Record} {s t : State Record} {action : Action Record} {k : Nat} {call : Call Record}
  {record : Record}

/-- Each trigger is for a write that was made, of a member's record. -/
structure Sound (records : List Record) (s : State Record) : Prop where
  made : ∀ record, s.issued record ≤ s.stats record
  known : ∀ record, record ∉ records → s.issued record = 0

/-- The kinds of step. -/
inductive Moved [DecidableEq Record] (records : List Record) (s t : State Record) : Action Record → Prop
  | wroteStats {record : Record} (moved : t = { s with stats := Function.update s.stats record (s.stats record + 1) }) :
      Moved records s t (.writeStats record)
  | began {record : Record} {n : Nat} {trigger : Trigger} {nowMs : Int} (member : record ∈ records)
      (made : n ≤ s.stats record)
      (moved : t = { s with
        issued := Function.update s.issued record (max (s.issued record) n)
        calls := s.calls ++ [{ trigger, nowMs, phase := .readingStats records }] }) :
      Moved records s t (.recompute record n trigger nowMs)
  | flushed {nowMs : Int} (moved : t = { s with
        head2headDirty := false
        calls := s.calls ++ [{ trigger := .session, nowMs, phase := .readingStats records }] }) :
      Moved records s t (.flush nowMs)
  | idle {nowMs : Int} (moved : t = s) : Moved records s t (.flush nowMs)
  | still {k : Nat} {call : Call Record} {reads : Record → Nat} {phase : Phase Record} (here : s.calls[k]? = some call)
      (sees : ∀ record, Sees record (s.issued record) call → Sees record (s.issued record) { call with reads, phase })
      (kept : Kept s (.next k)) (moved : t = s.goto k { call with reads } phase) : Moved records s t (.next k)
  | wrote {k : Nat} {call : Call Record} {attempt : Nat} {expect : Expect} (here : s.calls[k]? = some call)
      (phase : call.phase = .writing attempt expect) (admitted : s.store.admits expect = true)
      (moved : t = { s.goto k call .clearing with store := s.store.put ⟨call.reads, call.nowMs⟩ }) :
      Moved records s t (.next k)
  | gaveUp {k : Nat} {call : Call Record} {attempt : Nat} {expect : Expect} (here : s.calls[k]? = some call)
      (phase : call.phase = .writing attempt expect) (refused : s.store.admits expect = false) (last : ¬attempt + 1 < 3)
      (moved : t = s.goto k call .failed) : Moved records s t (.next k)
  | marked {k : Nat} {call : Call Record} (here : s.calls[k]? = some call) (phase : call.phase = .marking)
      (moved : t = { s.goto k call .done with head2headDirty := true }) : Moved records s t (.next k)
  | cleared {k : Nat} {call : Call Record} (here : s.calls[k]? = some call) (phase : call.phase = .clearing)
      (moved : t = { s.goto k call .done with head2headDirty := false }) : Moved records s t (.next k)

/-- Only a write and a clear have something to keep. -/
theorem kept_of_phase (here : s.calls[k]? = some call) (reading : ∀ attempt expect, call.phase ≠ .writing attempt expect)
    (unwritten : call.phase ≠ .clearing) : Kept s (.next k) := by
  intro other same record
  cases here.symm.trans same
  split
  · rename_i attempt expect phase
    exact absurd phase (reading attempt expect)
  · rename_i phase
    exact absurd phase unwritten
  · trivial

theorem moved_of_step [DecidableEq Record] (sound : Sound records s) (stepped : step records s action = some t) :
    Moved records s t action := by
  cases action with
  | writeStats record => exact .wroteStats (Option.some.inj stepped).symm
  | recompute record n trigger nowMs =>
    rw [step] at stepped
    split_ifs at stepped with here
    exact .began here.1 here.2 (Option.some.inj stepped).symm
  | flush nowMs =>
    rw [step] at stepped
    split_ifs at stepped
    · exact .flushed (Option.some.inj stepped).symm
    · exact .idle (Option.some.inj stepped).symm
  | next k =>
    rw [step] at stepped
    split at stepped
    · rename_i call here
      unfold advance at stepped
      split at stepped
      · rename_i phase
        refine .still here ?_ (kept_of_phase here (by rw [phase]; exact nofun) (by rw [phase]; exact nofun))
          (Option.some.inj stepped).symm
        intro record sees
        rw [Sees, phase] at sees
        rcases sees with member | read
        · cases member
        · exact read
      · rename_i record left phase
        refine .still here ?_ (kept_of_phase here (by rw [phase]; exact nofun) (by rw [phase]; exact nofun))
          (Option.some.inj stepped).symm
        intro other sees
        rw [Sees, phase] at sees
        by_cases same : other = record
        · subst same
          right
          dsimp only
          rw [Function.update_self]
          exact sound.made other
        · rcases sees with member | read
          · left
            rcases List.mem_cons.mp member with now | later
            · exact absurd now same
            · exact later
          · right
            dsimp only
            rw [Function.update_of_ne same]
            exact read
      · rename_i attempt phase
        refine .still here ?_ (kept_of_phase here (by rw [phase]; exact nofun) (by rw [phase]; exact nofun))
          (Option.some.inj stepped).symm
        intro record sees
        rw [Sees, phase] at sees
        unfold debounce
        cases s.store.object with
        | none => exact sees
        | some prev =>
          dsimp only
          split_ifs
          · trivial
          · exact sees
      · rename_i attempt expect phase
        split_ifs at stepped with admitted again
        · exact .wrote here phase admitted (Option.some.inj stepped).symm
        · refine .still here ?_ ?_ (Option.some.inj stepped).symm
          · intro record sees
            rw [Sees, phase] at sees
            exact sees
          · intro other same record
            cases here.symm.trans same
            rw [phase]
            dsimp only
            rw [if_neg admitted]
            exact .inl again
        · exact .gaveUp here phase (Bool.not_eq_true _ ▸ admitted) again (Option.some.inj stepped).symm
      · rename_i phase
        exact .marked here phase (Option.some.inj stepped).symm
      · rename_i phase
        exact .cleared here phase (Option.some.inj stepped).symm
      · cases stepped
      · cases stepped
    · cases stepped

theorem sound_step [DecidableEq Record] (sound : Sound records s) (moved : Moved records s t action) : Sound records t := by
  cases moved with
  | wroteStats moved =>
    rename_i record
    subst moved
    refine ⟨fun other => (sound.made other).trans ?_, sound.known⟩
    by_cases same : other = record
    · subst same
      dsimp only
      rw [Function.update_self]
      exact Nat.le_succ _
    · dsimp only
      rw [Function.update_of_ne same]
  | began member made moved =>
    rename_i record n trigger nowMs
    subst moved
    constructor
    · intro other
      by_cases same : other = record
      · subst same
        dsimp only
        rw [Function.update_self]
        exact max_le (sound.made other) made
      · dsimp only
        rw [Function.update_of_ne same]
        exact sound.made other
    · intro other unknown
      dsimp only
      rw [Function.update_of_ne (fun same => unknown (by rw [same]; exact member))]
      exact sound.known other unknown
  | flushed moved | idle moved | still here sees kept moved | wrote here phase admitted moved
  | gaveUp here phase refused last moved | marked here phase moved | cleared here phase moved =>
    subst moved
    exact ⟨sound.made, sound.known⟩

/-- Where a run moved on that sees nothing any more, it is the others that see. -/
theorem sees_set {next : Call Record} (calls : t.calls = s.calls.set k next)
    (blind : ¬Sees record (s.issued record) next) :
    (∃ (j : Nat) (other : Call Record), t.calls[j]? = some other ∧ Sees record (s.issued record) other) ↔ Others s k record := by
  rw [calls]
  constructor
  · rintro ⟨j, other, found, sees⟩
    rcases getElem?_set_cases found with ⟨-, rfl⟩ | ⟨apart, old⟩
    · exact absurd sees blind
    · exact ⟨j, other, apart, old, sees⟩
  · rintro ⟨j, other, apart, found, sees⟩
    exact ⟨j, other, (List.getElem?_set_ne apart.symm).trans found, sees⟩

/-- A new run takes nothing away. -/
theorem sees_append {calls : List (Call Record)} {next : Call Record} {n : Nat}
    (seen : ∃ (j : Nat) (other : Call Record), calls[j]? = some other ∧ Sees record n other) :
    ∃ (j : Nat) (other : Call Record), (calls ++ [next])[j]? = some other ∧ Sees record n other := by
  obtain ⟨j, other, found, sees⟩ := seen
  exact ⟨j, other, (List.getElem?_append_left (lt_length found)).trans found, sees⟩

theorem covered_step [DecidableEq Record] (sound : Sound records s) (covered : ∀ record, Covered s record)
    (moved : Moved records s t action) : (∀ record, Covered t record) ↔ Kept s action := by
  cases moved with
  | wroteStats moved =>
    subst moved
    exact iff_of_true covered trivial
  | began member made moved =>
    rename_i record n trigger nowMs
    subst moved
    refine iff_of_true (fun other => ?_) trivial
    by_cases same : other = record
    · subst same
      exact .inr (.inr ⟨s.calls.length, _, List.getElem?_concat_length, .inl member⟩)
    · unfold Covered
      dsimp only
      rw [Function.update_of_ne same]
      rcases covered other with dirty | stored | seen
      · exact .inl dirty
      · exact .inr (.inl stored)
      · exact .inr (.inr (sees_append seen))
  | flushed moved =>
    subst moved
    refine iff_of_true (fun record => ?_) trivial
    refine .inr (.inr ⟨s.calls.length, _, List.getElem?_concat_length, ?_⟩)
    by_cases member : record ∈ records
    · exact .inl member
    · right
      dsimp only
      rw [sound.known record member]
  | idle moved =>
    subst moved
    exact iff_of_true covered trivial
  | still here sees kept moved =>
    rename_i k call reads phase
    subst moved
    refine iff_of_true (fun record => ?_) kept
    rcases covered record with dirty | stored | ⟨j, other, found, seen⟩
    · exact .inl dirty
    · exact .inr (.inl stored)
    · refine .inr (.inr ?_)
      by_cases same : j = k
      · subst same
        cases here.symm.trans found
        exact ⟨j, _, List.getElem?_set_self (lt_length here), sees record seen⟩
      · exact ⟨j, other, (List.getElem?_set_ne (Ne.symm same)).trans found, seen⟩
  | wrote here phase admitted moved =>
    rename_i k call attempt expect
    have blind : ∀ record, ¬Sees record (s.issued record) { call with phase := .clearing } := fun record sees => sees
    have other := fun record => sees_set (congrArg State.calls moved) (blind record)
    have after : ∀ record, Covered t record ↔
        s.head2headDirty = true ∨ s.issued record ≤ call.reads record ∨ Others s k record := by
      intro record
      rw [← other record, moved]
      exact Iff.rfl
    constructor
    · intro covered found same record
      cases here.symm.trans same
      rw [phase]
      dsimp only
      rw [if_pos admitted]
      exact (after record).mp (covered record)
    · intro kept record
      have now := kept call here record
      rw [phase] at now
      dsimp only at now
      rw [if_pos admitted] at now
      exact (after record).mpr now
  | gaveUp here phase refused last moved =>
    rename_i k call attempt expect
    have unadmitted : ¬s.store.admits expect = true := by rw [refused]; exact Bool.false_ne_true
    have blind : ∀ record, ¬Sees record (s.issued record) { call with phase := .failed } := fun record sees => sees
    have other := fun record => sees_set (congrArg State.calls moved) (blind record)
    have after : ∀ record, Covered t record ↔
        s.head2headDirty = true ∨ s.issued record ≤ included s record ∨ Others s k record := by
      intro record
      rw [← other record, moved]
      exact Iff.rfl
    constructor
    · intro covered found same record
      cases here.symm.trans same
      rw [phase]
      dsimp only
      rw [if_neg unadmitted]
      exact .inr ((after record).mp (covered record))
    · intro kept record
      have now := kept call here record
      rw [phase] at now
      dsimp only at now
      rw [if_neg unadmitted] at now
      rcases now with again | now
      · exact absurd again last
      · exact (after record).mpr now
  | marked here phase moved =>
    subst moved
    exact iff_of_true (fun record => .inl rfl) (kept_of_phase here (by rw [phase]; exact nofun) (by rw [phase]; exact nofun))
  | cleared here phase moved =>
    rename_i k call
    have blind : ∀ record, ¬Sees record (s.issued record) { call with phase := .done } := fun record sees => sees
    have other := fun record => sees_set (congrArg State.calls moved) (blind record)
    have after : ∀ record, Covered t record ↔ s.issued record ≤ included s record ∨ Others s k record := by
      intro record
      rw [← other record, moved]
      exact or_iff_right Bool.false_ne_true
    constructor
    · intro covered found same record
      cases here.symm.trans same
      rw [phase]
      exact (after record).mp (covered record)
    · intro kept record
      have now := kept call here record
      rw [phase] at now
      exact (after record).mpr now

/-- A run that is over sees nothing. -/
theorem upToDate_of_covered (covered : ∀ record, Covered s record) : UpToDate s := by
  intro done
  by_cases dirty : s.head2headDirty = true
  · exact .inl dirty
  · refine .inr fun record => ?_
    rcases covered record with marked | stored | ⟨j, call, found, sees⟩
    · exact absurd marked dirty
    · exact stored
    · have ended := done call (List.mem_of_getElem? found)
      unfold Sees at sees
      cases phase : call.phase with
      | readingStats | readingDoc | writing | marking | clearing =>
        rw [phase] at ended
        cases ended
      | done | failed =>
        rw [phase] at sees
        exact sees.elim

end Step

/-! ## Every run -/

/-- Along exactly the runs whose writes and clears keep each write with a trigger, each
such write is in the document, or seen by a run in progress, or the crew is marked. Then
with no run in progress the document is up to date, or the crew is marked. -/
theorem upToDate_always_iff [DecidableEq Record] (records : List Record) (actions : List (Action Record)) :
    Always (step records) (fun s => UpToDate s ∧ ∀ record, Covered s record) {} actions ↔
      EachStep (step records) Kept {} actions := by
  have start : ∀ record : Record, Covered {} record := fun record => .inr (.inl (Nat.zero_le _))
  apply always_iff_eachStep (Sound records)
  · intro s action t sound stepped
    exact sound_step sound (moved_of_step sound stepped)
  · intro s action t sound good stepped
    rw [← covered_step sound good.2 (moved_of_step sound stepped)]
    exact ⟨And.right, fun covered => ⟨upToDate_of_covered covered, covered⟩⟩
  · exact ⟨fun record => Nat.zero_le _, fun record _ => rfl⟩
  · exact ⟨upToDate_of_covered start, start⟩

/-- The document is stored for one session, the next one marks the crew, and the first
run clears the mark. -/
def clearedMark : List (Action String) :=
  [.writeStats "member", .recompute "member" 1 .session 0, .next 0, .next 0, .next 0, .next 0,
    .writeStats "member", .recompute "member" 2 .session 1, .next 1, .next 1, .next 1, .next 1, .next 0]

/-- Both runs are done, the crew is not marked, and the document has not the last write. -/
theorem clearedMark_behind :
    (run (step ["member"]) {} clearedMark).map (fun s => (s.calls.map Call.phase, s.head2headDirty, s.issued "member",
        included s "member")) = some ([.done, .done], false, 2, 1) ∧
      ¬Always (step ["member"]) UpToDate {} clearedMark := by
  refine ⟨by decide, fun all => ?_⟩
  have upToDate := (all.last rfl) (by decide)
  rcases upToDate with dirty | stored
  · exact absurd dirty (by decide)
  · exact absurd (stored "member") (by decide)

end Mello.Backend.Head2head
