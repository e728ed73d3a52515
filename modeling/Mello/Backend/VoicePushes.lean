import Mello.Library.Runs
import Mello.Library.Tables

/-!
The voice_update pushes of one crew: each takes a snapshot of the crew's channels, one
after the other, and then its number. Joins, leaves, sweeps and other pushes go on in
between. The flat member list for old clients names no channel and leaves the model.
-/

namespace Mello.Backend.VoicePushes
open Mello.Library Runs Tables

variable {Channel Roster : Type}

/-- The members of a channel, and how often they changed. -/
structure Room (Roster : Type) where
  roster : Roster
  changes : Nat := 0
  deriving DecidableEq, Repr

/-- The members of a channel as a push has them, after `taken` changes. -/
structure Snapshot (Channel Roster : Type) where
  channel : Channel
  roster : Roster
  taken : Nat
  deriving DecidableEq, Repr

/-- A run of `PushVoiceUpdate`: the channels that it has still to read, and its `seq`
once it has one. -/
structure Push (Channel Roster : Type) where
  left : List Channel
  snapshots : List (Snapshot Channel Roster) := []
  seq : Option Nat := none
  deriving DecidableEq, Repr

structure State (Channel Roster : Type) where
  rooms : Channel → Room Roster
  voiceUpdateSeq : Nat := 0
  pushes : List (Push Channel Roster) := []

/-- The state before any push. -/
def start (rooms : Channel → Room Roster) : State Channel Roster := { rooms }

inductive Action (Channel Roster : Type) where
  | change (channel : Channel) (roster : Roster)
  | push (channels : List Channel)
  | GetVoiceChannelSnapshot (k : Nat)
  | nextVoiceSeq (k : Nat)
  deriving DecidableEq, Repr

def snapshot (rooms : Channel → Room Roster) (channel : Channel) : Snapshot Channel Roster :=
  ⟨channel, (rooms channel).roster, (rooms channel).changes⟩

def step [DecidableEq Channel] (s : State Channel Roster) : Action Channel Roster → Option (State Channel Roster)
  | .change channel roster =>
    some { s with rooms := Function.update s.rooms channel ⟨roster, (s.rooms channel).changes + 1⟩ }
  | .push channels => some { s with pushes := s.pushes ++ [{ left := channels }] }
  | .GetVoiceChannelSnapshot k =>
    match s.pushes[k]? with
    | some ⟨channel :: left, snapshots, none⟩ =>
      some { s with pushes := s.pushes.set k ⟨left, snapshots ++ [snapshot s.rooms channel], none⟩ }
    | _ => none
  | .nextVoiceSeq k =>
    match s.pushes[k]? with
    | some ⟨[], snapshots, none⟩ =>
      some { s with
        voiceUpdateSeq := s.voiceUpdateSeq + 1
        pushes := s.pushes.set k ⟨[], snapshots, some (s.voiceUpdateSeq + 1)⟩ }
    | _ => none

/-! ## The law -/

/-- No snapshot of the first push was taken later than one of the second push of the
same channel. -/
def NoLater (p q : Push Channel Roster) : Prop :=
  ∀ a ∈ p.snapshots, ∀ b ∈ q.snapshots, a.channel = b.channel → a.taken ≤ b.taken

/-- A push with a number, by its place. -/
def Numbered (s : State Channel Roster) (i : Nat) (p : Push Channel Roster) (seq : Nat) : Prop :=
  s.pushes[i]? = some p ∧ p.seq = some seq

/-- The pushes with numbers are in the order of their snapshots, and so is each that a
client keeps for its number. -/
structure Ordered (s : State Channel Roster) : Prop where
  seqs : ∀ i p m j q n, Numbered s i p m → Numbered s j q n → m < n → NoLater p q
  kept : ∀ i p m j q n, Numbered s i p m → Numbered s j q n → i ≠ j → m ≤ n → NoLater p q

/-- A push takes its number when no push with a number has a later snapshot of one of
its channels. -/
def Unovertaken (s : State Channel Roster) : Action Channel Roster → Prop
  | .nextVoiceSeq k => ∀ p, s.pushes[k]? = some p → ∀ j q n, Numbered s j q n → NoLater q p
  | _ => True

/-- The numbers were given, each once. -/
structure Given (s : State Channel Roster) : Prop where
  bounded : ∀ i p m, Numbered s i p m → m ≤ s.voiceUpdateSeq
  once : ∀ i p j q m, Numbered s i p m → Numbered s j q m → i = j

/-! ## One step -/

section Step

variable {s t : State Channel Roster} {action : Action Channel Roster}

/-- What a step does to the numbers: nothing, or it gives the next one. -/
inductive Effect (s t : State Channel Roster) : Action Channel Roster → Prop
  | still {action : Action Channel Roster} (counter : t.voiceUpdateSeq = s.voiceUpdateSeq)
      (same : ∀ i p m, Numbered t i p m ↔ Numbered s i p m) (unnumbered : ∀ k, action ≠ .nextVoiceSeq k) : Effect s t action
  | numbered {k : Nat} {snapshots : List (Snapshot Channel Roster)} (here : s.pushes[k]? = some ⟨[], snapshots, none⟩)
      (counter : t.voiceUpdateSeq = s.voiceUpdateSeq + 1)
      (same : ∀ i p m, Numbered t i p m ↔
        (i = k ∧ p = ⟨[], snapshots, some (s.voiceUpdateSeq + 1)⟩ ∧ m = s.voiceUpdateSeq + 1) ∨ Numbered s i p m) :
      Effect s t (.nextVoiceSeq k)

/-- A push without a number is no numbered one, whatever it becomes. -/
theorem numbered_set {k : Nat} {old new : Push Channel Roster} (here : s.pushes[k]? = some old) (none : old.seq = none)
    {i : Nat} {p : Push Channel Roster} {m : Nat} (moved : t.pushes = s.pushes.set k new) :
    Numbered t i p m ↔ (i = k ∧ p = new ∧ new.seq = some m) ∨ Numbered s i p m := by
  have inside : k < s.pushes.length := lt_length here
  unfold Numbered
  rw [moved]
  rcases eq_or_ne i k with rfl | apart
  · rw [List.getElem?_set_self inside, here]
    constructor
    · rintro ⟨same, seq⟩
      cases same
      exact .inl ⟨rfl, rfl, seq⟩
    · rintro (⟨-, rfl, seq⟩ | ⟨same, seq⟩)
      · exact ⟨rfl, seq⟩
      · cases same
        rw [none] at seq
        cases seq
  · rw [List.getElem?_set_ne apart.symm]
    constructor
    · exact .inr
    · rintro (⟨same, -⟩ | both)
      · exact absurd same apart
      · exact both

theorem effect_of_step [DecidableEq Channel] (stepped : step s action = some t) : Effect s t action := by
  cases action with
  | change channel roster =>
    cases stepped
    exact .still rfl (fun i p m => Iff.rfl) nofun
  | push channels =>
    cases stepped
    refine .still rfl (fun i p m => ?_) nofun
    unfold Numbered
    constructor
    · rintro ⟨found, seq⟩
      rcases getElem?_concat_cases found with old | ⟨-, rfl⟩
      · exact ⟨old, seq⟩
      · cases seq
    · rintro ⟨found, seq⟩
      exact ⟨by rw [List.getElem?_append_left (lt_length found)]; exact found, seq⟩
  | GetVoiceChannelSnapshot k =>
    rw [step] at stepped
    split at stepped
    · rename_i channel left snapshots here
      cases stepped
      refine .still rfl (fun i p m => ?_) nofun
      rw [numbered_set here rfl rfl]
      exact or_iff_right nofun
    · cases stepped
  | nextVoiceSeq k =>
    rw [step] at stepped
    split at stepped
    · rename_i snapshots here
      cases stepped
      refine .numbered here rfl fun i p m => ?_
      rw [numbered_set here rfl rfl]
      apply or_congr_left
      apply and_congr_right
      intro _
      apply and_congr_right
      intro _
      exact Option.some_inj.trans eq_comm
    · cases stepped

theorem given_step (given : Given s) (effect : Effect s t action) : Given t := by
  cases effect with
  | still counter same unnumbered =>
    constructor
    · intro i p m here
      rw [counter]
      exact given.bounded i p m ((same i p m).mp here)
    · intro i p j q m here there
      exact given.once i p j q m ((same i p m).mp here) ((same j q m).mp there)
  | numbered here counter same =>
    constructor
    · intro i p m numbered
      rcases (same i p m).mp numbered with ⟨-, -, rfl⟩ | old
      · exact counter.ge
      · have bound := given.bounded i p m old
        omega
    · intro i p j q m first second
      rcases (same i p m).mp first with ⟨rfl, -, rfl⟩ | old
      · rcases (same j q _).mp second with ⟨rfl, -⟩ | other
        · rfl
        · have bound := given.bounded j q _ other
          omega
      · rcases (same j q m).mp second with ⟨rfl, -, rfl⟩ | other
        · have bound := given.bounded i p _ old
          omega
        · exact given.once i p j q m old other

/-- Two pushes never share a number, so a client that keeps the higher one loses nothing. -/
theorem ordered_of_seqs (given : Given s)
    (seqs : ∀ i p m j q n, Numbered s i p m → Numbered s j q n → m < n → NoLater p q) : Ordered s := by
  refine ⟨seqs, fun i p m j q n first second apart order => ?_⟩
  rcases Nat.lt_or_eq_of_le order with less | rfl
  · exact seqs i p m j q n first second less
  · exact absurd (given.once i p j q m first second) apart

/-- The step that gives a number keeps the order exactly when the push was not overtaken. -/
theorem ordered_step (given : Given s) (ordered : Ordered s) (effect : Effect s t action) :
    Ordered t ↔ Unovertaken s action := by
  have next := given_step given effect
  cases effect with
  | still counter same unnumbered =>
    refine iff_of_true (ordered_of_seqs next ?_) ?_
    · intro i p m j q n first second less
      exact ordered.seqs i p m j q n ((same i p m).mp first) ((same j q n).mp second) less
    · cases action with
      | nextVoiceSeq k => exact absurd rfl (unnumbered k)
      | change | push | GetVoiceChannelSnapshot => trivial
  | numbered here counter same =>
    rename_i k snapshots
    have newest := (same k _ _).mpr (.inl ⟨rfl, rfl, rfl⟩)
    constructor
    · intro after p found j q n numbered
      have bound := given.bounded j q n numbered
      have behind := after.seqs j q n k _ _ ((same j q n).mpr (.inr numbered)) newest (by omega)
      obtain rfl := Option.some.inj (here.symm.trans found)
      exact behind
    · intro unovertaken
      apply ordered_of_seqs next
      intro i p m j q n first second less
      rcases (same i p m).mp first with ⟨-, -, rfl⟩ | old
      · rcases (same j q n).mp second with ⟨-, -, rfl⟩ | other
        · exact absurd less (lt_irrefl _)
        · have bound := given.bounded j q n other
          omega
      · rcases (same j q n).mp second with ⟨-, rfl, -⟩ | other
        · exact unovertaken _ here i p m old
        · exact ordered.seqs i p m j q n old other less

end Step

/-! ## Every run -/

variable [DecidableEq Channel]

end Mello.Backend.VoicePushes
