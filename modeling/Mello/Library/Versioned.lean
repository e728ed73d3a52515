import Mello.Library.Documents

/-!
Writes under the version that was read. A version is given once, so a write that the
store takes finds the document that its writer had read, whatever came between. A
writer that read nothing asks for an absent document, and finds none.
-/

namespace Mello.Library.Versioned
open Documents

variable {Doc : Type*}

/-- The stored document, the empty one while there is none. -/
def value (empty : Doc) (store : Store Doc) : Doc :=
  match store.object with
  | some stored => stored.value
  | none => empty

/-- What a read gives a writer: the document and the version to write under. A failed
read gives the same as an absent document. -/
def take (empty : Doc) : Read Doc → Doc × Expect
  | .failed => (empty, .absent)
  | .absent => (empty, .absent)
  | .found stored => (stored.value, .version stored.version)

/-- A document that the store had under a version, or has not at all. -/
inductive Seen (empty : Doc) (store : Store Doc) : Doc → Expect → Prop
  | absent : Seen empty store empty .absent
  | version (stored : Object Doc) (given : stored.version < store.fresh)
      (same : ∀ other, store.object = some other → other.version = stored.version → other = stored) :
      Seen empty store stored.value (.version stored.version)

section Laws

variable {empty doc other : Doc} {store : Store Doc} {expect : Expect}

theorem seen_found {stored : Object Doc} (here : store.object = some stored) :
    Seen empty store stored.value (.version stored.version) := by
  refine .version stored (store.bounded stored here) ?_
  intro other found _
  exact Option.some.inj (found.symm.trans here)

theorem seen_take (works : Bool) :
    Seen empty store (take empty (if works then store.read else .failed)).1
      (take empty (if works then store.read else .failed)).2 := by
  cases works with
  | false => exact .absent
  | true =>
    simp only [if_true]
    unfold Store.read
    cases here : store.object with
    | none => exact .absent
    | some stored => exact seen_found here

/-- Another write takes nothing from what was seen. -/
theorem Seen.put (seen : Seen empty store doc expect) (other : Doc) : Seen empty (store.put other) doc expect := by
  cases seen with
  | absent => exact .absent
  | version stored given same =>
    refine .version stored (Nat.lt_succ_of_lt given) ?_
    intro found here version
    cases here
    exact absurd version.symm given.ne

/-- A write that is taken finds what its writer saw. -/
theorem Seen.admitted (seen : Seen empty store doc expect) (admitted : store.admits expect = true) :
    value empty store = doc := by
  cases seen with
  | absent =>
    have none : store.object = none := Option.isNone_iff_eq_none.mp admitted
    unfold value
    rw [none]
  | version stored given same =>
    unfold Store.admits at admitted
    rw [beq_iff_eq] at admitted
    obtain ⟨other, here, version⟩ := Option.map_eq_some_iff.mp admitted
    obtain rfl := same other here version
    unfold value
    rw [here]

theorem Seen.found {v : Nat} (seen : Seen empty store doc (.version v)) (admitted : store.admits (.version v) = true) :
    ∃ stored, store.object = some stored ∧ stored.value = doc := by
  cases seen with
  | version stored given same =>
    unfold Store.admits at admitted
    rw [beq_iff_eq] at admitted
    obtain ⟨other, here, version⟩ := Option.map_eq_some_iff.mp admitted
    exact ⟨other, here, congrArg Object.value (same other here version)⟩

end Laws

end Mello.Library.Versioned
