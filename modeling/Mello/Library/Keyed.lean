import Mathlib

/-!
Maps of finitely many keys: a value under each key, and what all values hold together.
-/

namespace Mello.Library.Keyed

variable {Key Value : Type*} [DecidableEq Key]

abbrev Table (Key Value : Type*) := AList fun _ : Key => Value

/-- The sum of a measure over all values. -/
def total (measure : Value → Nat) (table : Table Key Value) : Nat := (table.entries.map fun e => measure e.2).sum

/-- A value that is put in the place of another one, or of none. -/
theorem total_insert (measure : Value → Nat) (table : Table Key Value) (key : Key) (value : Value) :
    total measure (table.insert key value) + (table.lookup key).elim 0 measure = total measure table + measure value := by
  unfold total
  rw [AList.entries_insert, List.map_cons, List.sum_cons]
  by_cases member : key ∈ table.entries.keys
  · obtain ⟨old, front, back, fresh, split, rest⟩ := List.exists_of_kerase member
    have here : table.lookup key = some old := by
      rw [← Option.mem_def, AList.mem_lookup_iff, split]
      exact List.mem_append_right _ List.mem_cons_self
    rw [here, rest, split, List.map_append, List.map_append, List.map_cons, List.sum_append, List.sum_append, List.sum_cons,
      Option.elim_some]
    dsimp only
    omega
  · have none : table.lookup key = none := AList.lookup_eq_none.mpr member
    rw [none, List.kerase_of_notMem_keys member, Option.elim_none]
    dsimp only
    omega

/-- The same keys, with each value changed. -/
def mapValues (f : Value → Value) (table : Table Key Value) : Table Key Value where
  entries := table.entries.map fun e => ⟨e.1, f e.2⟩
  nodupKeys := by
    have keys : (table.entries.map fun e => (⟨e.1, f e.2⟩ : Sigma fun _ : Key => Value)).keys = table.entries.keys := by
      rw [List.keys, List.map_map]
      rfl
    rw [List.NodupKeys, keys]
    exact table.nodupKeys

theorem lookup_mapValues (f : Value → Value) (table : Table Key Value) (key : Key) :
    (mapValues f table).lookup key = (table.lookup key).map f := by
  unfold AList.lookup
  change (table.entries.map fun e => (⟨e.1, f e.2⟩ : Sigma fun _ : Key => Value)).dlookup key = _
  induction table.entries with
  | nil => rfl
  | cons e rest ih =>
    obtain ⟨other, value⟩ := e
    rw [List.map_cons]
    rcases eq_or_ne key other with rfl | apart
    · rw [List.dlookup_cons_eq, List.dlookup_cons_eq, Option.map_some]
    · rw [List.dlookup_cons_ne _ _ apart, List.dlookup_cons_ne _ _ apart, ih]

/-- The values, in the order of the table. -/
def values (table : Table Key Value) : List Value := table.entries.map Sigma.snd

/-- Where the values tell their keys, a value that is put replaces the one that tells the same. -/
theorem values_insert (key : Value → Key) {table : Table Key Value}
    (keyed : ∀ k value, table.lookup k = some value → key value = k) (k : Key) (value : Value) :
    values (table.insert k value) = value :: (values table).filter fun other => key other ≠ k := by
  have told : ∀ e ∈ table.entries, key e.2 = e.1 := fun e member => keyed e.1 e.2 (AList.mem_lookup_iff.mpr member)
  have rest : ∀ entries : List (Sigma fun _ : Key => Value), entries.NodupKeys → (∀ e ∈ entries, key e.2 = e.1) →
      (entries.kerase k).map Sigma.snd = (entries.map Sigma.snd).filter fun other => key other ≠ k := by
    intro entries distinct told
    induction entries with
    | nil => rfl
    | cons e rest ih =>
      obtain ⟨fresh, distinct⟩ := List.nodupKeys_cons.mp distinct
      have own := told e List.mem_cons_self
      have later := ih distinct fun other member => told other (List.mem_cons_of_mem _ member)
      by_cases same : k = e.1
      · have none : rest.kerase k = rest := List.kerase_of_notMem_keys (same ▸ fresh)
        rw [List.kerase_cons_eq same, List.map_cons, List.filter_cons_of_neg (by simp [own, same]), ← later, none]
      · rw [List.kerase_cons_ne same, List.map_cons, List.map_cons, List.filter_cons_of_pos (by simp [own, Ne.symm same]),
          later]
  rw [values, AList.entries_insert, List.map_cons, rest _ table.nodupKeys told]
  rfl

/-- The entries with values that are kept. -/
def filterValues (keep : Value → Bool) (table : Table Key Value) : Table Key Value where
  entries := table.entries.filter fun e => keep e.2
  nodupKeys := table.nodupKeys.sublist List.filter_sublist

theorem lookup_filterValues (keep : Value → Bool) (table : Table Key Value) (key : Key) :
    (filterValues keep table).lookup key = (table.lookup key).filter keep := by
  refine Option.ext fun value => ?_
  rw [Option.filter_eq_some_iff]
  have here : value ∈ table.lookup key ↔ (⟨key, value⟩ : Sigma fun _ : Key => Value) ∈ table.entries := AList.mem_lookup_iff
  have kept : value ∈ (filterValues keep table).lookup key ↔ ⟨key, value⟩ ∈ (filterValues keep table).entries :=
    AList.mem_lookup_iff
  exact kept.trans (List.mem_filter.trans (and_congr_left fun _ => here.symm))

theorem filterValues_eq_self {keep : Value → Bool} {table : Table Key Value}
    (all : ∀ key value, table.lookup key = some value → keep value = true) : filterValues keep table = table :=
  AList.ext (List.filter_eq_self.mpr fun e member => all e.1 e.2 (AList.mem_lookup_iff.mpr member))

/-! ## Grouping -/

section Grouping

variable {Item : Type*} (empty : Value) (key : Item → Key) (add : Value → Item → Value)

/-- Changes the value of a key, or the empty one. -/
def change (table : Table Key Value) (k : Key) (f : Value → Value) : Table Key Value :=
  table.insert k (f ((table.lookup k).getD empty))

/-- Each item changes the value of its key. -/
def group (table : Table Key Value) (items : List Item) : Table Key Value :=
  items.foldl (fun table item => change empty table (key item) (add · item)) table

/-- The value of a key comes from the items of that key, in their order. -/
theorem getD_group (table : Table Key Value) (items : List Item) (k : Key) :
    ((group empty key add table items).lookup k).getD empty =
      (items.filter fun item => key item = k).foldl add ((table.lookup k).getD empty) := by
  induction items generalizing table with
  | nil => rfl
  | cons item rest ih =>
    have step : group empty key add table (item :: rest) =
        group empty key add (change empty table (key item) (add · item)) rest := rfl
    rw [step, ih, change]
    by_cases same : key item = k
    · subst same
      rw [AList.lookup_insert, Option.getD_some, List.filter_cons_of_pos (by simp), List.foldl_cons]
    · rw [AList.lookup_insert_ne (Ne.symm same), List.filter_cons_of_neg (by simpa using same)]

theorem mem_group (table : Table Key Value) (items : List Item) (k : Key) :
    k ∈ group empty key add table items ↔ k ∈ table ∨ ∃ item ∈ items, key item = k := by
  induction items generalizing table with
  | nil => simp [group]
  | cons item rest ih =>
    have step : group empty key add table (item :: rest) =
        group empty key add (change empty table (key item) (add · item)) rest := rfl
    have here : k ∈ change empty table (key item) (add · item) ↔ key item = k ∨ k ∈ table :=
      (AList.mem_insert table).trans (or_congr_left eq_comm)
    rw [step, ih, here, List.exists_mem_cons_iff, or_assoc, or_left_comm]

end Grouping

theorem mem_entries {table : Table Key Value} {key : Key} {value : Value} :
    ⟨key, value⟩ ∈ table.entries ↔ table.lookup key = some value := AList.mem_lookup_iff.symm

end Mello.Library.Keyed
