import Mathlib

/-!
Maps of finitely many keys whose entries stand in the order of their keys.
-/

namespace Mello.Library

structure OrderedMap (κ α : Type*) [LinearOrder κ] where
  entries : List (κ × α) := []
  ascending : entries.Pairwise fun p q => p.1 < q.1 := by exact .nil

namespace OrderedMap

variable {κ α : Type*} [LinearOrder κ]

/-! ## Operations -/

def find (m : OrderedMap κ α) (key : κ) : Option α := (m.entries.find? fun p => p.1 = key).map Prod.snd

def keys (m : OrderedMap κ α) : List κ := m.entries.map Prod.fst

/-- An entry in its place, of the key's old entry if there is one. -/
def put (key : κ) (value : α) : List (κ × α) → List (κ × α)
  | [] => [(key, value)]
  | p :: rest =>
    if key < p.1 then (key, value) :: p :: rest
    else if p.1 < key then p :: put key value rest
    else (key, value) :: rest

theorem mem_put {key : κ} {value : α} {p : κ × α} {entries : List (κ × α)}
    (member : p ∈ put key value entries) :
    p = (key, value) ∨ p ∈ entries := by
  induction entries with
  | nil => exact .inl (List.mem_singleton.mp member)
  | cons q rest ih =>
    unfold put at member
    split_ifs at member
    · exact List.mem_cons.mp member
    · rcases List.mem_cons.mp member with rfl | later
      · exact .inr List.mem_cons_self
      · exact (ih later).imp_right (List.mem_cons_of_mem q)
    · exact (List.mem_cons.mp member).imp_right (List.mem_cons_of_mem q)

theorem ascending_put (key : κ) (value : α) {entries : List (κ × α)}
    (ascending : entries.Pairwise fun p q => p.1 < q.1) :
    (put key value entries).Pairwise fun p q => p.1 < q.1 := by
  induction entries with
  | nil => exact List.pairwise_singleton _ _
  | cons q rest ih =>
    obtain ⟨first, later⟩ := List.pairwise_cons.mp ascending
    unfold put
    split_ifs with below above
    · refine List.pairwise_cons.mpr ⟨?_, ascending⟩
      intro p member
      rcases List.mem_cons.mp member with rfl | inside
      · exact below
      · exact below.trans (first p inside)
    · refine List.pairwise_cons.mpr ⟨?_, ih later⟩
      intro p member
      rcases mem_put member with rfl | inside
      · exact above
      · exact first p inside
    · obtain rfl : key = q.1 := le_antisymm (not_lt.mp above) (not_lt.mp below)
      exact List.pairwise_cons.mpr ⟨first, later⟩

def insert (m : OrderedMap κ α) (key : κ) (value : α) : OrderedMap κ α :=
    ⟨put key value m.entries, ascending_put key value m.ascending⟩

/-- The entries of some keys. -/
def filter (m : OrderedMap κ α) (keep : κ → Bool) : OrderedMap κ α :=
  ⟨m.entries.filter fun p => keep p.1, m.ascending.filter _⟩

def erase (m : OrderedMap κ α) (key : κ) : OrderedMap κ α := m.filter (· ≠ key)

/-- The same keys, with each value changed. -/
def mapValues {β : Type*} (f : κ → α → β) (m : OrderedMap κ α) : OrderedMap κ β :=
  ⟨m.entries.map fun p => (p.1, f p.1 p.2), List.pairwise_map.mpr m.ascending⟩

def modify (m : OrderedMap κ α) (key : κ) (f : α → α) : OrderedMap κ α :=
  m.mapValues fun other value => if other = key then f value else value

/-- The last entries, at most `count` of them. -/
def keepLast (m : OrderedMap κ α) (count : ℕ) : OrderedMap κ α :=
  ⟨m.entries.drop (m.entries.length - count), m.ascending.sublist (List.drop_sublist _ _)⟩

/-- The entries behind a key. -/
def past (m : OrderedMap κ α) (key : κ) : List (κ × α) := m.entries.filter fun p => key < p.1

/-! ## Entries and values -/

section Entries

variable {m : OrderedMap κ α} {key : κ} {value : α}

theorem find_cons (p : κ × α) (rest : List (κ × α))
    (ascending : (p :: rest).Pairwise fun p q => p.1 < q.1) :
    find ⟨p :: rest, ascending⟩ key = if p.1 = key then some p.2 else find ⟨rest,
      (List.pairwise_cons.mp ascending).2⟩ key := by
  unfold find
  dsimp only
  rw [List.find?_cons]
  by_cases here : p.1 = key
  · rw [if_pos here, decide_eq_true here]
    rfl
  · rw [if_neg here, decide_eq_false here]

theorem mem_of_find (found : m.find key = some value) : (key, value) ∈ m.entries := by
  obtain ⟨⟨other, kept⟩, known, rfl⟩ := Option.map_eq_some_iff.mp found
  have same := List.find?_some known
  obtain rfl : other = key := of_decide_eq_true same
  exact List.mem_of_find?_eq_some known

theorem find_of_mem (member : (key, value) ∈ m.entries) : m.find key = some value := by
  obtain ⟨entries, ascending⟩ := m
  induction entries with
  | nil => exact absurd member List.not_mem_nil
  | cons p rest ih =>
    obtain ⟨first, later⟩ := List.pairwise_cons.mp ascending
    rw [find_cons]
    rcases List.mem_cons.mp member with rfl | inside
    · exact if_pos rfl
    · rw [if_neg (first _ inside).ne]
      exact ih later inside

theorem mem_entries_iff : (key, value) ∈ m.entries ↔ m.find key = some value := ⟨find_of_mem, mem_of_find⟩

theorem mem_keys_iff : key ∈ m.keys ↔ ∃ value, m.find key = some value := by
  unfold keys
  rw [List.mem_map]
  constructor
  · rintro ⟨⟨other, value⟩, member, rfl⟩
    exact ⟨value, find_of_mem member⟩
  · rintro ⟨value, found⟩
    exact ⟨(key, value), mem_of_find found, rfl⟩

end Entries

theorem nodup_keys (m : OrderedMap κ α) (keep : κ × α → Bool) :
    ((m.entries.filter keep).map Prod.fst).Nodup := by
  rw [List.Nodup, List.pairwise_map]
  exact (m.ascending.filter keep).imp fun before => before.ne

/-! ## What is found after an operation -/

section Find

variable (m : OrderedMap κ α) (key other : κ) (value : α)

@[simp] theorem find_empty : (({} : OrderedMap κ α)).find key = none := rfl

@[simp] theorem find_insert :
    (m.insert key value).find other = if other = key then some value else m.find other := by
  obtain ⟨entries, ascending⟩ := m
  unfold insert find
  dsimp only
  induction entries with
  | nil =>
    unfold put
    rw [List.find?_cons]
    by_cases same : other = key
    · rw [if_pos same, decide_eq_true same.symm]
      rfl
    · rw [if_neg same, decide_eq_false (Ne.symm same)]
  | cons p rest ih =>
    have here := ih (List.pairwise_cons.mp ascending).2
    unfold put
    rcases lt_trichotomy key p.1 with below | equal | above
    · rw [if_pos below, List.find?_cons]
      by_cases same : other = key
      · rw [if_pos same, decide_eq_true same.symm]
        rfl
      · rw [if_neg same, decide_eq_false (Ne.symm same)]
    · rw [if_neg equal.not_lt, if_neg equal.not_gt, List.find?_cons, List.find?_cons, ← equal]
      by_cases same : other = key
      · rw [if_pos same, decide_eq_true same.symm]
        rfl
      · rw [if_neg same, decide_eq_false (Ne.symm same)]
    · rw [if_neg above.not_gt, if_pos above, List.find?_cons, List.find?_cons]
      by_cases found : p.1 = other
      · rw [decide_eq_true found, if_neg (found ▸ above.ne)]
      · rw [decide_eq_false found, here]

@[simp] theorem find_filter (keep : κ → Bool) :
    (m.filter keep).find key = if keep key then m.find key else none := by
  unfold filter find
  dsimp only
  rw [List.find?_filter]
  by_cases kept : keep key = true
  · rw [if_pos kept]
    congr 1
    apply List.find?_congr
    intro p _
    by_cases same : p.1 = key
    · simp [same, kept]
    · simp [same]
  · rw [if_neg kept, List.find?_eq_none.mpr]
    · rfl
    · intro p _ both
      obtain ⟨left, right⟩ := of_decide_eq_true both
      rw [of_decide_eq_true right] at left
      exact kept left

@[simp] theorem find_erase : (m.erase key).find other = if other = key then none else m.find other := by
  unfold erase
  rw [find_filter]
  by_cases same : other = key <;> simp [same]

@[simp] theorem find_mapValues {β : Type*} (f : κ → α → β) :
    (m.mapValues f).find key = (m.find key).map (f key) := by
  obtain ⟨entries, ascending⟩ := m
  unfold mapValues find
  dsimp only
  induction entries with
  | nil => rfl
  | cons p rest ih =>
    rw [List.map_cons, List.find?_cons, List.find?_cons]
    by_cases same : p.1 = key
    · rw [decide_eq_true same, Option.map_some, Option.map_some, Option.map_some, same]
    · rw [decide_eq_false same]
      exact ih (List.pairwise_cons.mp ascending).2

@[simp] theorem find_modify (f : α → α) : (m.modify key f).find other = if other =
    key then (m.find other).map f else m.find other := by
  unfold modify
  rw [find_mapValues]
  by_cases same : other = key
  · simp [same]
  · simp [same]

theorem mem_past_iff {key other : κ} {value : α} {m : OrderedMap κ α} :
    (other, value) ∈ m.past key ↔ m.find other = some value ∧ key < other := by
  unfold past
  rw [List.mem_filter, mem_entries_iff, decide_eq_true_iff]

theorem find_of_keepLast {m : OrderedMap κ α} {key : κ} {value : α} {count : ℕ}
    (found : (m.keepLast count).find key = some value) :
    m.find key = some value :=
  find_of_mem (List.mem_of_mem_drop (mem_of_find found))

end Find

/-! ## Keys that are there -/

section Member

instance : Membership κ (OrderedMap κ α) := ⟨fun m key => (m.find key).isSome⟩

variable {m : OrderedMap κ α} {key other : κ}

theorem mem_def : key ∈ m ↔ (m.find key).isSome = true := Iff.rfl

instance : Decidable (key ∈ m) := inferInstanceAs (Decidable ((m.find key).isSome = true))

theorem mem_iff : key ∈ m ↔ ∃ value, m.find key = some value := Option.isSome_iff_exists

theorem mem_of_find_eq {value : α} (found : m.find key = some value) : key ∈ m := mem_iff.mpr ⟨value, found⟩

@[simp] theorem mem_insert {value : α} : other ∈ m.insert key value ↔ other = key ∨ other ∈ m := by
  rw [mem_def, mem_def, find_insert]
  by_cases same : other = key <;> simp [same]

@[simp] theorem mem_filter {keep : κ → Bool} : key ∈ m.filter keep ↔ keep key = true ∧ key ∈ m := by
  rw [mem_def, mem_def, find_filter]
  by_cases kept : keep key = true <;> simp [kept]

@[simp] theorem mem_erase : other ∈ m.erase key ↔ other ≠ key ∧ other ∈ m := by
  rw [mem_def, mem_def, find_erase]
  by_cases same : other = key <;> simp [same]

@[simp] theorem mem_mapValues {β : Type*} {f : κ → α → β} : key ∈ m.mapValues f ↔ key ∈ m := by
  rw [mem_def, mem_def, find_mapValues, Option.isSome_map]

@[simp] theorem mem_modify {f : α → α} : other ∈ m.modify key f ↔ other ∈ m := mem_mapValues

end Member

/-! ## Walks from key to key -/

section Walk

variable {α : Type*} (m : OrderedMap ℤ α) (step : ℤ) (passes : ℤ → α → Bool)

def passesAt (key : ℤ) : Bool := (m.find key).any (passes key)

def stride : ℕ → ℤ → ℤ
  | 0, key => key
  | fuel + 1, key => if m.passesAt passes key then stride fuel (key + step) else key

/-- The first key, in steps from `key` on, that has no entry or one that fails
the test. No walk passes more keys than there are. -/
def walk (key : ℤ) : ℤ := m.stride step passes m.entries.length key

theorem stride_eq (fuel : ℕ) (key : ℤ) : ∃ count ≤ fuel, m.stride step passes fuel key = key + count * step ∧
    (∀ i < count, m.passesAt passes (key + i * step) = true) ∧
    (count < fuel → m.passesAt passes (key + count * step) = false) := by
  induction fuel generalizing key with
  | zero => exact ⟨0, le_rfl, by simp [stride], by simp, by simp⟩
  | succ fuel ih =>
    unfold stride
    by_cases here : m.passesAt passes key = true
    · rw [if_pos here]
      obtain ⟨count, bound, same, behind, stops⟩ := ih (key + step)
      have shift : ∀ i : ℕ, key + step + i * step = key + ((i + 1 : ℕ) : ℤ) * step := by
        intro i
        push_cast
        ring
      refine ⟨count + 1, by omega, by rw [same, shift], ?_, ?_⟩
      · intro i below
        cases i with
        | zero => simpa using here
        | succ i => exact shift i ▸ behind i (by omega)
      · intro below
        exact shift count ▸ stops (by omega)
    · rw [if_neg here]
      exact ⟨0, by omega, by simp, by simp, fun _ => by simpa using here⟩

theorem passesAt_iff {m : OrderedMap ℤ α} {passes : ℤ → α → Bool} {key : ℤ} :
    m.passesAt passes key = true ↔ ∃ value, m.find key = some value ∧ passes key value = true :=
  Option.any_eq_true (passes key) (m.find key)

theorem mem_keys_of_passesAt {m : OrderedMap ℤ α} {passes : ℤ → α → Bool} {key : ℤ}
    (passed : m.passesAt passes key = true) :
    key ∈ m.keys := by
  obtain ⟨value, found, -⟩ := passesAt_iff.mp passed
  exact mem_keys_iff.mpr ⟨value, found⟩

variable {step}

/-- A walk ends where the test fails. -/
theorem passesAt_walk (moves : step ≠ 0) (key : ℤ) : m.passesAt passes (m.walk step passes key) = false := by
  obtain ⟨count, bound, same, behind, stops⟩ := m.stride_eq step passes m.entries.length key
  unfold walk
  rw [same]
  rcases bound.lt_or_eq with below | full
  · exact stops below
  by_contra passed
  have inside : (Finset.range (count + 1)).image (fun i : ℕ => key + i * step) ⊆ m.keys.toFinset := by
    intro other member
    obtain ⟨i, below, rfl⟩ := Finset.mem_image.mp member
    apply List.mem_toFinset.mpr
    suffices passed : m.passesAt passes (key + i * step) = true from mem_keys_of_passesAt passed
    rcases (Nat.lt_succ_iff.mp (Finset.mem_range.mp below)).lt_or_eq with earlier | rfl
    · exact behind i earlier
    · simpa using passed
  have distinct : Function.Injective fun i : ℕ => key + i * step := by
    intro i j equal
    have product : (i : ℤ) * step = j * step := add_left_cancel equal
    exact_mod_cast mul_right_cancel₀ moves product
  have count_le := Finset.card_le_card inside
  rw [Finset.card_image_of_injective _ distinct, Finset.card_range] at count_le
  have length_le := List.toFinset_card_le m.keys
  rw [keys, List.length_map] at length_le
  rw [keys] at count_le
  omega

/-- A walk stays where the test fails at once. -/
theorem walk_self {key : ℤ} (fails : m.passesAt passes key = false) : m.walk step passes key = key := by
  unfold walk
  cases m.entries.length with
  | zero => rfl
  | succ fuel =>
    unfold stride
    rw [if_neg (by simp [fails])]

end Walk

section Upwards

variable {α : Type*} (m : OrderedMap ℤ α) (passes : ℤ → α → Bool) (key : ℤ)

theorem le_walk : key ≤ m.walk 1 passes key := by
  obtain ⟨count, -, same, -⟩ := m.stride_eq 1 passes m.entries.length key
  unfold walk
  omega

theorem walk_le : m.walk (-1) passes key ≤ key := by
  obtain ⟨count, -, same, -⟩ := m.stride_eq (-1) passes m.entries.length key
  unfold walk
  omega

variable {m passes key}

theorem passesAt_of_lt_walk {other : ℤ} (from_key : key ≤ other) (before : other < m.walk 1 passes key) :
    m.passesAt passes other = true := by
  obtain ⟨count, -, same, behind, -⟩ := m.stride_eq 1 passes m.entries.length key
  unfold walk at before
  have inside := behind (other - key).toNat (by omega)
  rwa [show key + ((other - key).toNat : ℤ) * 1 = other by omega] at inside

theorem passesAt_of_walk_lt {other : ℤ} (from_key : other ≤ key) (before : m.walk (-1) passes key < other) :
    m.passesAt passes other = true := by
  obtain ⟨count, -, same, behind, -⟩ := m.stride_eq (-1) passes m.entries.length key
  unfold walk at before
  have inside := behind (key - other).toNat (by omega)
  rwa [show key + ((key - other).toNat : ℤ) * -1 = other by omega] at inside

/-- A walk down ends at the first key that fails. -/
theorem walk_down_eq {other : ℤ} (upto : other ≤ key)
    (behind : ∀ k, other < k → k ≤ key → m.passesAt passes k = true)
    (stops : m.passesAt passes other = false) : m.walk (-1) passes key = other := by
  have stopped := m.passesAt_walk passes (show (-1 : ℤ) ≠ 0 by decide) key
  have below := m.walk_le passes key
  rcases lt_trichotomy (m.walk (-1) passes key) other with less | same | more
  · exact Bool.noConfusion (stops.symm.trans (passesAt_of_walk_lt upto less))
  · exact same
  · exact Bool.noConfusion (stopped.symm.trans (behind _ more below))

/-- A walk up ends at the first key that fails. -/
theorem walk_up_eq {other : ℤ} (from_key : key ≤ other)
    (before : ∀ k, key ≤ k → k < other → m.passesAt passes k = true)
    (stops : m.passesAt passes other = false) : m.walk 1 passes key = other := by
  have stopped := m.passesAt_walk passes (show (1 : ℤ) ≠ 0 by decide) key
  have above := m.le_walk passes key
  rcases lt_trichotomy (m.walk 1 passes key) other with less | same | more
  · exact Bool.noConfusion (stopped.symm.trans (before _ above less))
  · exact same
  · exact Bool.noConfusion (stops.symm.trans (passesAt_of_lt_walk from_key more))

end Upwards

end OrderedMap

end Mello.Library
