import Mathlib

/-!
A field that an arrival with a value replaces, unless the value held ranks above it. It holds a value
of the highest rank, the last of them to arrive: it does not depend on the order of the arrivals
exactly when the highest rank has one value. Where all values rank the same, it holds the last.
-/

namespace Mello.Library.Latest

variable {Item Value Rank Time : Type*}

/-- The field after an arrival, with or without a value. -/
def replace [LE Rank] [DecidableLE Rank] (rank : Value → Rank) (held : Option Value) : Option Value → Option Value
  | none => held
  | some a =>
    match held with
    | none => some a
    | some b => if rank b ≤ rank a then some a else some b

def highest [LE Rank] [DecidableLE Rank] (rank : Value → Rank) (value : Item → Option Value) (items : List Item) :
    Option Value :=
  items.foldl (fun held item => replace rank held (value item)) none

def latest (value : Item → Option Value) (items : List Item) : Option Value :=
  items.foldl (fun held item => (value item).or held) none

/-- The field holds a value of the highest rank, or there is none. -/
def Holds [LE Rank] (rank : Value → Rank) (value : Item → Option Value) (items : List Item) : Option Value → Prop
  | none => ∀ item ∈ items, value item = none
  | some a => (∃ item ∈ items, value item = some a) ∧ ∀ item ∈ items, ∀ b, value item = some b → rank b ≤ rank a

/-- The highest rank has one value. -/
def OneHighest [LE Rank] (rank : Value → Rank) (value : Item → Option Value) (items : List Item) : Prop :=
  ∀ a b, Holds rank value items (some a) → Holds rank value items (some b) → a = b

/-- All values that arrive are one. -/
def One (value : Item → Option Value) (items : List Item) : Prop :=
  ∀ first ∈ items, ∀ second ∈ items, ∀ a b, value first = some a → value second = some b → a = b

/-- The value of an item with the latest time of those that have one. -/
def OfNewest [LE Time] (value : Item → Option Value) (time : Item → Time) (items : List Item) : Option Value → Prop
  | none => ∀ item ∈ items, value item = none
  | some a => ∃ item ∈ items, value item = some a ∧ ∀ other ∈ items, value other ≠ none → time other ≤ time item

/-- A field that an arrival may replace holds one of the items. -/
theorem mem_of_choice {step : Option Item → Item → Option Item}
    (choice : ∀ held item, step held item = held ∨ step held item = some item) {items : List Item} {item : Item}
    (found : items.foldl step none = some item) : item ∈ items := by
  induction items using List.reverseRecOn with
  | nil => cases found
  | append_singleton items last ih =>
    rw [List.foldl_append, List.foldl_cons, List.foldl_nil] at found
    rcases choice (items.foldl step none) last with same | taken
    · rw [same] at found
      exact List.mem_append_left _ (ih found)
    · rw [taken] at found
      rw [Option.some.inj found]
      exact List.mem_append_right _ (List.mem_singleton_self _)

section Highest

variable [LinearOrder Rank] {rank : Value → Rank} {value : Item → Option Value} {items other : List Item}

theorem highest_append (items : List Item) (item : Item) :
    highest rank value (items ++ [item]) = replace rank (highest rank value items) (value item) := by
  rw [highest, List.foldl_append]
  rfl

theorem holds_append {held : Option Value} (holds : Holds rank value items held) (item : Item) :
    Holds rank value (items ++ [item]) (replace rank held (value item)) := by
  have last : ∀ other ∈ items ++ [item], other ∈ items ∨ other = item := fun other member =>
    (List.mem_append.mp member).imp_right List.mem_singleton.mp
  have early : ∀ other ∈ items, other ∈ items ++ [item] := fun other member => List.mem_append_left _ member
  have own : item ∈ items ++ [item] := List.mem_append_right _ (List.mem_singleton_self _)
  rcases sent : value item with _ | a
  · rcases held with _ | b
    · intro other member
      rcases last other member with member | rfl
      · exact holds other member
      · exact sent
    · obtain ⟨⟨first, member, same⟩, high⟩ := holds
      refine ⟨⟨first, early first member, same⟩, fun other member c found => ?_⟩
      rcases last other member with member | rfl
      · exact high other member c found
      · rw [sent] at found
        cases found
  · rcases held with _ | b
    · refine ⟨⟨item, own, sent⟩, fun other member c found => ?_⟩
      rcases last other member with member | rfl
      · rw [holds other member] at found
        cases found
      · rw [Option.some.inj (sent.symm.trans found)]
    · obtain ⟨⟨first, listed, same⟩, high⟩ := holds
      unfold replace
      dsimp only
      split_ifs with order
      · refine ⟨⟨item, own, sent⟩, fun other member c found => ?_⟩
        rcases last other member with member | rfl
        · exact (high other member c found).trans order
        · rw [Option.some.inj (sent.symm.trans found)]
      · refine ⟨⟨first, early first listed, same⟩, fun other member c found => ?_⟩
        rcases last other member with member | rfl
        · exact high other member c found
        · rw [← Option.some.inj (sent.symm.trans found)]
          exact (not_le.mp order).le

theorem holds_highest (rank : Value → Rank) (value : Item → Option Value) (items : List Item) :
    Holds rank value items (highest rank value items) := by
  induction items using List.reverseRecOn with
  | nil => exact fun _ member => (List.not_mem_nil member).elim
  | append_singleton items item ih =>
    rw [highest_append]
    exact holds_append ih item

theorem holds_perm (perm : other.Perm items) {held : Option Value} (holds : Holds rank value items held) :
    Holds rank value other held := by
  rcases held with _ | a
  · exact fun item member => holds item (perm.mem_iff.mp member)
  · obtain ⟨⟨item, member, sent⟩, high⟩ := holds
    exact ⟨⟨item, perm.mem_iff.mpr member, sent⟩, fun item member => high item (perm.mem_iff.mp member)⟩

/-- A value of the highest rank is held when it comes last. -/
theorem highest_last {item : Item} {a : Value} (member : item ∈ items) (sent : value item = some a)
    (holds : Holds rank value items (some a)) :
    ∃ other : List Item, other.Perm items ∧ highest rank value other = some a := by
  classical
  refine ⟨items.erase item ++ [item],
    (List.perm_append_singleton _ _).trans (List.perm_cons_erase member).symm, ?_⟩
  have rest := holds_highest rank value (items.erase item)
  rw [highest_append, sent]
  rcases held : highest rank value (items.erase item) with _ | b
  · rfl
  · rw [held] at rest
    obtain ⟨⟨first, listed, same⟩, -⟩ := rest
    exact if_pos (holds.2 first (List.mem_of_mem_erase listed) b same)

/-- The order does not matter exactly when the highest rank has one value. -/
theorem highest_perm_iff :
    (∀ other : List Item, other.Perm items → highest rank value other = highest rank value items) ↔
      OneHighest rank value items := by
  constructor
  · have last : (∀ other : List Item, other.Perm items → highest rank value other = highest rank value items) →
        ∀ a, Holds rank value items (some a) → highest rank value items = some a := by
      intro same a holds
      obtain ⟨item, member, sent⟩ := holds.1
      obtain ⟨other, perm, held⟩ := highest_last member sent holds
      rw [← same other perm, held]
    intro same a b first second
    exact Option.some.inj ((last same a first).symm.trans (last same b second))
  · intro one other perm
    have here := holds_highest rank value items
    have there := holds_perm perm.symm (holds_highest rank value other)
    rcases held : highest rank value items with _ | a
    · rcases held' : highest rank value other with _ | b
      · rfl
      · rw [held] at here
        rw [held'] at there
        obtain ⟨item, member, sent⟩ := there.1
        rw [here item member] at sent
        cases sent
    · rw [held] at here
      rcases held' : highest rank value other with _ | b
      · rw [held'] at there
        obtain ⟨item, member, sent⟩ := here.1
        rw [there item member] at sent
        cases sent
      · rw [held'] at there
        rw [one b a there here]

/-- Ranks that tell the values apart have one value each. -/
theorem oneHighest_of_injective
    (injective : ∀ first ∈ items, ∀ second ∈ items, ∀ a b, value first = some a → value second = some b →
      rank a = rank b → a = b) : OneHighest rank value items := by
  intro a b holds holds'
  obtain ⟨⟨first, member, sent⟩, high⟩ := holds
  obtain ⟨⟨second, member', sent'⟩, high'⟩ := holds'
  exact injective first member second member' a b sent sent'
    (le_antisymm (high' first member a sent) (high second member' b sent'))

end Highest

section Last

variable {value : Item → Option Value} {items : List Item}

/-- The last value is one of the highest, if all values rank the same. -/
theorem latest_eq_highest (items : List Item) : latest value items = highest (fun _ : Value => ()) value items := by
  unfold latest highest
  congr 1
  funext held item
  rcases value item with _ | a
  · rfl
  · rcases held with _ | b
    · rfl
    · rw [replace, if_pos (le_refl ()), Option.some_or]

theorem latest_append (items : List Item) (item : Item) :
    latest value (items ++ [item]) = (value item).or (latest value items) := by
  rw [latest, List.foldl_append]
  rfl

theorem oneHighest_iff : OneHighest (fun _ : Value => ()) value items ↔ One value items := by
  constructor
  · intro one first member second member' a b sent sent'
    exact one a b ⟨⟨first, member, sent⟩, fun _ _ _ _ => le_rfl⟩ ⟨⟨second, member', sent'⟩, fun _ _ _ _ => le_rfl⟩
  · rintro one a b ⟨⟨first, member, sent⟩, -⟩ ⟨⟨second, member', sent'⟩, -⟩
    exact one first member second member' a b sent sent'

theorem latest_perm_iff :
    (∀ other : List Item, other.Perm items → latest value other = latest value items) ↔ One value items := by
  simp only [latest_eq_highest]
  exact highest_perm_iff.trans oneHighest_iff

/-- With one value for all, it is also that of the latest time. -/
theorem ofNewest_of_one [LinearOrder Time] (time : Item → Time) (one : One value items) :
    OfNewest value time items (latest value items) := by
  classical
  have holds := holds_highest (fun _ : Value => ()) value items
  rw [← latest_eq_highest] at holds
  rcases here : latest value items with _ | a
  · rw [here] at holds
    exact holds
  · rw [here] at holds
    obtain ⟨first, listed, sent⟩ := holds.1
    have some : (items.toFinset.filter fun item => value item ≠ none).Nonempty :=
      ⟨first, Finset.mem_filter.mpr ⟨List.mem_toFinset.mpr listed, by rw [sent]; exact Option.some_ne_none a⟩⟩
    obtain ⟨newest, member, greatest⟩ := Finset.exists_max_image _ time some
    obtain ⟨inside, found⟩ := Finset.mem_filter.mp member
    have inside' := List.mem_toFinset.mp inside
    obtain ⟨b, sent'⟩ := Option.ne_none_iff_exists'.mp found
    rw [one first listed newest inside' a b sent sent']
    refine ⟨newest, inside', sent', fun other also some => ?_⟩
    exact greatest other (Finset.mem_filter.mpr ⟨List.mem_toFinset.mpr also, some⟩)

end Last

end Mello.Library.Latest
