import Mathlib

/-!
Loops over a finite map in an order that the language leaves open. What such a loop computes does
not depend on the order when its steps commute, when it sorts what it collects, or when it keeps the
best element under a rank that no two elements share.
-/

namespace Mello.Library.MapOrder

variable {α β γ : Type*}

/-- An order in which the keys of any map are met. -/
structure Listing (α : Type*) where
  list : Finset α → List α
  complete : ∀ keys, (list keys : Multiset α) = keys.val

namespace Listing

/-- The order of a relation that sorts. -/
def sortedBy (r : α → α → Prop) [DecidableRel r] [Std.Total r] [IsTrans α r] [Std.Antisymm r] : Listing α where
  list keys := Quotient.liftOn keys.val (List.insertionSort r) fun front back same => by
    have perm := ((List.perm_insertionSort r front).trans same).trans (List.perm_insertionSort r back).symm
    exact perm.eq_of_pairwise' (List.pairwise_insertionSort r front) (List.pairwise_insertionSort r back)
  complete keys := by
    refine Quotient.inductionOn keys.val fun list => ?_
    exact Multiset.coe_eq_coe.mpr (List.perm_insertionSort r list)

theorem perm (order other : Listing α) (keys : Finset α) : (order.list keys).Perm (other.list keys) :=
  Multiset.coe_eq_coe.mp ((order.complete keys).trans (other.complete keys).symm)

theorem nodup (order : Listing α) (keys : Finset α) : (order.list keys).Nodup := by
  have nodup := keys.nodup
  rw [← order.complete keys] at nodup
  exact nodup

@[simp] theorem mem_list {order : Listing α} {keys : Finset α} {a : α} : a ∈ order.list keys ↔ a ∈ keys := by
  rw [← Multiset.mem_coe, order.complete keys]
  rfl

/-- A loop whose steps commute. -/
theorem foldl_eq (order other : Listing α) (keys : Finset α) {step : β → α → β}
    (commute : ∀ first ∈ keys, ∀ second ∈ keys, first ≠ second → ∀ held,
      step (step held first) second = step (step held second) first) (start : β) :
    (order.list keys).foldl step start = (other.list keys).foldl step start := by
  refine (order.perm other keys).foldl_eq' (fun first member second member' held => ?_) start
  rcases eq_or_ne first second with rfl | apart
  · rfl
  · exact commute first (mem_list.mp member) second (mem_list.mp member') apart held

/-- A loop that fills another map under the keys of this one. -/
theorem foldl_insert_eq [DecidableEq α] {V : Type*} (order other : Listing α) (keys : Finset α) (value : α → Option V)
    (start : Finmap fun _ : α => V) :
    (order.list keys).foldl (fun held k => (value k).elim held fun v => held.insert k v) start =
      (other.list keys).foldl (fun held k => (value k).elim held fun v => held.insert k v) start := by
  refine foldl_eq order other keys (fun first _ second _ apart held => ?_) start
  rcases value first with _ | v
  · rfl
  · rcases value second with _ | w
    · rfl
    · exact Finmap.insert_insert_of_ne held apart

end Listing

/-! ## Sorting -/

/-- Lists of the same elements are sorted alike by a key that no two elements share. -/
theorem insertionSort_eq [LinearOrder β] (key : α → β) {front back : List α} (perm : front.Perm back)
    (distinct : (front.map key).Nodup) :
    front.insertionSort (fun a b => key a ≤ key b) = back.insertionSort fun a b => key a ≤ key b := by
  have total : Std.Total fun a b : α => key a ≤ key b := ⟨fun a b => le_total (key a) (key b)⟩
  have trans : IsTrans α fun a b => key a ≤ key b := ⟨fun _ _ _ => le_trans⟩
  have sorted := ((List.perm_insertionSort (fun a b => key a ≤ key b) front).trans perm).trans
    (List.perm_insertionSort (fun a b => key a ≤ key b) back).symm
  refine sorted.eq_of_pairwise (fun a b member member' le ge => ?_) (List.pairwise_insertionSort _ front)
    (List.pairwise_insertionSort _ back)
  have held : a ∈ front := (List.perm_insertionSort _ front).mem_iff.mp member
  have held' : b ∈ front := perm.mem_iff.mpr ((List.perm_insertionSort _ back).mem_iff.mp member')
  exact List.inj_on_of_nodup_map distinct held held' (le_antisymm le ge)

/-- In a list without two elements of one key, the element of a key is the first of it. -/
theorem find?_key [DecidableEq β] {key : α → β} {list : List α} (distinct : (list.map key).Nodup) {a : α} {k : β} :
    list.find? (key · = k) = some a ↔ a ∈ list ∧ key a = k := by
  constructor
  · intro found
    exact ⟨List.mem_of_find?_eq_some found, by simpa using List.find?_some found⟩
  · rintro ⟨member, rfl⟩
    rcases found : list.find? (key · = key a) with _ | b
    · exact absurd (decide_eq_true rfl) (List.find?_eq_none.mp found a member)
    · have same : key b = key a := by simpa using List.find?_some found
      exact congrArg some (List.inj_on_of_nodup_map distinct (List.mem_of_find?_eq_some found) member same)

/-! ## The best element -/

/-- A loop that keeps the best element it has met. -/
def scan (better : α → α → Bool) (list : List α) : Option α :=
  list.foldl (fun best a => match best with
    | none => some a
    | some held => if better a held then some a else some held) none

variable {better : α → α → Bool} {list other : List α} {rank : α → β}

theorem scan_concat (better : α → α → Bool) (list : List α) (a : α) :
    scan better (list ++ [a]) = match scan better list with
      | none => some a
      | some held => if better a held then some a else some held := by
  unfold scan
  rw [List.foldl_concat]

theorem scan_mem {best : α} (found : scan better list = some best) :
    best ∈ list := by
  induction list using List.reverseRecOn generalizing best with
  | nil => cases found
  | append_singleton front a ih =>
    rw [scan_concat] at found
    split at found
    · cases found
      exact List.mem_append_right _ List.mem_cons_self
    · rename_i held before
      split_ifs at found
      · cases found
        exact List.mem_append_right _ List.mem_cons_self
      · cases found
        exact List.mem_append_left _ (ih before)

/-- Where the comparison agrees with a rank on distinct elements, the scan finds one of least rank. -/
theorem scan_spec [LinearOrder β] (agree : ∀ a ∈ list, ∀ b ∈ list, a ≠ b → (better a b = true ↔ rank a < rank b))
    (nodup : list.Nodup) (filled : list ≠ []) :
    ∃ best ∈ list, scan better list = some best ∧ ∀ a ∈ list, rank best ≤ rank a := by
  induction list using List.reverseRecOn with
  | nil => exact absurd rfl filled
  | append_singleton front a ih =>
    obtain ⟨nodup, -, apart⟩ := List.nodup_append.mp nodup
    rw [scan_concat]
    rcases eq_or_ne front [] with rfl | more
    · exact ⟨a, List.mem_cons_self, rfl, fun b member => (congrArg rank (List.mem_singleton.mp member)).ge⟩
    · have agree' : ∀ a ∈ front, ∀ b ∈ front, a ≠ b → (better a b = true ↔ rank a < rank b) := fun a member b member' =>
        agree a (List.mem_append_left _ member) b (List.mem_append_left _ member')
      obtain ⟨best, held, found, least⟩ := ih agree' nodup more
      have last : a ∈ front ++ [a] := List.mem_append_right _ List.mem_cons_self
      have compares := agree a last best (List.mem_append_left _ held) (apart best held a List.mem_cons_self).symm
      rw [found]
      dsimp only
      split_ifs with wins
      · have below := compares.mp wins
        refine ⟨a, last, rfl, fun b member => ?_⟩
        rcases List.mem_append.mp member with old | new
        · exact below.le.trans (least b old)
        · rw [List.mem_singleton.mp new]
      · have above : rank best ≤ rank a := not_lt.mp fun below => wins (compares.mpr below)
        refine ⟨best, List.mem_append_left _ held, rfl, fun b member => ?_⟩
        rcases List.mem_append.mp member with old | new
        · exact least b old
        · rw [List.mem_singleton.mp new]
          exact above

/-- Under a rank that no two elements share, the order of the list does not matter. -/
theorem scan_perm [LinearOrder β] (agree : ∀ a ∈ list, ∀ b ∈ list, a ≠ b → (better a b = true ↔ rank a < rank b))
    (injective : ∀ a ∈ list, ∀ b ∈ list, rank a = rank b → a = b) (nodup : list.Nodup) (perm : list.Perm other) :
    scan better list = scan better other := by
  rcases eq_or_ne list [] with rfl | filled
  · rw [List.nil_perm.mp perm]
  · have filled' : other ≠ [] := fun empty => filled (List.perm_nil.mp (empty ▸ perm))
    have agree' : ∀ a ∈ other, ∀ b ∈ other, a ≠ b → (better a b = true ↔ rank a < rank b) := fun a member b member' =>
      agree a (perm.mem_iff.mpr member) b (perm.mem_iff.mpr member')
    obtain ⟨best, held, found, least⟩ := scan_spec agree nodup filled
    obtain ⟨best', held', found', least'⟩ := scan_spec agree' (perm.nodup nodup) filled'
    have same : best = best' := injective best held best' (perm.mem_iff.mpr held')
      (le_antisymm (least best' (perm.mem_iff.mpr held')) (least' best (perm.mem_iff.mp held)))
    rw [found, found', same]

end Mello.Library.MapOrder
