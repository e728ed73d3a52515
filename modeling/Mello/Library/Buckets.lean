import Mathlib

/-!
Buckets: a list of entries with a key each, kept in the order of the keys and without two entries
of one key. Such a list is a set of keys and an entry for each. What is said here is how the list
operations act on the set: a search, an insertion at the end with a sort, a filter by the key, a cut
to the greatest keys and a cut to the keys near the greatest one.
-/

namespace Mello.Library.Buckets

variable {Key Entry : Type*} [LinearOrder Key]

def buckets (keys : Finset Key) (entry : Key → Entry) : List Entry := (keys.sort (· ≤ ·)).map entry

/-- A stable sort by the key. -/
def sortBy (key : Entry → Key) (entries : List Entry) : List Entry :=
  entries.insertionSort fun a b => key a ≤ key b

/-- Changes the first entry of a key, if there is one. -/
def changeFirst (key : Entry → Key) (k : Key) (change : Entry → Entry) : List Entry → Option (List Entry)
  | [] => none
  | e :: rest => if key e = k then some (change e :: rest) else (changeFirst key k change rest).map (e :: ·)

/-- The keys with fewer than `n` greater ones. -/
def newest (n : ℕ) (keys : Finset Key) : Finset Key := keys.filter fun k => (keys.filter (k < ·)).card < n

/-- The keys less than `width` below the greatest one. -/
def recent (width : Int) (keys : Finset Int) : Finset Int := keys.filter fun k => ∀ other ∈ keys, other < k + width

/-! ## The greatest keys -/

section Newest

variable {n : ℕ} {keys : Finset Key} {k : Key}

theorem mem_newest : k ∈ newest n keys ↔ k ∈ keys ∧ (keys.filter (k < ·)).card < n := Finset.mem_filter

theorem newest_subset (n : ℕ) (keys : Finset Key) : newest n keys ⊆ keys := Finset.filter_subset _ _

/-- In a strictly increasing list, the elements greater than one are those behind it. -/
theorem filter_lt_of_sorted {front back : List Key} (sorted : (front ++ k :: back).Pairwise (· < ·)) :
    (front ++ k :: back).filter (k < ·) = back := by
  obtain ⟨-, tail, before⟩ := List.pairwise_append.mp sorted
  obtain ⟨after, -⟩ := List.pairwise_cons.mp tail
  have none : front.filter (k < ·) = [] := by
    rw [List.filter_eq_nil_iff]
    intro other member
    have less := before other member k List.mem_cons_self
    simpa using less.le
  have all : back.filter (k < ·) = back := by
    rw [List.filter_eq_self]
    intro other member
    exact decide_eq_true (after other member)
  rw [List.filter_append, none, List.filter_cons_of_neg (by simp), all, List.nil_append]

theorem sort_lt (keys : Finset Key) : (keys.sort (· ≤ ·)).Pairwise (· < ·) := keys.sortedLT_sort.pairwise

theorem card_greater {front back : List Key} (split : keys.sort (· ≤ ·) = front ++ k :: back) :
    (keys.filter (k < ·)).card = back.length := by
  have sorted := sort_lt keys
  rw [split] at sorted
  have list : keys.filter (k < ·) = ((keys.sort (· ≤ ·)).filter (k < ·)).toFinset := by
    rw [List.toFinset_filter, Finset.sort_toFinset]
    simp
  rw [list, split, filter_lt_of_sorted sorted, List.toFinset_card_of_nodup]
  exact (List.pairwise_append.mp sorted).2.1.of_cons.imp fun less => less.ne

theorem sort_newest (n : ℕ) (keys : Finset Key) :
    (newest n keys).sort (· ≤ ·) = (keys.sort (· ≤ ·)).drop (keys.card - n) := by
  have same : newest n keys = ((keys.sort (· ≤ ·)).drop (keys.card - n)).toFinset := by
    ext k
    rw [mem_newest, List.mem_toFinset, ← Finset.mem_sort (· ≤ ·)]
    constructor
    · rintro ⟨member, few⟩
      obtain ⟨front, back, split⟩ := List.append_of_mem member
      rw [card_greater split] at few
      have length := Finset.length_sort (s := keys) (· ≤ ·)
      rw [split, List.length_append, List.length_cons] at length
      rw [split, List.drop_append_of_le_length (by omega)]
      exact List.mem_append_right _ List.mem_cons_self
    · intro late
      refine ⟨List.mem_of_mem_drop late, ?_⟩
      obtain ⟨front, back, split⟩ := List.append_of_mem late
      have whole : keys.sort (· ≤ ·) = ((keys.sort (· ≤ ·)).take (keys.card - n) ++ front) ++ k :: back := by
        rw [List.append_assoc, ← split, List.take_append_drop]
      rw [card_greater whole]
      have length := congrArg List.length split
      rw [List.length_drop, Finset.length_sort, List.length_append, List.length_cons] at length
      omega
  have sorted := (sort_lt keys).sublist (List.drop_sublist (keys.card - n) _)
  rw [same]
  exact (List.toFinset_sort (· ≤ ·) (sorted.imp fun less => less.ne)).mpr (sorted.imp fun less => less.le)

theorem card_newest (n : ℕ) (keys : Finset Key) : (newest n keys).card = min n keys.card := by
  rw [← Finset.length_sort (· ≤ ·), sort_newest, List.length_drop, Finset.length_sort]
  omega

/-- A key that is not among the greatest is below all of them. -/
theorem lt_of_not_newest {old new : Key} (member : old ∈ keys) (gone : old ∉ newest n keys) (kept : new ∈ newest n keys) :
    old < new := by
  by_contra le
  refine gone (mem_newest.mpr ⟨member, lt_of_le_of_lt (Finset.card_le_card ?_) (mem_newest.mp kept).2⟩)
  exact Finset.monotone_filter_right keys fun other _ less => lt_of_le_of_lt (not_lt.mp le) less

/-- The greatest keys can be cut each time a key comes. -/
theorem newest_insert (n : ℕ) (keys : Finset Key) (new : Key) :
    newest n (insert new (newest n keys)) = newest n (insert new keys) := by
  have less : ∀ k, (insert new (newest n keys)).filter (k < ·) ⊆ (insert new keys).filter (k < ·) := fun k =>
    Finset.filter_subset_filter _ (Finset.insert_subset_insert _ (newest_subset n keys))
  ext k
  rw [mem_newest, mem_newest]
  constructor
  · rintro ⟨member, few⟩
    refine ⟨Finset.insert_subset_insert _ (newest_subset n keys) member, ?_⟩
    by_cases all : (insert new keys).filter (k < ·) ⊆ (insert new (newest n keys)).filter (k < ·)
    · exact lt_of_le_of_lt (Finset.card_le_card all) few
    · -- A greater key was cut: then `n` still greater ones were kept.
      exfalso
      obtain ⟨cut, greater, gone⟩ := Finset.not_subset.mp all
      obtain ⟨listed, above⟩ := Finset.mem_filter.mp greater
      have old : cut ∉ newest n keys := fun kept =>
        gone (Finset.mem_filter.mpr ⟨Finset.mem_insert_of_mem kept, above⟩)
      have other : cut ∈ keys := by
        rcases Finset.mem_insert.mp listed with rfl | other
        · exact absurd (Finset.mem_filter.mpr ⟨Finset.mem_insert_self _ _, above⟩) gone
        · exact other
      have many : n ≤ keys.card := by
        by_contra short
        refine old (mem_newest.mpr ⟨other, lt_of_le_of_lt (Finset.card_le_card (Finset.filter_subset _ _)) ?_⟩)
        omega
      have kept : newest n keys ⊆ (insert new (newest n keys)).filter (k < ·) := by
        intro late member
        exact Finset.mem_filter.mpr ⟨Finset.mem_insert_of_mem member, above.trans (lt_of_not_newest other old member)⟩
      have count := Finset.card_le_card kept
      rw [card_newest] at count
      omega
  · rintro ⟨member, few⟩
    refine ⟨?_, lt_of_le_of_lt (Finset.card_le_card (less k)) few⟩
    rcases Finset.mem_insert.mp member with rfl | old
    · exact Finset.mem_insert_self _ _
    · refine Finset.mem_insert_of_mem (mem_newest.mpr ⟨old, lt_of_le_of_lt (Finset.card_le_card ?_) few⟩)
      exact Finset.filter_subset_filter _ (Finset.subset_insert _ _)

end Newest

/-! ## The window below the greatest key -/

section Recent

variable {width : Int} {keys : Finset Int} {k : Int}

theorem mem_recent : k ∈ recent width keys ↔ k ∈ keys ∧ ∀ other ∈ keys, other < k + width := Finset.mem_filter

theorem recent_subset (width : Int) (keys : Finset Int) : recent width keys ⊆ keys := Finset.filter_subset _ _

/-- The greatest key is in the window, so it alone says what the window is. -/
theorem le_recent (positive : 0 < width) (member : k ∈ keys) : ∃ greatest ∈ recent width keys, k ≤ greatest := by
  obtain ⟨greatest, inside, high⟩ := Finset.exists_max_image keys id ⟨k, member⟩
  refine ⟨greatest, mem_recent.mpr ⟨inside, fun other listed => ?_⟩, high k member⟩
  exact lt_of_le_of_lt (high other listed) (lt_add_of_pos_right _ positive)

/-- The window can be cut each time a key comes. -/
theorem recent_insert (positive : 0 < width) (keys : Finset Int) (new : Int) :
    recent width (insert new (recent width keys)) = recent width (insert new keys) := by
  ext k
  rw [mem_recent, mem_recent]
  constructor
  · rintro ⟨member, near⟩
    refine ⟨Finset.insert_subset_insert _ (recent_subset width keys) member, fun other listed => ?_⟩
    rcases Finset.mem_insert.mp listed with rfl | old
    · exact near other (Finset.mem_insert_self _ _)
    · obtain ⟨greatest, inside, above⟩ := le_recent positive old
      exact lt_of_le_of_lt above (near greatest (Finset.mem_insert_of_mem inside))
  · rintro ⟨member, near⟩
    refine ⟨?_, fun other listed => near other (Finset.insert_subset_insert _ (recent_subset width keys) listed)⟩
    rcases Finset.mem_insert.mp member with rfl | old
    · exact Finset.mem_insert_self _ _
    · refine Finset.mem_insert_of_mem (mem_recent.mpr ⟨old, fun other listed => ?_⟩)
      exact near other (Finset.mem_insert_of_mem listed)

end Recent

/-! ## Lists of buckets -/

section Lists

variable {key : Entry → Key} {entry : Key → Entry} {keys : Finset Key}

theorem mem_buckets {e : Entry} : e ∈ buckets keys entry ↔ ∃ k ∈ keys, entry k = e := by
  simp only [buckets, List.mem_map, Finset.mem_sort]

theorem length_buckets : (buckets keys entry).length = keys.card := by
  rw [buckets, List.length_map, Finset.length_sort]

/-- Only the entries of the keys count. -/
theorem buckets_congr {other : Key → Entry} (same : ∀ k ∈ keys, entry k = other k) : buckets keys entry = buckets keys other :=
  List.map_congr_left fun k member => same k ((Finset.mem_sort (· ≤ ·)).mp member)

theorem map_key_buckets (keyed : ∀ k, key (entry k) = k) : (buckets keys entry).map key = keys.sort (· ≤ ·) := by
  rw [buckets, List.map_map]
  exact (List.map_congr_left fun k _ => keyed k).trans (List.map_id _)

theorem increasing (keyed : ∀ k, key (entry k) = k) : ((buckets keys entry).map key).Pairwise (· < ·) := by
  rw [map_key_buckets keyed]
  exact sort_lt keys

/-- A list with the entries of the keys, sorted. -/
theorem sortBy_perm (keyed : ∀ k, key (entry k) = k) {entries : List Entry} (perm : entries.Perm (buckets keys entry)) :
    sortBy key entries = buckets keys entry := by
  have total : Std.Total fun a b : Entry => key a ≤ key b := ⟨fun a b => le_total _ _⟩
  have trans : IsTrans Entry fun a b => key a ≤ key b := ⟨fun a b c => le_trans⟩
  have sorted : (buckets keys entry).Pairwise fun a b => key a ≤ key b := by
    rw [← List.pairwise_map (f := key)]
    exact (increasing keyed).imp fun less => less.le
  refine List.Perm.eq_of_pairwise ?_ (List.pairwise_insertionSort (fun a b => key a ≤ key b) entries) sorted
    ((List.perm_insertionSort _ _).trans perm)
  intro a b first second low high
  obtain ⟨k, -, rfl⟩ := mem_buckets.mp second
  obtain ⟨l, -, rfl⟩ := mem_buckets.mp ((List.perm_insertionSort _ _).trans perm |>.mem_iff.mp first)
  rw [keyed, keyed] at low high
  rw [le_antisymm low high]

theorem update_keyed (keyed : ∀ k, key (entry k) = k) (e : Entry) (k : Key) :
    key (Function.update entry (key e) e k) = k := by
  by_cases same : k = key e
  · rw [same, Function.update_self]
  · rw [Function.update_of_ne same, keyed]

/-- A new key, at the end. -/
theorem append_perm {e : Entry} (absent : key e ∉ keys) :
    (buckets keys entry ++ [e]).Perm (buckets (insert (key e) keys) (Function.update entry (key e) e)) := by
  have kept : buckets keys (Function.update entry (key e) e) = buckets keys entry := by
    refine buckets_congr fun k member => Function.update_of_ne ?_ _ _
    rintro rfl
    exact absent member
  have keys' : ((insert (key e) keys).sort (· ≤ ·)).Perm (key e :: keys.sort (· ≤ ·)) := by
    refine ((Finset.sort_perm_toList _ _).trans (Finset.toList_insert absent)).trans ?_
    exact (Finset.sort_perm_toList _ _).symm.cons _
  have all := keys'.map (Function.update entry (key e) e)
  rw [List.map_cons, Function.update_self] at all
  refine (List.perm_append_singleton e _).trans (List.Perm.trans ?_ all.symm)
  exact (List.Perm.of_eq kept.symm).cons e

theorem sortBy_append (keyed : ∀ k, key (entry k) = k) {e : Entry} (absent : key e ∉ keys) :
    sortBy key (buckets keys entry ++ [e]) = buckets (insert (key e) keys) (Function.update entry (key e) e) :=
  sortBy_perm (update_keyed keyed e) (append_perm absent)

theorem changeFirst_absent (keyed : ∀ k, key (entry k) = k) {k : Key} (absent : k ∉ keys) (change : Entry → Entry) :
    changeFirst key k change (buckets keys entry) = none := by
  have none : ∀ entries : List Entry, (∀ e ∈ entries, key e ≠ k) → changeFirst key k change entries = none := by
    intro entries
    induction entries with
    | nil => exact fun _ => rfl
    | cons e rest ih =>
      intro other
      rw [changeFirst, if_neg (other e List.mem_cons_self), ih fun e member => other e (List.mem_cons_of_mem _ member)]
      rfl
  refine none _ fun e member same => ?_
  obtain ⟨l, listed, rfl⟩ := mem_buckets.mp member
  rw [keyed] at same
  exact absent (same ▸ listed)

theorem changeFirst_present (keyed : ∀ k, key (entry k) = k) {k : Key} (present : k ∈ keys) (change : Entry → Entry) :
    changeFirst key k change (buckets keys entry) = some (buckets keys (Function.update entry k (change (entry k)))) := by
  have found : ∀ ks : List Key, ks.Nodup → k ∈ ks →
      changeFirst key k change (ks.map entry) = some (ks.map (Function.update entry k (change (entry k)))) := by
    intro ks distinct member
    induction ks with
    | nil => cases member
    | cons l rest ih =>
      obtain ⟨fresh, distinct⟩ := List.nodup_cons.mp distinct
      rw [List.map_cons, changeFirst, keyed, List.map_cons]
      by_cases same : l = k
      · subst same
        rw [if_pos rfl, Function.update_self]
        refine congrArg (fun tail => some (_ :: tail)) (List.map_congr_left fun other inside => ?_)
        rw [Function.update_of_ne]
        rintro rfl
        exact fresh inside
      · rw [if_neg same, ih distinct ((List.mem_cons.mp member).resolve_left (Ne.symm same)), Function.update_of_ne same]
        rfl
  exact found _ (Finset.sort_nodup _ _) ((Finset.mem_sort (· ≤ ·)).mpr present)

theorem filter_buckets (keyed : ∀ k, key (entry k) = k) (holds : Key → Prop) [DecidablePred holds] :
    (buckets keys entry).filter (fun e => holds (key e)) = buckets (keys.filter holds) entry := by
  have sorted : (keys.filter holds).sort (· ≤ ·) = (keys.sort (· ≤ ·)).filter (fun k => holds k) := by
    have list : keys.filter holds = ((keys.sort (· ≤ ·)).filter fun k => holds k).toFinset := by
      rw [List.toFinset_filter, Finset.sort_toFinset]
      simp
    have order := (sort_lt keys).filter fun k => holds k
    rw [list]
    exact (List.toFinset_sort (· ≤ ·) (order.imp fun less => less.ne)).mpr (order.imp fun less => less.le)
  rw [buckets, buckets, sorted, List.filter_map]
  congr 1
  exact List.filter_congr fun k _ => by rw [Function.comp_apply, keyed]

/-- A cut to the last `n`. -/
theorem drop_buckets (n : ℕ) :
    (buckets keys entry).drop ((buckets keys entry).length - n) = buckets (newest n keys) entry := by
  rw [length_buckets, buckets, buckets, sort_newest, List.map_drop]

end Lists

end Mello.Library.Buckets
