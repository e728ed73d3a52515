import Mathlib

/-!
Binary search of a key. The keys are read by position, and a read can fail.
-/

namespace Mello.Library.BinarySearch

variable {κ : Type*} [LinearOrder κ]

/-- The position of the key from `lo` up to `hi`. Each round reads the key in the middle. -/
def search (keyAt : ℕ → Option κ) (key : κ) (lo hi : ℕ) : Option ℕ :=
  if lo < hi then
    let mid := lo + (hi - lo) / 2
    match keyAt mid with
    | none => none
    | some found =>
      if found < key then search keyAt key (mid + 1) hi
      else if key < found then search keyAt key lo mid
      else some mid
  else none
termination_by hi - lo
decreasing_by all_goals omega

variable {keyAt : ℕ → Option κ} {key found : κ} {lo hi i : ℕ}

/-! ## One round -/

theorem search_empty (none' : hi ≤ lo) : search keyAt key lo hi = none := by
  rw [search, if_neg (not_lt.mpr none')]

theorem search_missing (more : lo < hi) (missing : keyAt (lo + (hi - lo) / 2) = none) : search keyAt key lo hi = none := by
  rw [search, if_pos more]
  dsimp only
  rw [missing]

theorem search_less (more : lo < hi) (known : keyAt (lo + (hi - lo) / 2) = some found) (less : found < key) :
    search keyAt key lo hi = search keyAt key (lo + (hi - lo) / 2 + 1) hi := by
  rw [search, if_pos more]
  dsimp only
  rw [known]
  exact if_pos less

theorem search_greater (more : lo < hi) (known : keyAt (lo + (hi - lo) / 2) = some found) (greater : key < found) :
    search keyAt key lo hi = search keyAt key lo (lo + (hi - lo) / 2) := by
  rw [search, if_pos more]
  dsimp only
  rw [known]
  exact (if_neg greater.asymm).trans (if_pos greater)

theorem search_same (more : lo < hi) (known : keyAt (lo + (hi - lo) / 2) = some key) :
    search keyAt key lo hi = some (lo + (hi - lo) / 2) := by
  rw [search, if_pos more]
  dsimp only
  rw [known]
  exact (if_neg (lt_irrefl key)).trans (if_neg (lt_irrefl key))

/-! ## The whole search -/

/-- A position that is found is one of the key, in order or not. -/
theorem search_sound (found : search keyAt key lo hi = some i) : lo ≤ i ∧ i < hi ∧ keyAt i = some key := by
  induction lo, hi using search.induct keyAt key with
  | case1 lo hi more mid missing =>
    rw [search_missing more missing] at found
    cases found
  | case2 lo hi more mid here known less ih =>
    rw [search_less more known less] at found
    obtain ⟨low, high, same⟩ := ih found
    exact ⟨by omega, high, same⟩
  | case3 lo hi more mid here known notLess greater ih =>
    rw [search_greater more known greater] at found
    obtain ⟨low, high, same⟩ := ih found
    exact ⟨low, by omega, same⟩
  | case4 lo hi more mid here known notLess notGreater =>
    obtain rfl := le_antisymm (not_lt.mp notGreater) (not_lt.mp notLess)
    rw [search_same more known] at found
    obtain rfl := Option.some.inj found
    exact ⟨by omega, by omega, known⟩
  | case5 lo hi none' =>
    rw [search_empty (not_lt.mp none')] at found
    cases found

theorem lt_of_getElem? {keys : List κ} (ascending : keys.Pairwise (· < ·)) {i j : ℕ} {first second : κ} (before : i < j)
    (here : keys[i]? = some first) (there : keys[j]? = some second) : first < second := by
  obtain ⟨inside, rfl⟩ := List.getElem?_eq_some_iff.mp here
  obtain ⟨inside', rfl⟩ := List.getElem?_eq_some_iff.mp there
  exact List.pairwise_iff_getElem.mp ascending i j inside inside' before

/-- Among keys in ascending order the search finds the key's position. -/
theorem search_complete {keys : List κ} (ascending : keys.Pairwise (· < ·)) (reads : ∀ j < keys.length, keyAt j = keys[j]?)
    (within : hi ≤ keys.length) (low : lo ≤ i) (high : i < hi) (known : keys[i]? = some key) : search keyAt key lo hi = some i := by
  induction lo, hi using search.induct keyAt key with
  | case1 lo hi more mid missing =>
    have inside : mid < keys.length := by omega
    rw [reads mid inside, List.getElem?_eq_getElem inside] at missing
    cases missing
  | case2 lo hi more mid here there less ih =>
    rw [search_less more there less]
    have there := (reads mid (by omega)).symm.trans there
    rcases lt_trichotomy i mid with before | rfl | after
    · exact absurd (lt_of_getElem? ascending before known there) less.asymm
    · exact absurd (Option.some.inj (there.symm.trans known)) less.ne
    · exact ih within after high
  | case3 lo hi more mid here there notLess greater ih =>
    rw [search_greater more there greater]
    have there := (reads mid (by omega)).symm.trans there
    rcases lt_trichotomy i mid with before | rfl | after
    · exact ih (by omega) low before
    · exact absurd (Option.some.inj (there.symm.trans known)) greater.ne'
    · exact absurd (lt_of_getElem? ascending after there known) greater.asymm
  | case4 lo hi more mid here there notLess notGreater =>
    obtain rfl := le_antisymm (not_lt.mp notGreater) (not_lt.mp notLess)
    rw [search_same more there]
    have there := (reads mid (by omega)).symm.trans there
    rcases lt_trichotomy i mid with before | rfl | after
    · exact absurd (lt_of_getElem? ascending before known there) (lt_irrefl _)
    · rfl
    · exact absurd (lt_of_getElem? ascending after there known) (lt_irrefl _)
  | case5 lo hi none' => omega

/-- Among keys in ascending order the search tells where the key is, and that it is nowhere. -/
theorem search_eq_some_iff {keys : List κ} (ascending : keys.Pairwise (· < ·)) (reads : ∀ j < keys.length, keyAt j = keys[j]?) :
    search keyAt key 0 keys.length = some i ↔ keys[i]? = some key := by
  constructor
  · intro found
    obtain ⟨-, inside, known⟩ := search_sound found
    exact (reads i inside).symm.trans known
  · intro known
    exact search_complete ascending reads le_rfl (Nat.zero_le i) (List.getElem?_eq_some_iff.mp known).1 known

end Mello.Library.BinarySearch
