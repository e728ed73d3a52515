import Mathlib

/-!
Texts as lists of characters: the bytes of their UTF-8, slices by byte positions, and the first place of a pattern.
-/

namespace Mello.Library.Texts

/-! ## Bytes -/

def size (text : List Char) : ℕ := (text.map Char.utf8Size).sum

@[simp] theorem size_nil : size [] = 0 := rfl

@[simp] theorem size_cons (c : Char) (text : List Char) : size (c :: text) = c.utf8Size + size text := List.sum_cons

@[simp] theorem size_append (front back : List Char) : size (front ++ back) = size front + size back := by
  unfold size
  rw [List.map_append, List.sum_append]

theorem size_pos {text : List Char} (some' : text ≠ []) : 0 < size text := by
  cases text with
  | nil => exact absurd rfl some'
  | cons c rest =>
    have wide := c.utf8Size_pos
    rw [size_cons]
    omega

/-- The text from a byte position on, where the position is between two characters. -/
def dropBytes : List Char → ℕ → Option (List Char)
  | text, 0 => some text
  | [], _ + 1 => none
  | c :: rest, off + 1 => if c.utf8Size ≤ off + 1 then dropBytes rest (off + 1 - c.utf8Size) else none

/-- The text up to a byte position, where the position is between two characters. -/
def takeBytes : List Char → ℕ → Option (List Char)
  | _, 0 => some []
  | [], _ + 1 => none
  | c :: rest, off + 1 => if c.utf8Size ≤ off + 1 then (takeBytes rest (off + 1 - c.utf8Size)).map (c :: ·) else none

/-- The text between two byte positions. -/
def slice (text : List Char) (start stop : ℕ) : Option (List Char) :=
  if start ≤ stop then (dropBytes text start).bind fun rest => takeBytes rest (stop - start) else none

theorem dropBytes_append (front back : List Char) : dropBytes (front ++ back) (size front) = some back := by
  induction front with
  | nil =>
    cases back with
    | _ => rfl
  | cons c rest ih =>
    obtain ⟨off, positive⟩ : ∃ off, size (c :: rest) = off + 1 := Nat.exists_eq_add_one.mpr (size_pos (List.cons_ne_nil c rest))
    have inside : c.utf8Size ≤ off + 1 := by
      rw [← positive, size_cons]
      exact Nat.le_add_right _ _
    rw [positive, List.cons_append, dropBytes, if_pos inside, ← positive, size_cons, Nat.add_sub_cancel_left, ih]

theorem takeBytes_append (front back : List Char) : takeBytes (front ++ back) (size front) = some front := by
  induction front with
  | nil =>
    cases back with
    | _ => rfl
  | cons c rest ih =>
    obtain ⟨off, positive⟩ : ∃ off, size (c :: rest) = off + 1 := Nat.exists_eq_add_one.mpr (size_pos (List.cons_ne_nil c rest))
    have inside : c.utf8Size ≤ off + 1 := by
      rw [← positive, size_cons]
      exact Nat.le_add_right _ _
    rw [positive, List.cons_append, takeBytes, if_pos inside, ← positive, size_cons, Nat.add_sub_cancel_left, ih, Option.map_some]

/-- A part of a text is the slice between its ends. -/
theorem slice_append (front part back : List Char) :
    slice (front ++ (part ++ back)) (size front) (size front + size part) = some part := by
  unfold slice
  rw [if_pos (Nat.le_add_right _ _), dropBytes_append, Option.bind_some, Nat.add_sub_cancel_left, takeBytes_append]

/-! ## The first place of a pattern -/

section Split

variable {α : Type*} [DecidableEq α]

/-- The text before and after the first place of the pattern. -/
def splitOnce (pattern : List α) : List α → Option (List α × List α)
  | [] => if pattern = [] then some ([], []) else none
  | c :: rest =>
    if pattern.isPrefixOf (c :: rest) then some ([], (c :: rest).drop pattern.length)
    else (splitOnce pattern rest).map fun (front, back) => (c :: front, back)

variable {pattern text front back : List α}

theorem splitOnce_at_start {c : α} {rest : List α} (here : pattern <+: c :: rest) :
    splitOnce pattern (c :: rest) = some ([], (c :: rest).drop pattern.length) := by
  rw [splitOnce, if_pos (List.isPrefixOf_iff_prefix.mpr here)]

theorem splitOnce_cons {c : α} {rest : List α} (later : ¬ pattern <+: c :: rest) :
    splitOnce pattern (c :: rest) = (splitOnce pattern rest).map fun (front, back) => (c :: front, back) := by
  rw [splitOnce, if_neg fun here => later (List.isPrefixOf_iff_prefix.mp here)]

/-- The two sides and the pattern are the text. -/
theorem eq_of_splitOnce (found : splitOnce pattern text = some (front, back)) : text = front ++ (pattern ++ back) := by
  induction text generalizing front with
  | nil =>
    unfold splitOnce at found
    split_ifs at found with empty
    cases found
    rw [empty]
    rfl
  | cons c rest ih =>
    by_cases here : pattern <+: c :: rest
    · rw [splitOnce_at_start here] at found
      cases found
      obtain ⟨tail, same⟩ := here
      rw [← same, List.drop_left, List.nil_append]
    · rw [splitOnce_cons here] at found
      obtain ⟨⟨first, last⟩, known, same⟩ := Option.map_eq_some_iff.mp found
      cases same
      exact congrArg (c :: ·) (ih known)

/-- The text after a pattern is shorter. -/
theorem length_of_splitOnce (some' : pattern ≠ []) (found : splitOnce pattern text = some (front, back)) :
    back.length < text.length := by
  have positive := List.length_pos_iff.mpr some'
  rw [eq_of_splitOnce found, List.length_append, List.length_append]
  omega

/-- A text without one of the pattern's entries has no place of it. -/
theorem splitOnce_eq_none {c : α} (inside : c ∈ pattern) (absent : c ∉ text) : splitOnce pattern text = none := by
  cases found : splitOnce pattern text with
  | none => rfl
  | some both =>
    refine absurd ?_ absent
    rw [eq_of_splitOnce found]
    exact List.mem_append_right _ (List.mem_append_left _ inside)

/-- The first place of one entry. -/
theorem splitOnce_singleton_iff {c : α} : splitOnce [c] text = some (front, back) ↔ text = front ++ c :: back ∧ c ∉ front := by
  constructor
  · intro found
    refine ⟨eq_of_splitOnce found, ?_⟩
    induction text generalizing front with
    | nil =>
      unfold splitOnce at found
      rw [if_neg (List.cons_ne_nil c [])] at found
      cases found
    | cons d rest ih =>
      by_cases here : [c] <+: d :: rest
      · rw [splitOnce_at_start here] at found
        cases found
        exact List.not_mem_nil
      · rw [splitOnce_cons here] at found
        obtain ⟨⟨first, last⟩, known, same⟩ := Option.map_eq_some_iff.mp found
        cases same
        refine List.not_mem_cons_of_ne_of_not_mem ?_ (ih known)
        rintro rfl
        exact here ⟨rest, rfl⟩
  · rintro ⟨rfl, absent⟩
    induction front with
    | nil => exact splitOnce_at_start ⟨back, rfl⟩
    | cons d rest ih =>
      have later : ¬ [c] <+: d :: (rest ++ c :: back) := by
        intro here
        obtain ⟨tail, same⟩ := here
        exact absent ((List.cons.inj same).1 ▸ List.mem_cons_self)
      rw [List.cons_append, splitOnce_cons later, ih fun inside => absent (List.mem_cons_of_mem d inside)]
      rfl

theorem not_mem_of_splitOnce {c : α} (none' : splitOnce [c] text = none) : c ∉ text := by
  intro member
  obtain ⟨front, back, same, absent⟩ := List.eq_append_cons_of_mem member
  exact absurd (none'.symm.trans (splitOnce_singleton_iff.mpr ⟨same, absent⟩)) nofun

end Split

end Mello.Library.Texts
