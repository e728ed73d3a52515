import Mathlib

/-!
Parity of words and of strings of words: the XOR over a collection. Whichever
member is missing, it is the XOR of the parity with the members that are left;
a string of words among longer ones is padded with zeros.
-/

namespace Mello.Library.Parity

variable {α : Type*} {w : Nat}

def xorInto : List (BitVec w) → List (BitVec w) → List (BitVec w)
  | [], source => source
  | parity, [] => parity
  | p :: parity, s :: source => (p ^^^ s) :: xorInto parity source

theorem getD_xorInto (parity source : List (BitVec w)) (k : Nat) :
    (xorInto parity source).getD k 0 = parity.getD k 0 ^^^ source.getD k 0 := by
  induction parity generalizing source k with
  | nil => simp [xorInto]
  | cons p parity ih =>
    cases source with
    | nil => simp [xorInto]
    | cons s source =>
      cases k with
      | zero => rfl
      | succ k => exact ih source k

theorem length_xorInto (parity source : List (BitVec w)) :
    (xorInto parity source).length = max parity.length source.length := by
  induction parity generalizing source with
  | nil => simp [xorInto]
  | cons p parity ih =>
    cases source with
    | nil => simp [xorInto]
    | cons s source =>
      change (xorInto parity source).length + 1 = _
      rw [ih]
      simp

section Words

variable (f : α → BitVec w)

theorem foldl_xor (items : List α) (start : BitVec w) :
    items.foldl (fun parity item => parity ^^^ f item) start =
      start ^^^ items.foldl (fun parity item => parity ^^^ f item) 0 := by
  induction items generalizing start with
  | nil => simp
  | cons item rest ih =>
    have first : (0 : BitVec w) ^^^ f item = f item := BitVec.zero_xor
    rw [List.foldl_cons, List.foldl_cons, ih, ih (0 ^^^ f item), first, BitVec.xor_assoc]

/-- The parity and all members but one give that one. -/
theorem rebuild_word (front back : List α) (lost : α) :
    (front ++ back).foldl (fun parity item => parity ^^^ f item)
      ((front ++ lost :: back).foldl (fun parity item => parity ^^^ f item) 0) = f lost := by
  generalize whole : (fun (parity : BitVec w) item => parity ^^^ f item) = add
  have split : ∀ (items : List α) (start : BitVec w), items.foldl add start = start ^^^ items.foldl add 0 := by
    intro items start
    rw [← whole]
    exact foldl_xor f items start
  have one : ∀ start, add start lost = start ^^^ f lost := by
    intro start
    rw [← whole]
  rw [List.foldl_append, List.foldl_append, List.foldl_cons, split back, split front, split back (add _ _), one]
  generalize front.foldl add 0 = a
  generalize back.foldl add 0 = b
  calc
    a ^^^ f lost ^^^ b ^^^ a ^^^ b = f lost ^^^ (a ^^^ a) ^^^ (b ^^^ b) := by ac_rfl
    _ = f lost := by simp

end Words

section Strings

variable (f : α → List (BitVec w))

def gather (items : List α) (start : List (BitVec w)) : List (BitVec w) :=
  items.foldl (fun parity item => xorInto parity (f item)) start

theorem getD_gather (items : List α) (start : List (BitVec w)) (k : Nat) :
    (gather f items start).getD k 0 =
      items.foldl (fun parity item => parity ^^^ (f item).getD k 0) (start.getD k 0) := by
  unfold gather
  induction items generalizing start with
  | nil => rfl
  | cons item rest ih => rw [List.foldl_cons, List.foldl_cons, ih, getD_xorInto]

theorem length_le_gather (items : List α) (start : List (BitVec w)) :
    start.length ≤ (gather f items start).length ∧
      ∀ item ∈ items, (f item).length ≤ (gather f items start).length := by
  unfold gather
  induction items generalizing start with
  | nil => exact ⟨le_rfl, fun item member => by cases member⟩
  | cons item rest ih =>
    obtain ⟨first, others⟩ := ih (xorInto start (f item))
    rw [length_xorInto, max_le_iff] at first
    rw [List.foldl_cons]
    refine ⟨first.1, fun other member => ?_⟩
    rcases List.mem_cons.mp member with rfl | later
    · exact first.2
    · exact others other later

/-- The parity and all members but one give that one, once cut to its length. -/
theorem rebuild_string (front back : List α) (lost : α) :
    (gather f (front ++ back) (gather f (front ++ lost :: back) [])).take (f lost).length = f lost := by
  have enough : (f lost).length ≤ (gather f (front ++ back) (gather f (front ++ lost :: back) [])).length := by
    have parity := (length_le_gather f (front ++ lost :: back) []).2 lost
      (List.mem_append_right _ List.mem_cons_self)
    exact parity.trans (length_le_gather f (front ++ back) _).1
  apply List.ext_getElem
  · rw [List.length_take]
    omega
  · intro k inside here
    have word : (gather f (front ++ back) (gather f (front ++ lost :: back) [])).getD k 0 = (f lost).getD k 0 := by
      rw [getD_gather, getD_gather]
      exact rebuild_word (fun item => (f item).getD k 0) front back lost
    rw [List.getElem_take]
    rwa [List.getD_eq_getElem _ _ (by omega), List.getD_eq_getElem _ _ here] at word

end Strings

end Mello.Library.Parity
