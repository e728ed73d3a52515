import Mathlib

/-!
Lines of a list: each ends with an end mark, and what comes after the last mark is unfinished.
-/

namespace Mello.Library.Lines

variable {α : Type*} (isEnd : α → Bool)

/-- The complete lines, with what was read of the first one before, and the unfinished rest. -/
def split (begun : List α) : List α → List (List α) × List α
  | [] => ([], begun)
  | a :: l => if isEnd a then ((begun ++ [a]) :: (split [] l).1, (split [] l).2) else split (begun ++ [a]) l

def lines (l : List α) : List (List α) := (split isEnd [] l).1

def unfinished (l : List α) : List α := (split isEnd [] l).2

/-- What a read of one line takes: all up to the first mark. -/
def line : List α → List α
  | [] => []
  | a :: l => if isEnd a then [a] else a :: line l

variable {isEnd}

theorem split_append (begun front back : List α) :
    split isEnd begun (front ++ back) =
      ((split isEnd begun front).1 ++ (split isEnd (split isEnd begun front).2 back).1,
        (split isEnd (split isEnd begun front).2 back).2) := by
  induction front generalizing begun with
  | nil => rfl
  | cons a l ih =>
    rw [List.cons_append, split, split]
    split_ifs
    · rw [ih []]
      rfl
    · exact ih (begun ++ [a])

theorem lines_append {front : List α} (border : unfinished isEnd front = []) (back : List α) :
    lines isEnd (front ++ back) = lines isEnd front ++ lines isEnd back := by
  unfold unfinished at border
  unfold lines
  rw [split_append, border]

theorem unfinished_append {front : List α} (border : unfinished isEnd front = []) (back : List α) :
    unfinished isEnd (front ++ back) = unfinished isEnd back := by
  unfold unfinished at border ⊢
  rw [split_append, border]

theorem lines_grow (front back : List α) : lines isEnd front <+: lines isEnd (front ++ back) := by
  unfold lines
  rw [split_append]
  exact List.prefix_append _ _

theorem line_append_drop (l : List α) : line isEnd l ++ l.drop (line isEnd l).length = l := by
  induction l with
  | nil => rfl
  | cons a l ih =>
    unfold line
    split_ifs
    · rfl
    · rw [List.length_cons, List.drop_succ_cons, List.cons_append, ih]

theorem take_line (l : List α) : l.take (line isEnd l).length = line isEnd l :=
  (List.prefix_iff_eq_take.mp ⟨_, line_append_drop l⟩).symm

theorem line_length_le (l : List α) : (line isEnd l).length ≤ l.length := by
  have parts : line isEnd l ++ l.drop (line isEnd l).length = l := line_append_drop l
  have whole := congrArg List.length parts
  rw [List.length_append] at whole
  omega

theorem line_eq_nil {l : List α} : line isEnd l = [] ↔ l = [] := by
  cases l with
  | nil => exact iff_of_true rfl rfl
  | cons a l =>
    unfold line
    split_ifs <;> simp

theorem getLast?_cons_line (a b : α) (l : List α) : (a :: line isEnd (b :: l)).getLast? = (line isEnd (b :: l)).getLast? := by
  refine List.getLast?_cons_of_ne_nil ?_
  rw [Ne, line_eq_nil]
  exact List.cons_ne_nil b l

/-- A read that ends with a mark took a complete line. -/
theorem split_line (begun : List α) {l : List α} (complete : (line isEnd l).getLast?.any isEnd = true) :
    split isEnd begun (line isEnd l) = ([begun ++ line isEnd l], []) := by
  induction l generalizing begun with
  | nil => cases complete
  | cons a l ih =>
    unfold line at complete ⊢
    split_ifs at complete ⊢ with mark
    · rw [split, if_pos mark]
      rfl
    · cases l with
      | nil =>
        exact absurd complete (by simpa [line] using mark)
      | cons b l =>
        rw [getLast?_cons_line] at complete
        rw [split, if_neg mark, ih (begun ++ [a]) complete, List.append_assoc]
        rfl

theorem lines_line {l : List α} (complete : (line isEnd l).getLast?.any isEnd = true) :
    lines isEnd (line isEnd l) = [line isEnd l] ∧ unfinished isEnd (line isEnd l) = [] := by
  unfold lines unfinished
  rw [split_line [] complete]
  exact ⟨rfl, rfl⟩

/-- A read that does not took all there is, and no line is complete. -/
theorem line_incomplete {l : List α} (incomplete : (line isEnd l).getLast?.any isEnd = false) :
    line isEnd l = l ∧ lines isEnd l = [] := by
  have general (begun : List α) : line isEnd l = l ∧ (split isEnd begun l).1 = [] := by
    induction l generalizing begun with
    | nil => exact ⟨rfl, rfl⟩
    | cons a l ih =>
      unfold line at incomplete ⊢
      split_ifs at incomplete ⊢ with mark
      · exact absurd mark (by simpa using incomplete)
      · have rest : (line isEnd l).getLast?.any isEnd = false := by
          cases l with
          | nil => rfl
          | cons b l =>
            rw [← getLast?_cons_line a]
            exact incomplete
        obtain ⟨whole, none'⟩ := ih rest (begun ++ [a])
        rw [split, if_neg mark, whole]
        exact ⟨rfl, none'⟩
  exact general []

end Mello.Library.Lines
