import Mathlib

/-!
A list in strictly descending order that is handed out in pages. The cursor of the next page is the
last key of this one, and none stands for the first page and for the end. Following the cursors hands
out the list once.
-/

namespace Mello.Library.Pages

variable {Key : Type*} [LinearOrder Key]

def below (cursor : Option Key) (keys : List Key) : List Key :=
  match cursor with
  | none => keys
  | some c => keys.filter (· < c)

/-- A page, and the cursor of the next one. -/
def page (size : Nat) (keys : List Key) (cursor : Option Key) : List Key × Option Key :=
  let rest := below cursor keys
  if rest.length > size then (rest.take size, (rest.take size).getLast?) else (rest, none)

def follow (size : Nat) (keys : List Key) : Nat → Option Key → Option (List Key)
  | 0, _ => none
  | fuel + 1, cursor =>
    match page size keys cursor with
    | (front, none) => some front
    | (front, some next) => (follow size keys fuel (some next)).map (front ++ ·)

variable {size : Nat} {keys : List Key} {c : Key}

/-- In a strictly descending list, the keys below one are those behind it. -/
theorem below_of_split {front back : List Key} (sorted : (front ++ c :: back).Pairwise (· > ·)) :
    below (some c) (front ++ c :: back) = back := by
  obtain ⟨-, tail, before⟩ := List.pairwise_append.mp sorted
  obtain ⟨after, -⟩ := List.pairwise_cons.mp tail
  have none : front.filter (· < c) = [] := by
    rw [List.filter_eq_nil_iff]
    intro other member
    have greater := before other member c List.mem_cons_self
    simpa using greater.le
  have all : back.filter (· < c) = back := by
    rw [List.filter_eq_self]
    intro other member
    exact decide_eq_true (after other member)
  rw [below, List.filter_append, none, List.filter_cons_of_neg (by simp), all, List.nil_append]

/-- From a cursor on, the pages hand out the keys behind it. The induction is on how many these are. -/
theorem follow_below (positive : 0 < size) (sorted : keys.Pairwise (· > ·)) (cursor : Option Key)
    (back : ∃ front, keys = front ++ below cursor keys) :
    ∃ fuel, follow size keys fuel cursor = some (below cursor keys) := by
  induction length : (below cursor keys).length using Nat.strong_induction_on generalizing cursor with
  | _ count ih =>
    by_cases more : (below cursor keys).length > size
    · have first : page size keys cursor = ((below cursor keys).take size, ((below cursor keys).take size).getLast?) :=
        if_pos more
      have some' : (below cursor keys).take size ≠ [] := by
        intro none
        have short := congrArg List.length none
        rw [List.length_take, List.length_nil] at short
        omega
      obtain ⟨init, next, split⟩ := (List.eq_nil_or_concat ((below cursor keys).take size)).resolve_left some'
      rw [List.concat_eq_append] at split
      have whole := List.take_append_drop size (below cursor keys)
      obtain ⟨front, keys'⟩ := back
      have keys'' : keys = (front ++ init) ++ next :: (below cursor keys).drop size := by
        rw [List.append_assoc, List.append_cons init, ← split, whole]
        exact keys'
      have rest : below (some next) keys = (below cursor keys).drop size := by
        rw [keys''] at sorted
        have later := below_of_split sorted
        rw [← keys''] at later
        exact later
      have fewer : (below (some next) keys).length < count := by
        rw [rest, List.length_drop]
        omega
      have suffix : ∃ front, keys = front ++ below (some next) keys := by
        refine ⟨front ++ init ++ [next], ?_⟩
        rw [rest, List.append_assoc, List.singleton_append]
        exact keys''
      obtain ⟨fuel, followed⟩ := ih _ fewer (some next) suffix rfl
      refine ⟨fuel + 1, ?_⟩
      have last : ((below cursor keys).take size).getLast? = some next := by
        rw [split, List.getLast?_append_of_ne_nil _ (List.cons_ne_nil _ _), List.getLast?_singleton]
      rw [follow, first, last]
      dsimp only
      rw [followed, Option.map_some, rest, whole]
    · have only : page size keys cursor = (below cursor keys, none) := if_neg more
      refine ⟨1, ?_⟩
      rw [follow, only]

/-- The pages from the first one on hand out all keys. -/
theorem follow_all (positive : 0 < size) (sorted : keys.Pairwise (· > ·)) :
    ∃ fuel, follow size keys fuel none = some keys :=
  follow_below positive sorted none ⟨[], rfl⟩

end Mello.Library.Pages
