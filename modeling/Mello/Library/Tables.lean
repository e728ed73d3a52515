import Mathlib

/-!
A list as a table that grows at its end and changes one row at a time: the row
at an index afterwards is the changed one or one from before. What the rows hold
together changes by what the changed row held and holds.
-/

namespace Mello.Library.Tables

variable {α β : Type*} {rows : List α} {row other : α} {i j : Nat}

theorem getElem?_concat_cases (found : (rows ++ [row])[j]? = some other) :
    rows[j]? = some other ∨ (j = rows.length ∧ other = row) := by
  rcases Nat.lt_or_ge j rows.length with old | new
  · rw [List.getElem?_append_left old] at found
    exact .inl found
  · rw [List.getElem?_append_right new, List.getElem?_singleton] at found
    split_ifs at found with last
    exact .inr ⟨by omega, (Option.some.inj found).symm⟩

theorem getElem?_set_cases (found : (rows.set i row)[j]? = some other) :
    (j = i ∧ other = row) ∨ (j ≠ i ∧ rows[j]? = some other) := by
  rcases eq_or_ne i j with rfl | apart
  · have inside : i < rows.length := by
      have bound := (List.getElem?_eq_some_iff.mp found).1
      rwa [List.length_set] at bound
    rw [List.getElem?_set_self inside] at found
    exact .inl ⟨rfl, (Option.some.inj found).symm⟩
  · rw [List.getElem?_set_ne apart] at found
    exact .inr ⟨apart.symm, found⟩

theorem lt_length (found : rows[j]? = some row) : j < rows.length := (List.getElem?_eq_some_iff.mp found).1

theorem mem_set_cases (member : other ∈ rows.set i row) : other = row ∨ other ∈ rows := by
  obtain ⟨j, found⟩ := List.mem_iff_getElem?.mp member
  rcases getElem?_set_cases found with ⟨-, same⟩ | ⟨-, old⟩
  · exact .inl same
  · exact .inr (List.mem_of_getElem? old)

theorem filterMap_cons_toList (f : α → Option β) (row : α) (rows : List α) :
    (row :: rows).filterMap f = (f row).toList ++ rows.filterMap f := by
  cases held : f row with
  | none => rw [List.filterMap_cons_none held, Option.toList_none, List.nil_append]
  | some value => rw [List.filterMap_cons_some held, Option.toList_some, List.singleton_append]

theorem filterMap_set_perm (f : α → Option β) (found : rows[i]? = some other) (row : α) :
    ((f other).toList ++ (rows.set i row).filterMap f).Perm ((f row).toList ++ rows.filterMap f) := by
  obtain ⟨inside, rfl⟩ := List.getElem?_eq_some_iff.mp found
  have after := (List.set_perm_cons_eraseIdx inside row).filterMap f
  have before := (List.getElem_cons_eraseIdx_perm inside).symm.filterMap f
  rw [filterMap_cons_toList] at after
  rw [filterMap_cons_toList] at before
  have moved := (after.append_left (f rows[i]).toList).trans (List.perm_append_comm_assoc _ _ _)
  exact moved.trans (before.symm.append_left (f row).toList)

theorem flatMap_set_perm (f : α → List β) (found : rows[i]? = some other) (row : α) :
    (f other ++ (rows.set i row).flatMap f).Perm (f row ++ rows.flatMap f) := by
  obtain ⟨inside, rfl⟩ := List.getElem?_eq_some_iff.mp found
  have after := (List.set_perm_cons_eraseIdx inside row).flatMap_right f
  have before := (List.getElem_cons_eraseIdx_perm inside).symm.flatMap_right f
  rw [List.flatMap_cons] at after before
  have moved := (after.append_left (f rows[i])).trans (List.perm_append_comm_assoc _ _ _)
  exact moved.trans (before.symm.append_left (f row))

end Mello.Library.Tables
