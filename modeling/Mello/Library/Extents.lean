import Mathlib

/-!
A store of fixed length that is read and written at positions, and items whose
extents lie end to end in it.
-/

namespace Mello.Library.Extents

variable {α β : Type*}

/-- A read past the end fails. -/
def readAt (store : List α) (offset size : Nat) : Option (List α) :=
  if offset + size ≤ store.length then some ((store.drop offset).take size) else none

def writeAt (store : List α) (offset : Nat) (data : List α) : List α :=
  store.take offset ++ (data ++ store.drop (offset + data.length))

section ReadWrite

variable {store data : List α} {offset : Nat}

theorem length_writeAt (inside : offset + data.length ≤ store.length) :
    (writeAt store offset data).length = store.length := by
  unfold writeAt
  simp only [List.length_append, List.length_take, List.length_drop]
  omega

theorem getElem?_writeAt (inside : offset + data.length ≤ store.length) (i : Nat) :
    (writeAt store offset data)[i]? =
      if i < offset then store[i]? else if i < offset + data.length then data[i - offset]? else store[i]? := by
  have front : (store.take offset).length = offset := by
    rw [List.length_take]
    omega
  unfold writeAt
  rw [List.getElem?_append, List.getElem?_append, front, List.getElem?_take, List.getElem?_drop]
  split_ifs <;> first | rfl | omega | (congr 1; omega)

theorem readAt_writeAt (inside : offset + data.length ≤ store.length) :
    readAt (writeAt store offset data) offset data.length = some data := by
  have front : (store.take offset).length = offset := by
    rw [List.length_take]
    omega
  unfold readAt
  rw [length_writeAt inside, if_pos inside, writeAt, List.drop_append_of_le_length front.ge,
    List.drop_eq_nil_of_le front.le, List.nil_append, List.take_left]

/-- A write leaves what lies beside it. -/
theorem readAt_writeAt_apart (inside : offset + data.length ≤ store.length) {other size : Nat}
    (apart : other + size ≤ offset ∨ offset + data.length ≤ other) :
    readAt (writeAt store offset data) other size = readAt store other size := by
  have same : ((writeAt store offset data).drop other).take size = (store.drop other).take size := by
    apply List.ext_getElem?
    intro i
    rw [List.getElem?_take, List.getElem?_take, List.getElem?_drop, List.getElem?_drop]
    split_ifs with near
    · rw [getElem?_writeAt inside]
      split_ifs <;> first | rfl | omega
    · rfl
  unfold readAt
  rw [length_writeAt inside, same]

end ReadWrite

section Append

variable {front back data : List α} {offset size : Nat}

theorem readAt_append_left (inside : readAt front offset size = some data) : readAt (front ++ back) offset size = some data := by
  unfold readAt at inside ⊢
  split_ifs at inside with within
  have longer : offset + size ≤ (front ++ back).length := by
    rw [List.length_append]
    omega
  have enough : size ≤ (front.drop offset).length := by
    rw [List.length_drop]
    omega
  rw [if_pos longer, List.drop_append_of_le_length (by omega), List.take_append_of_le_length enough]
  exact inside

/-- Past the front the rest is read. -/
theorem readAt_append_right : readAt (front ++ back) (front.length + offset) size = readAt back offset size := by
  unfold readAt
  rw [List.length_append, Nat.add_assoc, List.drop_length_add_append]
  exact if_congr (Nat.add_le_add_iff_left) rfl rfl

end Append

/-! ## Items of one size -/

section Blocks

variable {pack : β → List α} {size : Nat} {items : List β}

theorem length_blocks (same : ∀ item ∈ items, (pack item).length = size) : (items.flatMap pack).length = items.length * size := by
  induction items with
  | nil => exact (Nat.zero_mul size).symm
  | cons item rest ih =>
    obtain ⟨here, later⟩ := List.forall_mem_cons.mp same
    rw [List.flatMap_cons, List.length_append, here, ih later, List.length_cons, Nat.succ_mul, Nat.add_comm]

theorem drop_blocks (same : ∀ item ∈ items, (pack item).length = size) (i : Nat) :
    (items.flatMap pack).drop (i * size) = (items.drop i).flatMap pack := by
  induction i generalizing items with
  | zero => rw [Nat.zero_mul, List.drop_zero, List.drop_zero]
  | succ i ih =>
    cases items with
    | nil =>
      rw [List.drop_nil]
      exact List.drop_nil
    | cons item rest =>
      obtain ⟨here, later⟩ := List.forall_mem_cons.mp same
      rw [List.drop_succ_cons, ← ih later, List.flatMap_cons, Nat.succ_mul, Nat.add_comm, ← List.drop_drop, List.drop_left' here]

theorem readAt_blocks (same : ∀ item ∈ items, (pack item).length = size) {i : Nat} {item : β} (known : items[i]? = some item) :
    readAt (items.flatMap pack) (i * size) size = some (pack item) := by
  obtain ⟨inside, rfl⟩ := List.getElem?_eq_some_iff.mp known
  have room : i * size + size ≤ items.length * size := by
    rw [← Nat.succ_mul]
    exact Nat.mul_le_mul_right size inside
  have here := same items[i] (List.getElem_mem inside)
  unfold readAt
  rw [length_blocks same, if_pos room, drop_blocks same, List.drop_eq_getElem_cons inside, List.flatMap_cons, List.take_left' here]

end Blocks

/-! ## Items end to end -/

/-- The extents of items of these sizes, the first one at an offset. -/
def laid : Nat → List Nat → List (Nat × Nat)
  | _, [] => []
  | offset, size :: rest => (offset, size) :: laid (offset + size) rest

/-- The store has the item at the extent. -/
def Holds (store : List α) (extent : Nat × Nat) (item : List α) : Prop := readAt store extent.1 extent.2 = some item

def shift (base : Nat) (extent : Nat × Nat) : Nat × Nat := (base + extent.1, extent.2)

section Laid

variable {store front back item : List α} {extent : Nat × Nat}

theorem Holds.append_left (holds : Holds front extent item) (back : List α) : Holds (front ++ back) extent item :=
  readAt_append_left holds

theorem Holds.behind (holds : Holds back extent item) (front : List α) :
    Holds (front ++ back) (shift front.length extent) item :=
  readAt_append_right.trans holds

theorem Holds.length (holds : Holds store extent item) : item.length = extent.2 := by
  unfold Holds readAt at holds
  split_ifs at holds with inside
  obtain rfl := Option.some.inj holds
  rw [List.length_take, List.length_drop]
  omega

theorem Holds.inside (holds : Holds store extent item) : extent.1 + extent.2 ≤ store.length := by
  unfold Holds readAt at holds
  split_ifs at holds with inside
  exact inside

theorem length_laid (offset : Nat) (sizes : List Nat) : (laid offset sizes).length = sizes.length := by
  induction sizes generalizing offset with
  | nil => rfl
  | cons size rest ih => rw [laid, List.length_cons, ih, List.length_cons]

theorem laid_shift (base offset : Nat) (sizes : List Nat) : laid (base + offset) sizes = (laid offset sizes).map (shift base) := by
  induction sizes generalizing offset with
  | nil => rfl
  | cons size rest ih =>
    rw [laid, laid, List.map_cons, Nat.add_assoc, ih]
    rfl

/-- Items that are written end to end are at the extents of their sizes. -/
theorem holds_laid (front : List α) (items : List (List α)) :
    List.Forall₂ (Holds (front ++ items.flatten)) (laid front.length (items.map List.length)) items := by
  induction items generalizing front with
  | nil => exact .nil
  | cons item rest ih =>
    have here : Holds (item ++ rest.flatten) (0, item.length) item := by
      unfold Holds readAt
      rw [List.length_append, if_pos (by omega), List.drop_zero, List.take_left]
    have later := ih (front ++ item)
    rw [List.append_assoc, List.length_append] at later
    exact .cons (here.behind front) later

end Laid

/-- The items' extents fill the range from `start` to `stop` in order; none is empty. -/
def Tiled (offset size : β → Nat) : Nat → Nat → List β → Prop
  | start, stop, [] => start = stop
  | start, stop, item :: rest =>
    offset item = start ∧ 0 < size item ∧ Tiled offset size (start + size item) stop rest

namespace Tiled

variable {offset size : β → Nat} {start stop : Nat} {items : List β}

theorem start_le (tiled : Tiled offset size start stop items) : start ≤ stop := by
  induction items generalizing start with
  | nil => exact tiled.le
  | cons item rest ih =>
    have later := ih tiled.2.2
    omega

theorem concat (tiled : Tiled offset size start stop items) {item : β} (here : offset item = stop)
    (some : 0 < size item) : Tiled offset size start (stop + size item) (items ++ [item]) := by
  induction items generalizing start with
  | nil =>
    have same : start = stop := tiled
    rw [same]
    exact ⟨here, some, rfl⟩
  | cons other rest ih => exact ⟨tiled.1, tiled.2.1, ih tiled.2.2⟩

theorem inside (tiled : Tiled offset size start stop items) {item : β} (member : item ∈ items) :
    start ≤ offset item ∧ 0 < size item ∧ offset item + size item ≤ stop := by
  induction items generalizing start with
  | nil => cases member
  | cons other rest ih =>
    obtain ⟨here, some, later⟩ := tiled
    rcases List.mem_cons.mp member with rfl | behind
    · have bound := later.start_le
      omega
    · obtain ⟨low, positive, high⟩ := ih later behind
      omega

/-- Items of one tiling are equal or lie apart. -/
theorem apart (tiled : Tiled offset size start stop items) {item other : β} (member : item ∈ items)
    (also : other ∈ items) :
    item = other ∨ offset item + size item ≤ offset other ∨ offset other + size other ≤ offset item := by
  induction items generalizing start with
  | nil => cases member
  | cons head rest ih =>
    obtain ⟨here, some, later⟩ := tiled
    rcases List.mem_cons.mp member with rfl | behind
    · rcases List.mem_cons.mp also with rfl | behind'
      · exact .inl rfl
      · have bound := later.inside behind'
        omega
    · rcases List.mem_cons.mp also with rfl | behind'
      · have bound := later.inside behind
        omega
      · exact ih later behind behind'

end Tiled

end Mello.Library.Extents
