import Mello.Library.BigEndian

/-!
Big-endian bytes and the boxes of an MP4. Bytes are read with a proof that they
are there, so a check that the source makes before a read stands before it here.
-/

namespace Mello.Replay.Mp4Box
open Mello.Library BigEndian

/-- The bytes at a place of a string that holds them. -/
def slice (data : List Byte) (start count : Nat) (_inside : start + count ≤ data.length) : List Byte :=
  (data.drop start).take count

section Reads

variable (data : List Byte) (start : Nat)

def be16 (inside : start + 2 ≤ data.length) : Nat := number (slice data start 2 inside)

def be32 (inside : start + 4 ≤ data.length) : Nat := number (slice data start 4 inside)

def be64 (inside : start + 8 ≤ data.length) : Nat := number (slice data start 8 inside)

end Reads

def fourcc (a b c d : Char) : Nat := ((a.toNat * 256 + b.toNat) * 256 + c.toNat) * 256 + d.toNat

/-! ## The walk over boxes -/

/-- One box: its type, and its body after the header. -/
structure BoxRef where
  type : Nat
  body : List Byte
  deriving DecidableEq, Repr

/-- The size of the first box, and whether it is the 64-bit one. -/
def boxSize (data : List Byte) (header : 8 ≤ data.length) : Option (Nat × Bool) :=
  let box := be32 data 0 (by omega)
  if box = 1 then
    if wide : 16 ≤ data.length then some (be64 data 8 wide, true) else none
  else if box = 0 then some (data.length, false)
  else some (box, false)

def headerSize (wide : Bool) : Nat := if wide then 16 else 8

theorem headerSize_pos (wide : Bool) : 0 < headerSize wide := by cases wide <;> decide

/-- The boxes in order, as far as they fit, and whether all do. -/
def boxesOf (data : List Byte) : List BoxRef × Bool :=
  if data.length = 0 then ([], true)
  else if header : 8 ≤ data.length then
    match boxSize data header with
    | none => ([], false)
    | some (box, wide) =>
      if headerSize wide ≤ box ∧ box ≤ data.length then
        let (boxes, walked) := boxesOf (data.drop box)
        (⟨be32 data 4 header, (data.take box).drop (headerSize wide)⟩ :: boxes, walked)
      else ([], false)
  else ([], false)
termination_by data.length
decreasing_by
  have some := headerSize_pos wide
  rw [List.length_drop]
  omega

/-- `fn` for each box in order, on what the callback changes. False when a box does
not fit. -/
def forEachBox {State : Type} (fn : State → BoxRef → State) (data : List Byte) (s : State) : Bool × State :=
  ((boxesOf data).2, (boxesOf data).1.foldl fn s)

/-! ## Writing -/

/-- What the writer leaves between `begin` and the `end` that patches the size. -/
def box (type : Nat) (body : List Byte) : List Byte := digits 4 (8 + body.length) ++ (digits 4 type ++ body)

/-- `begin_full`: the version and the flags after the type. -/
def fullBox (type version flags : Nat) (body : List Byte) : List Byte :=
  box type (digits 1 version ++ (digits 3 flags ++ body))

/-! ## Walking what was written -/

theorem length_box (type : Nat) (body : List Byte) : (box type body).length = 8 + body.length := by
  unfold box
  rw [List.length_append, List.length_append, length_digits, length_digits, ← Nat.add_assoc]

theorem length_fullBox (type version flags : Nat) (body : List Byte) :
    (fullBox type version flags body).length = 12 + body.length := by
  unfold fullBox
  rw [length_box, List.length_append, List.length_append, length_digits, length_digits]
  omega

theorem boxesOf_nil : boxesOf [] = ([], true) := by
  rw [boxesOf]
  rfl

section Written

variable {type : Nat} {body : List Byte} (rest : List Byte)

theorem boxSize_box (header : 8 ≤ (box type body ++ rest).length) (fits : 8 + body.length < 2 ^ 32) :
    boxSize (box type body ++ rest) header = some (8 + body.length, false) := by
  have size : ∀ inside, be32 (box type body ++ rest) 0 inside = 8 + body.length := by
    intro inside
    unfold be32 slice box
    rw [List.drop_zero, List.append_assoc, List.take_left' (length_digits 4 _), number_digits fits]
  unfold boxSize
  dsimp only
  rw [size, if_neg (by omega), if_neg (by omega)]

theorem be32_type (named : type < 2 ^ 32) (inside : 4 + 4 ≤ (box type body ++ rest).length) :
    be32 (box type body ++ rest) 4 inside = type := by
  unfold be32 slice box
  rw [List.append_assoc, List.drop_left' (length_digits 4 _), List.append_assoc, List.take_left' (length_digits 4 _),
    number_digits named]

/-- The walk finds a box as it was written. -/
theorem boxesOf_box (named : type < 2 ^ 32) (fits : 8 + body.length < 2 ^ 32) :
    boxesOf (box type body ++ rest) = (⟨type, body⟩ :: (boxesOf rest).1, (boxesOf rest).2) := by
  have length : (box type body ++ rest).length = 8 + body.length + rest.length := by
    rw [List.length_append, length_box]
  have header : 8 ≤ (box type body ++ rest).length := by omega
  have whole : (box type body).length = 8 + body.length := length_box type body
  have inner : ((box type body ++ rest).take (8 + body.length)).drop 8 = body := by
    rw [List.take_left' whole]
    unfold box
    rw [← List.append_assoc]
    apply List.drop_left'
    rw [List.length_append, length_digits, length_digits]
  rw [boxesOf, if_neg (by omega), dif_pos header, boxSize_box rest header fits]
  dsimp only
  rw [if_pos ⟨Nat.le_add_right 8 _, by omega⟩, List.drop_left' whole, be32_type rest named]
  change (BoxRef.mk type (((box type body ++ rest).take (8 + body.length)).drop 8) :: _, _) = _
  rw [inner]

end Written

end Mello.Replay.Mp4Box
