import Mello.Transport.GoogCc

/-!
The reference times of the feedback reports. A report has 24 bits of the receiver's time in units of 64 ms;
the controller keeps an offset, so that the times of all reports are on one line.
-/

namespace Mello.Transport.ReferenceTimes
open GoogCc

/-- The wire field of a reference time. -/
def reference (time : ℤ) : BitVec 32 := BitVec.ofInt 32 (time % 2 ^ 24)

/-- The offsets that the controller answers for the references, in order. -/
def offsets : GoogCcController → List (BitVec 32) → List ℤ
  | _, [] => []
  | c, reference :: rest =>
    let c := c.unwrapReferenceOffset reference
    c.referenceOffsetUs :: offsets c rest

/-! ## One report -/

theorem toNat_reference (time : ℤ) : ((reference time).toNat : ℤ) = time % 2 ^ 24 := by
  unfold reference
  rw [BitVec.toNat_ofInt]
  omega

/-- The low 24 bits of a difference of references are those of the difference of the times. -/
theorem low_sub_reference (time last : ℤ) :
    (((reference time - reference last) &&& 0xffffff).toNat : ℤ) = (time - last) % 2 ^ 24 := by
  have mask : ((reference time - reference last) &&& 0xffffff).toNat = (reference time - reference last).toNat % 2 ^ 24 := by
    rw [BitVec.toNat_and]
    exact Nat.and_two_pow_sub_one_eq_mod _ 24
  have first := toNat_reference time
  have second := toNat_reference last
  rw [mask, BitVec.toNat_sub]
  omega

/-- The controller saw `last` last, and its offset puts that time on the line that `constant` is of. -/
structure Follows (c : GoogCcController) (last constant : ℤ) : Prop where
  has : c.hasReference = true
  seen : c.lastReference = reference last
  onLine : c.referenceOffsetUs = last * 64000 - last % 2 ^ 24 * 64000 + constant

variable {c : GoogCcController} {last time constant : ℤ}

theorem follows_first (c : GoogCcController) (fresh : c.hasReference = false) (time : ℤ) :
    Follows (c.unwrapReferenceOffset (reference time)) time
      (time % 2 ^ 24 * 64000 + c.referenceOffsetUs - time * 64000) where
  has := rfl
  seen := rfl
  onLine := by
    unfold GoogCcController.unwrapReferenceOffset
    dsimp only
    rw [fresh, if_neg Bool.false_ne_true]
    ring

/-- Less than half the space apart, the next time stays on the line, over a wrap in either direction. -/
theorem Follows.next (follows : Follows c last constant) (back : -2 ^ 23 ≤ time - last) (ahead : time - last < 2 ^ 23) :
    Follows (c.unwrapReferenceOffset (reference time)) time constant where
  has := rfl
  seen := rfl
  onLine := by
    unfold GoogCcController.unwrapReferenceOffset kReferenceWrapUs
    dsimp only
    rw [follows.has, follows.seen, follows.onLine, low_sub_reference, toNat_reference, if_pos rfl]
    split_ifs <;> omega

/-! ## Every sequence -/

/-- The time on the wire with its offset is the true time, up to the constant. -/
def OnLine (constant time offset : ℤ) : Prop := ((reference time).toNat : ℤ) * 64000 + offset - time * 64000 = constant

theorem Follows.onLine' (follows : Follows c time constant) : OnLine constant time c.referenceOffsetUs := by
  unfold OnLine
  rw [toNat_reference, follows.onLine]
  ring

/-- Times whose neighbours are less than half the space apart. -/
def Near (times : List ℤ) : Prop := times.IsChain fun last time => -2 ^ 23 ≤ time - last ∧ time - last < 2 ^ 23

theorem Follows.offsets (follows : Follows c last constant) {times : List ℤ} (near : Near (last :: times)) :
    List.Forall₂ (OnLine constant) times (offsets c (times.map reference)) := by
  induction times generalizing c last with
  | nil => exact .nil
  | cons time rest ih =>
    obtain ⟨⟨back, ahead⟩, later⟩ := List.isChain_cons_cons.mp near
    have next := follows.next back ahead
    exact .cons next.onLine' (ih next later)

/-- All arrival times have one constant, whatever the wraps are. -/
theorem reference_times_on_line (startBps minBps maxBps : ℕ) {times : List ℤ} (near : Near times) :
    ∃ constant, List.Forall₂ (OnLine constant) times
      (offsets (GoogCcController.make startBps minBps maxBps) (times.map reference)) := by
  cases times with
  | nil => exact ⟨0, .nil⟩
  | cons time rest =>
    have first := follows_first (GoogCcController.make startBps minBps maxBps) rfl time
    exact ⟨_, .cons first.onLine' (first.offsets near)⟩

/-- Forward over the wrap, back over it, and forward again. -/
theorem reference_times_on_line_wraps : ∃ constant, List.Forall₂ (OnLine constant) [2 ^ 24 - 1, 2 ^ 24 + 1, 2 ^ 24 - 2, 2 ^ 24]
    (offsets (GoogCcController.make 0 0 0) ([2 ^ 24 - 1, 2 ^ 24 + 1, 2 ^ 24 - 2, 2 ^ 24].map reference)) := by
  have near : Near [2 ^ 24 - 1, 2 ^ 24 + 1, 2 ^ 24 - 2, 2 ^ 24] := by
    unfold Near
    simp
  exact reference_times_on_line 0 0 0 near

end Mello.Transport.ReferenceTimes
