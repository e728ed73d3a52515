import Mello.Library.Faults
import Mello.Transport.H264Packetization

/-!
The readers of a payload behind the validator, byte by byte as they index it.
None checks more than it needs for its own reads, and `reconstruct` checks
nothing: what the validator accepted is what keeps it inside.
-/

namespace Mello.Transport.H264Reads
open Mello.Library Faults Twcc TwccChunks H264Payload H264Packetization

/-! ## The readers -/

/-- The NAL unit whose bytes behind the header are the `bodySize` from `body` on. -/
def nalStartsAccessUnit (payload : List Byte) (type : Byte) (body bodySize : Nat) :
    Except ParseFault Bool :=
  if type = kAud ∨ type = kSps ∨ type = kSei then .ok true
  else if type = kIdr ∨ type = kNonIdrSlice then
    if 1 ≤ bodySize then do
      let first ← byteAt payload body
      return first &&& 0x80 ≠ 0
    else .ok false
  else .ok false

def startsNal (payload : List Byte) : Except ParseFault Bool :=
  if payload.length = 0 then .ok false
  else do
    let header ← byteAt payload 0
    let type := nalType header
    if isSingleNal type then return true
    else if type = kStapA then return true
    else if type = kFuA ∧ 2 ≤ payload.length then do
      let fuHeader ← byteAt payload 1
      return startsFu fuHeader
    else return false

/-- The type that opens a payload, 0 when there is none. -/
def firstNalType (payload : List Byte) : Except ParseFault Byte :=
  if payload.length = 0 then .ok 0
  else do
    let header ← byteAt payload 0
    let type := nalType header
    if isSingleNal type then return type
    else if type = kStapA ∧ 4 ≤ payload.length then do
      let first ← byteAt payload 3
      return nalType first
    else if type = kFuA ∧ 2 ≤ payload.length then do
      let fuHeader ← byteAt payload 1
      return if startsFu fuHeader then nalType fuHeader else 0
    else return 0

def h264PayloadStartsAccessUnit (payload : List Byte) : Except ParseFault Bool :=
  if payload.length = 0 then .ok false
  else do
    let header ← byteAt payload 0
    let type := nalType header
    if isSingleNal type then nalStartsAccessUnit payload type 1 (payload.length - 1)
    else if type = kStapA then
      if payload.length < 4 then return false
      else do
        let nalSize := (← readU16 payload 1).toNat
        if nalSize = 0 ∨ nalSize > payload.length - 3 then return false
        else do
          let first ← byteAt payload 3
          nalStartsAccessUnit payload (nalType first) 4 (nalSize - 1)
    else if type = kFuA then
      if payload.length < 3 then return false
      else do
        let fuHeader ← byteAt payload 1
        if startsFu fuHeader then
          nalStartsAccessUnit payload (nalType fuHeader) 2 (payload.length - 2)
        else return false
    else return false

/-! ## What they read -/

theorem nalStartsAccessUnit_eq {payload : List Byte} {body size : Nat} (type : Byte)
    (inside : body + size ≤ payload.length) :
    nalStartsAccessUnit payload type body size =
      .ok (H264Payload.nalStartsAccessUnit type ((payload.drop body).take size)) := by
  unfold nalStartsAccessUnit H264Payload.nalStartsAccessUnit
  split_ifs with opener slice some
  · rfl
  · have found : body < payload.length := by omega
    obtain ⟨less, rfl⟩ := Nat.exists_eq_add_of_le' some
    rw [byteAt_of_drop (List.drop_eq_getElem_cons found), List.drop_eq_getElem_cons found,
      List.take_succ_cons]
    rfl
  · rw [Nat.lt_one_iff.mp (Nat.lt_of_not_le some), List.take_zero]
  · rfl

section
variable (header : Byte) (body : List Byte)

theorem cons_length_ne_zero : ¬(header :: body).length = 0 := Nat.succ_ne_zero body.length

theorem byteAt_zero : byteAt (header :: body) 0 = .ok header := rfl

end

theorem startsNal_eq (payload : List Byte) : startsNal payload = .ok (H264Payload.startsNal payload) := by
  cases payload with
  | nil => rfl
  | cons header body =>
    rw [startsNal, if_neg (cons_length_ne_zero header body), byteAt_zero, ok_bind, H264Payload.startsNal]
    dsimp only
    split_ifs with single stapA fuA
    · rw [single]
      rfl
    · rw [stapA]
      rfl
    · obtain ⟨type, long⟩ := fuA
      match body with
      | [] => exact absurd long (Nat.not_succ_le_self 1)
      | fuHeader :: _ =>
        rw [type]
        rfl
    · rw [Bool.eq_false_of_not_eq_true single, beq_false_of_ne stapA]
      match body with
      | [] =>
        rw [List.head?_nil, Option.any_none, Bool.and_false]
        rfl
      | fuHeader :: rest =>
        have other : nalType header ≠ kFuA := fun type => fuA ⟨type, Nat.le_add_left 2 rest.length⟩
        rw [beq_false_of_ne other, Bool.false_and]
        rfl

theorem firstNalType_reads (payload : List Byte) : ∃ type, firstNalType payload = .ok type := by
  cases payload with
  | nil => exact ⟨0, rfl⟩
  | cons header body =>
    rw [firstNalType, if_neg (cons_length_ne_zero header body), byteAt_zero, ok_bind]
    dsimp only
    split_ifs with single stapA fuA
    · exact ⟨_, rfl⟩
    · have inside : 3 < (header :: body).length := stapA.2
      rw [byteAt_of_drop (List.drop_eq_getElem_cons inside)]
      exact ⟨_, rfl⟩
    · have inside : 1 < (header :: body).length := fuA.2
      rw [byteAt_of_drop (List.drop_eq_getElem_cons inside)]
      exact ⟨_, rfl⟩
    · exact ⟨_, rfl⟩

theorem h264PayloadStartsAccessUnit_eq (payload : List Byte) :
    h264PayloadStartsAccessUnit payload = .ok (H264Payload.h264PayloadStartsAccessUnit payload) := by
  cases payload with
  | nil => rfl
  | cons header body =>
    rw [h264PayloadStartsAccessUnit, if_neg (cons_length_ne_zero header body), byteAt_zero, ok_bind]
    unfold H264Payload.h264PayloadStartsAccessUnit
    dsimp only
    by_cases single : isSingleNal (nalType header) = true
    · rw [if_pos single, if_pos single, List.length_cons, Nat.add_sub_cancel,
        nalStartsAccessUnit_eq _ (Nat.le_of_eq (Nat.add_comm 1 body.length)), List.drop_one, List.tail_cons,
        List.take_length]
    rw [if_neg single, if_neg single]
    by_cases stapA : nalType header = kStapA
    · rw [if_pos stapA, if_pos stapA]
      match body with
      | [] | [_] | [_, _] => rfl
      | high :: low :: first :: rest =>
        have size : readU16 (header :: high :: low :: first :: rest) 1 = .ok (high ++ low) := rfl
        have here : byteAt (header :: high :: low :: first :: rest) 3 = .ok first := rfl
        rw [if_neg (by simp only [List.length_cons]; omega), size, ok_bind, here]
        simp only [List.length_cons]
        by_cases bad : (high ++ low).toNat = 0 ∨ (high ++ low).toNat > rest.length + 1
        · rw [if_pos bad, if_pos (by omega)]
          rfl
        · rw [if_neg bad, if_neg (by omega), ok_bind, nalStartsAccessUnit_eq]
          · rfl
          · simp only [List.length_cons]
            omega
    rw [if_neg stapA, if_neg stapA]
    by_cases fuA : nalType header = kFuA
    · rw [if_pos fuA, if_pos fuA]
      match body with
      | [] => rfl
      | [fuHeader] => rfl
      | fuHeader :: first :: rest =>
        have here : byteAt (header :: fuHeader :: first :: rest) 1 = .ok fuHeader := rfl
        rw [if_neg (by simp only [List.length_cons]; omega), here, ok_bind]
        have size : (header :: fuHeader :: first :: rest).length - 2 = (first :: rest).length := rfl
        dsimp only
        cases starts : startsFu fuHeader with
        | false =>
          rw [if_neg Bool.false_ne_true, Bool.not_false, if_pos (Or.inr rfl)]
          rfl
        | true =>
          rw [if_pos rfl, if_neg (by simp), size,
            nalStartsAccessUnit_eq _ (by simp only [List.length_cons]; omega)]
          simp only [List.drop_succ_cons, List.drop_zero, List.take_length]
    · rw [if_neg fuA, if_neg fuA]
      rfl

/-! ## Joining -/

theorem Carries.isNal {begun : List Byte} {payloads nals : List (List Byte)}
    (carries : Carries begun payloads nals) : ∀ nal ∈ nals, IsNal nal := by
  induction carries with
  | done => exact nofun
  | single valid rest ih =>
    intro nal member
    cases member with
    | head => exact ⟨_, _, rfl, valid⟩
    | tail _ later => exact ih nal later
  | stapA type clear some small rest ih =>
    intro nal member
    rcases List.mem_append.mp member with unit | later
    · exact (small nal unit).1
    · exact ih nal later
  | fuFirst valid some rest ih | fuMiddle valid some rest ih => exact ih
  | fuLast valid some rest ih =>
    intro nal member
    cases member with
    | head => exact ⟨_, _, rfl, valid⟩
    | tail _ later => exact ih nal later

/-- The bound that every append keeps. -/
def Small (output : ReconstructedAccessUnit) : Prop := output.bytes.length ≤ kMaxAnnexBBytes

theorem appendNal_agree {output : ReconstructedAccessUnit} {nal : List Byte} {size : Nat}
    (inside : size ≤ nal.length) :
    Agree ParseFault.rejected Small (appendNal output nal size) (appendNal output nal size) := by
  unfold appendNal
  by_cases bad : size = 0 ∨ size > kMaxAnnexBBytes - startCode.length ∨
      output.bytes.length > kMaxAnnexBBytes - startCode.length - size
  · rw [if_pos bad]
    exact .refused
  · rw [if_neg bad]
    cases nal with
    | nil => exact absurd (Or.inl (Nat.eq_zero_of_le_zero inside)) bad
    | cons header body =>
      dsimp only
      rw [if_neg (Nat.not_lt_of_le inside)]
      apply Agree.done
      rw [Small]
      simp only [List.length_append, List.length_take]
      omega

theorem appendStapA_agree {fuel : Nat} {output : ReconstructedAccessUnit} {nals : List (List Byte)}
    (valid : ∀ nal ∈ nals, IsNal nal ∧ nal.length < 2 ^ 16)
    (enough : (aggregate nals).length ≤ fuel) (small : Small output) :
    Agree ParseFault.rejected Small (appendStapA fuel output (aggregate nals))
      (appendStapA fuel output (aggregate nals)) := by
  induction nals generalizing fuel output with
  | nil =>
    rw [aggregate, List.flatMap_nil]
    unfold appendStapA
    exact .done small
  | cons nal rest ih =>
    obtain ⟨high, low, field, size⟩ := size_of_u16Bytes (valid nal List.mem_cons_self).2
    rw [aggregate_cons, field] at enough ⊢
    simp only [List.length_append, List.length_cons, List.length_nil] at enough
    obtain ⟨fuel, rfl⟩ := Nat.exists_eq_add_of_le' (show 1 ≤ fuel by omega)
    simp only [List.cons_append, List.nil_append]
    rw [appendStapA]
    simp only [size]
    rw [List.drop_left]
    apply (appendNal_agree (by rw [List.length_append]; omega)).bind
    intro next kept
    exact ih (fun other member => valid other (List.mem_cons_of_mem _ member)) (by omega) kept

theorem openFu_agree {r : Reconstruction} (starts : Bool) (header : Byte) (small : Small r.output) :
    Agree ParseFault.rejected (fun next => Small next.output) (openFu r starts header)
      (openFu r starts header) := by
  unfold openFu
  split_ifs
  · exact .refused
  · exact .done small
  · exact .refused
  · exact .done small

theorem appendFu_agree {r : Reconstruction} (ends : Bool) (piece : List Byte) (small : Small r.output) :
    Agree ParseFault.rejected (fun next => Small next.output) (appendFu r ends piece)
      (appendFu r ends piece) := by
  unfold appendFu
  split_ifs
  · exact .refused
  · apply (appendNal_agree le_rfl).bind
    intro output kept
    exact Agree.pure kept
  · exact .done small

/-- One pass over a payload that the validator accepted. -/
theorem appendPayload_agree {r : Reconstruction} {payload : List Byte}
    (valid : validateH264Payload payload = true) (small : Small r.output) :
    Agree ParseFault.rejected (fun next => Small next.output) (appendPayload r payload)
      (appendPayload r payload) := by
  cases payload with
  | nil => cases valid
  | cons header body =>
    unfold validateH264Payload at valid
    unfold appendPayload
    dsimp only at valid ⊢
    split_ifs at valid with set single stapA fuA
    · rw [if_pos single]
      split_ifs
      · exact .refused
      · apply (appendNal_agree le_rfl).bind
        intro output kept
        exact Agree.pure kept
    · rw [if_neg single, if_pos stapA]
      split_ifs
      · exact .refused
      · obtain ⟨nals, rfl, units, -⟩ := validateStapA_sound valid
        apply (appendStapA_agree units le_rfl small).bind
        intro output kept
        exact Agree.pure kept
    · rw [if_neg single, if_neg stapA, if_neg (not_not_intro fuA)]
      cases body with
      | nil => cases valid
      | cons fuHeader piece =>
        apply (openFu_agree _ _ small).bind
        intro next kept
        exact appendFu_agree _ _ kept

theorem foldlM_agree {payloads : List (List Byte)} {r : Reconstruction}
    (valid : ∀ payload ∈ payloads, validateH264Payload payload = true) (small : Small r.output) :
    Agree ParseFault.rejected (fun after => Small after.output) (payloads.foldlM appendPayload r)
      (payloads.foldlM appendPayload r) := by
  induction payloads generalizing r with
  | nil => exact .done small
  | cons payload rest ih =>
    rw [List.foldlM_cons]
    apply (appendPayload_agree (valid payload List.mem_cons_self) small).bind
    intro next kept
    exact ih (fun other member => valid other (List.mem_cons_of_mem _ member)) kept

theorem reconstruct_agree {payloads : List (List Byte)}
    (valid : ∀ payload ∈ payloads, validateH264Payload payload = true) :
    Agree ParseFault.rejected Small (reconstruct payloads) (reconstruct payloads) := by
  apply (foldlM_agree valid (Nat.zero_le _)).bind
  intro after small
  apply Agree.guard
  intro _
  exact Agree.pure small

/-- On accepted payloads every reader stays inside, and what `reconstruct` joins
is bounded and made of NAL units that are not empty. -/
theorem accepted_payloads_read {payloads : List (List Byte)}
    (valid : ∀ payload ∈ payloads, validateH264Payload payload = true) :
    (∀ payload ∈ payloads, (∃ type, firstNalType payload = .ok type) ∧
      h264PayloadStartsAccessUnit payload = .ok (H264Payload.h264PayloadStartsAccessUnit payload) ∧
        startsNal payload = .ok (H264Payload.startsNal payload)) ∧
      (∀ fault, reconstruct payloads = .error fault → fault = .rejected) ∧
        ∀ output, reconstruct payloads = .ok output →
          output.bytes.length ≤ kMaxAnnexBBytes ∧
            ∃ nals, output.bytes = annexB nals ∧ ∀ nal ∈ nals, nal ≠ [] := by
  refine ⟨?_, fun fault => (reconstruct_agree valid).fault_eq, ?_⟩
  · intro payload _
    exact ⟨firstNalType_reads payload, h264PayloadStartsAccessUnit_eq payload, startsNal_eq payload⟩
  · intro output joined
    obtain ⟨nals, carries, rfl⟩ := reconstruct_sound valid joined
    refine ⟨(reconstruct_agree valid).holds_of_ok joined, nals, bytes_join nals, ?_⟩
    intro nal member
    exact (Carries.isNal carries nal member).ne_nil

/-- A STAP-A of two NAL units, then one NAL unit in two fragments. -/
def threeNals : List (List Byte) :=
  [[24, 0, 2, 0x67, 1, 0, 1, 0x68], [0x7c, 0x85, 9, 8], [0x7c, 0x45, 7]]

theorem accepted_payloads_read_three :
    (∀ payload ∈ threeNals, (∃ type, firstNalType payload = .ok type) ∧
      h264PayloadStartsAccessUnit payload = .ok (H264Payload.h264PayloadStartsAccessUnit payload) ∧
        startsNal payload = .ok (H264Payload.startsNal payload)) ∧
      (∀ fault, reconstruct threeNals = .error fault → fault = .rejected) ∧
        ∀ output, reconstruct threeNals = .ok output →
          output.bytes.length ≤ kMaxAnnexBBytes ∧
            ∃ nals, output.bytes = annexB nals ∧ ∀ nal ∈ nals, nal ≠ [] :=
  accepted_payloads_read (by decide)

end Mello.Transport.H264Reads
