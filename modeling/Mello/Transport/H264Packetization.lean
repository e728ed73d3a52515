import Mello.Transport.H264Payload
import Mello.Transport.TwccChunks

/-!
What a run of payloads carries, from the sender's side: NAL units sent alone,
aggregated in a STAP-A or cut into FU-A fragments. The receiver accepts each
payload of such a run and joins the run to its NAL units, nothing else.
-/

namespace Mello.Transport.H264Packetization
open Twcc TwccChunks H264Payload

def fuIndicator (header : Byte) : Byte := (header &&& 0xe0) ||| kFuA

def fuHeader (header : Byte) (starts ends : Bool) : Byte :=
  (if starts then 0x80 else 0) ||| (if ends then 0x40 else 0) ||| nalType header

/-- A NAL unit that a single packet could carry. -/
def IsNal (nal : List Byte) : Prop :=
  ∃ header body, nal = header :: body ∧ validSingleNalHeader header = true

/-- The NAL units of a STAP-A, each behind its 16-bit size. -/
def aggregate (nals : List (List Byte)) : List Byte :=
  nals.flatMap fun nal => u16Bytes (BitVec.ofNat 16 nal.length) ++ nal

/-- `Carries begun payloads nals`: behind the first bytes `begun` of a
fragmented NAL unit (none when it is empty), the payloads carry `nals`. -/
inductive Carries : List Byte → List (List Byte) → List (List Byte) → Prop where
  | done : Carries [] [] []
  | single {header : Byte} {body : List Byte} {payloads nals : List (List Byte)}
      (valid : validSingleNalHeader header = true) (rest : Carries [] payloads nals) :
      Carries [] ((header :: body) :: payloads) ((header :: body) :: nals)
  | stapA {header : Byte} {units payloads nals : List (List Byte)}
      (type : nalType header = kStapA) (clear : header &&& 0x80 = 0) (some : units ≠ [])
      (small : ∀ unit ∈ units, IsNal unit ∧ unit.length < 2 ^ 16) (rest : Carries [] payloads nals) :
      Carries [] ((header :: aggregate units) :: payloads) (units ++ nals)
  | fuFirst {header : Byte} {piece : List Byte} {payloads nals : List (List Byte)}
      (valid : validSingleNalHeader header = true) (some : piece ≠ [])
      (rest : Carries (header :: piece) payloads nals) :
      Carries [] ((fuIndicator header :: fuHeader header true false :: piece) :: payloads) nals
  | fuMiddle {header : Byte} {bytes piece : List Byte} {payloads nals : List (List Byte)}
      (valid : validSingleNalHeader header = true) (some : piece ≠ [])
      (rest : Carries (header :: bytes ++ piece) payloads nals) :
      Carries (header :: bytes)
        ((fuIndicator header :: fuHeader header false false :: piece) :: payloads) nals
  | fuLast {header : Byte} {bytes piece : List Byte} {payloads nals : List (List Byte)}
      (valid : validSingleNalHeader header = true) (some : piece ≠ [])
      (rest : Carries [] payloads nals) :
      Carries (header :: bytes)
        ((fuIndicator header :: fuHeader header false true :: piece) :: payloads)
        ((header :: bytes ++ piece) :: nals)

/-- Annex-B bytes: each NAL unit behind a start code. -/
def annexB (nals : List (List Byte)) : List Byte := nals.flatMap (startCode ++ ·)

def pushNal (output : ReconstructedAccessUnit) (nal : List Byte) : ReconstructedAccessUnit where
  bytes := output.bytes ++ startCode ++ nal
  hasIdr := output.hasIdr || nal.head?.any fun header => nalType header == kIdr
  hasSps := output.hasSps || nal.head?.any fun header => nalType header == kSps
  hasPps := output.hasPps || nal.head?.any fun header => nalType header == kPps

/-- The access unit of the NAL units. -/
def join (nals : List (List Byte)) : ReconstructedAccessUnit := nals.foldl pushNal {}

theorem bytes_foldl_pushNal (nals : List (List Byte)) (output : ReconstructedAccessUnit) :
    (nals.foldl pushNal output).bytes = output.bytes ++ annexB nals := by
  induction nals generalizing output with
  | nil => simp [annexB]
  | cons nal rest ih =>
    rw [List.foldl_cons, ih, pushNal, annexB, annexB, List.flatMap_cons]
    simp only [List.append_assoc]

theorem bytes_join (nals : List (List Byte)) : (join nals).bytes = annexB nals := by
  rw [join, bytes_foldl_pushNal, List.nil_append]

/-! ## Bytes of an FU-A -/

section FuA

variable (header : Byte) (starts ends : Bool)

theorem nalType_fuIndicator : nalType (fuIndicator header) = kFuA := by
  revert header
  decide

theorem fuIndicator_clear (valid : validSingleNalHeader header = true) :
    fuIndicator header &&& 0x80 = 0 := by
  revert header
  decide

theorem startsFu_fuHeader : startsFu (fuHeader header starts ends) = starts := by
  revert header starts ends
  decide

theorem endsFu_fuHeader : endsFu (fuHeader header starts ends) = ends := by
  revert header starts ends
  decide

theorem fuHeader_reserved : fuHeader header starts ends &&& 0x20 = 0 := by
  revert header starts ends
  decide

theorem nalType_fuHeader : nalType (fuHeader header starts ends) = nalType header := by
  revert header starts ends
  decide

theorem splice_header : (fuIndicator header &&& 0xe0) ||| nalType header = header := by
  revert header
  decide

end FuA

theorem isSingleNal_of_valid {header : Byte} (valid : validSingleNalHeader header = true) :
    isSingleNal (nalType header) = true ∧ header &&& 0x80 = 0 := by
  rw [validSingleNalHeader, Bool.and_eq_true, decide_eq_true_iff] at valid
  exact ⟨valid.2, valid.1⟩

/-- The two bytes in front of a fragment name the header of its NAL unit. -/
theorem fu_of_bytes {indicator fu : Byte} (type : nalType indicator = kFuA)
    (clear : indicator &&& 0x80 = 0) (reserved : fu &&& 0x20 = 0)
    (single : isSingleNal (nalType fu) = true) {header : Byte}
    (spliced : (indicator &&& 0xe0) ||| nalType fu = header) :
    indicator = fuIndicator header ∧ fu = fuHeader header (startsFu fu) (endsFu fu) ∧
      validSingleNalHeader header = true := by
  subst spliced
  have high : ((indicator &&& 0xe0) ||| nalType fu) &&& 0xe0 = indicator &&& 0xe0 := by
    rw [nalType, BitVec.and_or_distrib_right, BitVec.and_assoc, BitVec.and_assoc]
    simp
  have low : nalType ((indicator &&& 0xe0) ||| nalType fu) = nalType fu := by
    rw [nalType, nalType, BitVec.and_or_distrib_right, BitVec.and_assoc, BitVec.and_assoc]
    simp
  have sign : ((indicator &&& 0xe0) ||| nalType fu) &&& 0x80 = indicator &&& 0x80 := by
    rw [nalType, BitVec.and_or_distrib_right, BitVec.and_assoc, BitVec.and_assoc]
    simp
  have whole : ∀ byte : Byte, (byte &&& 0xe0) ||| nalType byte = byte := by decide
  have flags : ∀ byte : Byte, byte &&& 0x20 = 0 →
      byte = (if startsFu byte then 0x80 else 0) ||| (if endsFu byte then 0x40 else 0) |||
        nalType byte := by decide
  refine ⟨?_, ?_, ?_⟩
  · rw [fuIndicator, high, ← type]
    exact (whole indicator).symm
  · rw [fuHeader, low]
    exact flags fu reserved
  · rw [validSingleNalHeader, sign, low, single, clear]
    decide

/-! ## One NAL unit -/

theorem IsNal.ne_nil {nal : List Byte} (valid : IsNal nal) : nal ≠ [] := by
  obtain ⟨header, body, rfl, -⟩ := valid
  exact List.cons_ne_nil header body

theorem appendNal_sound {output after : ReconstructedAccessUnit} {nal : List Byte} {nalSize : Nat}
    (appended : appendNal output nal nalSize = .ok after) :
    nalSize ≠ 0 ∧ nalSize ≤ nal.length ∧ after = pushNal output (nal.take nalSize) := by
  cases nal with
  | nil =>
    unfold appendNal at appended
    split_ifs at appended
  | cons header body =>
    unfold appendNal at appended
    split_ifs at appended with large beyond
    obtain rfl := Except.ok.inj appended
    have positive : nalSize ≠ 0 := fun zero => large (Or.inl zero)
    refine ⟨positive, by omega, ?_⟩
    obtain ⟨size, rfl⟩ := Nat.exists_eq_succ_of_ne_zero positive
    simp [pushNal]

theorem appendNal_fits {output : ReconstructedAccessUnit} {nal : List Byte} (rest : List Byte)
    (some : nal ≠ [])
    (room : output.bytes.length + (startCode ++ nal).length ≤ kMaxAnnexBBytes) :
    appendNal output (nal ++ rest) nal.length = .ok (pushNal output nal) := by
  obtain ⟨header, body, rfl⟩ := List.exists_cons_of_ne_nil some
  rw [List.length_append] at room
  unfold appendNal
  rw [if_neg (by rw [List.length_cons] at *; omega)]
  rw [List.cons_append, ← List.cons_append]
  have inside : ¬ ((header :: body) ++ rest).length < (header :: body).length := by
    rw [List.length_append]
    omega
  simp only [List.cons_append] at inside ⊢
  rw [if_neg inside]
  simp [pushNal]

/-! ## STAP-A -/

theorem aggregate_cons (nal : List Byte) (rest : List (List Byte)) :
    aggregate (nal :: rest) = u16Bytes (BitVec.ofNat 16 nal.length) ++ (nal ++ aggregate rest) := by
  rw [aggregate, List.flatMap_cons, List.append_assoc]
  rfl

theorem u16Bytes_append (high low : Byte) : u16Bytes (high ++ low) = [high, low] := by
  rw [u16Bytes, BitVec.extractLsb'_append_eq_left, BitVec.extractLsb'_append_eq_right]

/-- The bytes of a size field read back as the size. -/
theorem size_of_u16Bytes {size : Nat} (small : size < 2 ^ 16) :
    ∃ high low, u16Bytes (BitVec.ofNat 16 size) = [high, low] ∧ (high ++ low).toNat = size := by
  refine ⟨_, _, rfl, ?_⟩
  rw [extract_append_16, BitVec.toNat_ofNat, Nat.mod_eq_of_lt small]

theorem validateStapA_sound {fuel nalCount : Nat} {body : List Byte}
    (valid : validateStapA fuel body nalCount = true) :
    ∃ nals, body = aggregate nals ∧ (∀ nal ∈ nals, IsNal nal ∧ nal.length < 2 ^ 16) ∧
      (nals = [] → nalCount ≠ 0) := by
  induction fuel generalizing body nalCount with
  | zero =>
    match body with
    | [] => exact ⟨[], rfl, by simp, fun _ => by simpa [validateStapA] using valid⟩
    | _ :: _ => simp [validateStapA] at valid
  | succ fuel ih =>
    match body with
    | [] => exact ⟨[], rfl, by simp, fun _ => by simpa [validateStapA] using valid⟩
    | [_] | [_, _] => simp [validateStapA] at valid
    | high :: low :: header :: rest =>
      rw [validateStapA] at valid
      split_ifs at valid with bad
      obtain ⟨nals, split, small, -⟩ := ih valid
      have size : (high ++ low).toNat ≠ 0 ∧ (high ++ low).toNat ≤ (header :: rest).length ∧
          validSingleNalHeader header = true := by
        simp only [not_or, not_lt, gt_iff_lt, Bool.not_eq_true, Bool.not_eq_false'] at bad
        exact bad
      have length : ((header :: rest).take (high ++ low).toNat).length = (high ++ low).toNat := by
        rw [List.length_take]
        omega
      refine ⟨(header :: rest).take (high ++ low).toNat :: nals, ?_, ?_, by simp⟩
      · rw [aggregate_cons, length, BitVec.ofNat_toNat, BitVec.setWidth_eq, u16Bytes_append, ← split,
          List.take_append_drop]
        rfl
      · intro nal member
        rcases List.mem_cons.mp member with rfl | later
        · refine ⟨?_, by rw [length]; exact (high ++ low).isLt⟩
          obtain ⟨less, shape⟩ := Nat.exists_eq_succ_of_ne_zero size.1
          exact ⟨header, rest.take less, by rw [shape, List.take_succ_cons], size.2.2⟩
        · exact small nal later

theorem validateStapA_aggregate {fuel nalCount : Nat} {nals : List (List Byte)}
    (small : ∀ nal ∈ nals, IsNal nal ∧ nal.length < 2 ^ 16) (some : nals = [] → nalCount ≠ 0)
    (enough : (aggregate nals).length ≤ fuel) :
    validateStapA fuel (aggregate nals) nalCount = true := by
  induction nals generalizing fuel nalCount with
  | nil => cases fuel <;> simpa [validateStapA, aggregate] using some
  | cons nal rest ih =>
    obtain ⟨⟨header, body, rfl, valid⟩, short⟩ := small nal List.mem_cons_self
    obtain ⟨high, low, field, size⟩ := size_of_u16Bytes short
    rw [aggregate_cons, field] at enough ⊢
    obtain ⟨fuel, rfl⟩ : ∃ left, fuel = left + 1 := ⟨fuel - 1, by
      simp only [List.length_append, List.length_cons] at enough
      omega⟩
    simp only [List.cons_append, List.nil_append]
    rw [validateStapA]
    simp only [size]
    rw [if_neg (by simp [valid]), ← List.cons_append, List.drop_left]
    refine ih (fun other member => small other (List.mem_cons_of_mem _ member)) (by simp) ?_
    simp only [List.length_append, List.length_cons] at enough
    omega

theorem appendStapA_aggregate {fuel : Nat} {output after : ReconstructedAccessUnit}
    {nals : List (List Byte)} (small : ∀ nal ∈ nals, IsNal nal ∧ nal.length < 2 ^ 16)
    (appended : appendStapA fuel output (aggregate nals) = .ok after) :
    after = nals.foldl pushNal output := by
  induction nals generalizing fuel output with
  | nil =>
    rw [aggregate, List.flatMap_nil] at appended
    unfold appendStapA at appended
    exact (Except.ok.inj appended).symm
  | cons nal rest ih =>
    obtain ⟨-, short⟩ := small nal List.mem_cons_self
    obtain ⟨high, low, field, size⟩ := size_of_u16Bytes short
    rw [aggregate_cons, field] at appended
    simp only [List.cons_append, List.nil_append] at appended
    cases fuel with
    | zero => simp [appendStapA] at appended
    | succ fuel =>
      rw [appendStapA] at appended
      simp only [size] at appended
      cases step : appendNal output (nal ++ aggregate rest) nal.length with
      | error fault =>
        rw [step] at appended
        cases appended
      | ok next =>
        rw [step, ok_bind, List.drop_left] at appended
        obtain ⟨-, -, pushed⟩ := appendNal_sound step
        rw [List.take_left] at pushed
        rw [List.foldl_cons, ← pushed]
        exact ih (fun other member => small other (List.mem_cons_of_mem _ member)) appended

theorem appendStapA_fits {fuel : Nat} {output : ReconstructedAccessUnit} {nals : List (List Byte)}
    (small : ∀ nal ∈ nals, IsNal nal ∧ nal.length < 2 ^ 16)
    (enough : (aggregate nals).length ≤ fuel)
    (room : output.bytes.length + (annexB nals).length ≤ kMaxAnnexBBytes) :
    appendStapA fuel output (aggregate nals) = .ok (nals.foldl pushNal output) := by
  induction nals generalizing fuel output with
  | nil =>
    rw [aggregate, List.flatMap_nil]
    unfold appendStapA
    rfl
  | cons nal rest ih =>
    obtain ⟨valid, short⟩ := small nal List.mem_cons_self
    obtain ⟨high, low, field, size⟩ := size_of_u16Bytes short
    rw [annexB, List.flatMap_cons, List.length_append, ← annexB] at room
    rw [aggregate_cons, field] at enough ⊢
    obtain ⟨fuel, rfl⟩ : ∃ left, fuel = left + 1 := ⟨fuel - 1, by
      simp only [List.length_append, List.length_cons] at enough
      omega⟩
    simp only [List.cons_append, List.nil_append]
    rw [appendStapA]
    simp only [size]
    rw [appendNal_fits (aggregate rest) valid.ne_nil (by omega), ok_bind, List.drop_left]
    refine ih (fun other member => small other (List.mem_cons_of_mem _ member)) ?_ ?_
    · simp only [List.length_append, List.length_cons] at enough
      omega
    · rw [pushNal]
      simp only [List.length_append] at room ⊢
      omega

/-! ## One payload -/

/-- The loop of `reconstruct` has taken the first bytes `begun` of a fragmented NAL unit. -/
def Open (r : Reconstruction) (begun : List Byte) : Prop :=
  (r.fuOpen = false ∧ begun = []) ∨
    (r.fuOpen = true ∧ begun = r.fuNal ∧
      ∃ bytes, begun = r.fuNalHeader :: bytes ∧ validSingleNalHeader r.fuNalHeader = true)

/-- What one payload adds, joined payloads and carried NAL units grow together. -/
structure Adds (r : Reconstruction) (begun payload : List Byte) (next : Reconstruction) : Prop where
  step : ∃ nals begun', Open next begun' ∧ next.output = nals.foldl pushNal r.output ∧
    ∀ payloads later, Carries begun' payloads later → Carries begun (payload :: payloads) (nals ++ later)

theorem bind_ok {α β ε : Type} {x : Except ε α} {f : α → Except ε β} {b : β}
    (bound : (x >>= f) = .ok b) : ∃ a, x = .ok a ∧ f a = .ok b := by
  cases x with
  | error fault => cases bound
  | ok a => exact ⟨a, rfl, bound⟩

theorem isSingleNal_ne {type : Byte} (single : isSingleNal type = true) : type ≠ kStapA ∧ type ≠ kFuA := by
  revert type
  decide

variable {r next : Reconstruction} {begun : List Byte}

theorem adds_single {header : Byte} {body : List Byte} (opened : Open r begun)
    (single : isSingleNal (nalType header) = true) (clear : header &&& 0x80 = 0)
    (appended : appendPayload r (header :: body) = .ok next) : Adds r begun (header :: body) next := by
  unfold appendPayload at appended
  dsimp only at appended
  rw [if_pos single] at appended
  split_ifs at appended with fu
  obtain ⟨output, pushed, same⟩ := bind_ok appended
  obtain rfl := Except.ok.inj same
  obtain ⟨-, -, rfl⟩ := appendNal_sound pushed
  obtain ⟨shut, rfl⟩ := opened.resolve_right fun other => fu other.1
  refine ⟨[header :: body], [], Or.inl ⟨shut, rfl⟩, by simp, fun payloads later rest => ?_⟩
  exact Carries.single (by rw [validSingleNalHeader, single, clear]; decide) rest

theorem adds_stapA {header : Byte} {body : List Byte} (opened : Open r begun)
    (type : nalType header = kStapA) (clear : header &&& 0x80 = 0)
    (valid : validateStapA body.length body 0 = true)
    (appended : appendPayload r (header :: body) = .ok next) : Adds r begun (header :: body) next := by
  obtain ⟨nals, rfl, small, some⟩ := validateStapA_sound valid
  unfold appendPayload at appended
  dsimp only at appended
  rw [if_neg (by rw [type]; decide), if_pos type] at appended
  split_ifs at appended with fu
  obtain ⟨output, pushed, same⟩ := bind_ok appended
  obtain rfl := Except.ok.inj same
  obtain rfl := appendStapA_aggregate small pushed
  obtain ⟨shut, rfl⟩ := opened.resolve_right fun other => fu other.1
  refine ⟨nals, [], Or.inl ⟨shut, rfl⟩, rfl, fun payloads later rest => ?_⟩
  exact Carries.stapA type clear (fun none => some none rfl) small rest

/-- Opening an FU-A leaves its NAL unit begun with its header. -/
theorem openFu_spec {starts : Bool} {header : Byte} (opened : Open r begun)
    (valid : validSingleNalHeader header = true) (taken : openFu r starts header = .ok next) :
    next.output = r.output ∧ next.fuOpen = true ∧ next.fuNalHeader = header ∧
      if starts then begun = [] ∧ next.fuNal = [header]
      else begun = next.fuNal ∧ ∃ bytes, begun = header :: bytes := by
  unfold openFu at taken
  split_ifs at taken with first fu other
  · obtain rfl := Except.ok.inj taken
    obtain ⟨-, rfl⟩ := opened.resolve_right fun open_ => fu open_.1
    simp [first]
  · obtain rfl := Except.ok.inj taken
    simp only [Bool.not_eq_true', not_or, Bool.not_eq_false, ne_eq, not_not] at other
    obtain ⟨fuOpen, rfl⟩ := other
    obtain ⟨-, same, bytes, shape, -⟩ := opened.resolve_left fun shut => by simp [fuOpen] at shut
    rw [if_neg first]
    exact ⟨rfl, fuOpen, rfl, same, bytes, shape⟩

theorem adds_fuA {indicator fu : Byte} {piece : List Byte} (opened : Open r begun)
    (type : nalType indicator = kFuA) (clear : indicator &&& 0x80 = 0)
    (reserved : fu &&& 0x20 = 0) (single : isSingleNal (nalType fu) = true)
    (once : (startsFu fu && endsFu fu) = false) (some : piece ≠ [])
    (appended : appendPayload r (indicator :: fu :: piece) = .ok next) :
    Adds r begun (indicator :: fu :: piece) next := by
  unfold appendPayload at appended
  dsimp only at appended
  rw [if_neg (by rw [type]; decide), if_neg (by rw [type]; decide),
    if_neg (not_not_intro type)] at appended
  obtain ⟨middle, taken, appended⟩ := bind_ok appended
  obtain ⟨header, spliced⟩ : ∃ header, (indicator &&& 0xe0) ||| nalType fu = header := ⟨_, rfl⟩
  obtain ⟨first, second, valid⟩ := fu_of_bytes type clear reserved single spliced
  rw [spliced] at taken
  obtain ⟨output, fuOpen, same, bytes⟩ := openFu_spec opened valid taken
  unfold appendFu at appended
  split_ifs at appended with large ends
  · -- the last fragment
    obtain ⟨pushed, stored, done⟩ := bind_ok appended
    obtain rfl := Except.ok.inj done
    obtain ⟨-, -, rfl⟩ := appendNal_sound stored
    have starts : startsFu fu = false := by simpa [ends] using once
    rw [starts] at bytes
    obtain ⟨rfl, rest, shape⟩ := bytes
    refine ⟨[middle.fuNal ++ piece], [], Or.inl ⟨rfl, rfl⟩, ?_, fun payloads later carried => ?_⟩
    · rw [List.take_length, output]
      rfl
    · rw [shape, first, second, starts, ends]
      exact Carries.fuLast valid some carried
  · obtain rfl := Except.ok.inj appended
    have last : endsFu fu = false := by simpa using ends
    cases starts : startsFu fu with
    | true =>
      rw [starts] at bytes
      obtain ⟨rfl, start⟩ := bytes
      refine ⟨[], header :: piece, Or.inr ⟨fuOpen, ?_, piece, ?_, ?_⟩, output, fun payloads later carried => ?_⟩
      · rw [start]
        rfl
      · rw [same]
      · rw [same]
        exact valid
      · rw [first, second, starts, last]
        exact Carries.fuFirst valid some carried
    | false =>
      rw [starts] at bytes
      obtain ⟨rfl, rest, shape⟩ := bytes
      refine ⟨[], middle.fuNal ++ piece, Or.inr ⟨fuOpen, rfl, rest ++ piece, ?_, ?_⟩, output,
        fun payloads later carried => ?_⟩
      · rw [shape, same]
        rfl
      · rw [same]
        exact valid
      · rw [shape] at carried ⊢
        rw [first, second, starts, last]
        exact Carries.fuMiddle valid some carried

theorem adds_of_appendPayload {payload : List Byte} (opened : Open r begun)
    (valid : validateH264Payload payload = true) (appended : appendPayload r payload = .ok next) :
    Adds r begun payload next := by
  cases payload with
  | nil => cases valid
  | cons header body =>
    unfold validateH264Payload at valid
    simp only at valid
    split_ifs at valid with set single stapA fuA
    · exact adds_single opened single (by simpa using set) appended
    · exact adds_stapA opened stapA (by simpa using set) valid appended
    · match body with
      | [] | [_] => cases valid
      | fu :: first :: rest =>
        simp only [Bool.and_eq_true, decide_eq_true_eq, Bool.not_eq_true'] at valid
        exact adds_fuA opened fuA (by simpa using set) valid.1.1 valid.1.2 valid.2 (by simp) appended

/-! ## A run of payloads -/

theorem foldlM_sound {payloads : List (List Byte)} {after : Reconstruction}
    (valid : ∀ payload ∈ payloads, validateH264Payload payload = true) (opened : Open r begun)
    (joined : payloads.foldlM appendPayload r = .ok after) (shut : after.fuOpen = false) :
    ∃ nals, Carries begun payloads nals ∧ after.output = nals.foldl pushNal r.output := by
  induction payloads generalizing r begun with
  | nil =>
    obtain rfl := Except.ok.inj joined
    obtain ⟨-, rfl⟩ := opened.resolve_right fun other => by simp [shut] at other
    exact ⟨[], .done, rfl⟩
  | cons payload rest ih =>
    rw [List.foldlM_cons] at joined
    obtain ⟨next, appended, joined⟩ := bind_ok joined
    obtain ⟨nals, begun', opened', output, carries⟩ :=
      (adds_of_appendPayload opened (valid payload List.mem_cons_self) appended).step
    obtain ⟨later, carried, same⟩ :=
      ih (fun other member => valid other (List.mem_cons_of_mem _ member)) opened' joined
    exact ⟨nals ++ later, carries rest later carried, by rw [same, output, List.foldl_append]⟩

/-- What `reconstruct` makes of validated payloads is what they carry. -/
theorem reconstruct_sound {payloads : List (List Byte)} {output : ReconstructedAccessUnit}
    (valid : ∀ payload ∈ payloads, validateH264Payload payload = true)
    (joined : reconstruct payloads = .ok output) :
    ∃ nals, Carries [] payloads nals ∧ output = join nals := by
  obtain ⟨after, folded, finished⟩ := bind_ok joined
  split_ifs at finished with bad
  · cases finished
  · obtain rfl := Except.ok.inj finished
    have shut : after.fuOpen = false := by simpa using fun fu => bad (Or.inl fu)
    exact foldlM_sound valid (Or.inl ⟨rfl, rfl⟩) folded shut

theorem Carries.length_begun {header : Byte} {bytes : List Byte} {payloads nals : List (List Byte)}
    (carries : Carries (header :: bytes) payloads nals) :
    (startCode ++ header :: bytes).length ≤ (annexB nals).length := by
  generalize shape : header :: bytes = begun at carries
  induction carries generalizing header bytes with
  | done | single | stapA | fuFirst => cases shape
  | fuMiddle valid some rest ih =>
    have longer := ih rfl
    simp only [List.length_append, List.length_cons] at longer ⊢
    omega
  | fuLast valid some rest =>
    rw [annexB, List.flatMap_cons]
    simp only [List.length_append, List.length_cons]
    omega

theorem openFu_carried {starts : Bool} {header : Byte} (valid : validSingleNalHeader header = true)
    (opened : Open r begun) (place : if starts then begun = [] else ∃ bytes, begun = header :: bytes) :
    ∃ middle, openFu r starts header = .ok middle ∧ middle.output = r.output ∧
      middle.fuOpen = true ∧ middle.fuNalHeader = header ∧
      middle.fuNal = if starts then [header] else begun := by
  unfold openFu
  cases starts with
  | true =>
    have shut : r.fuOpen = false := by
      rcases opened with ⟨shut, -⟩ | ⟨-, -, bytes, shape, -⟩
      · exact shut
      · cases place.symm.trans shape
    exact ⟨{ r with fuOpen := true, fuNalHeader := header, fuNal := [header] }, by simp [shut], rfl,
      rfl, rfl, rfl⟩
  | false =>
    obtain ⟨bytes, rfl⟩ : ∃ bytes, begun = header :: bytes := place
    obtain ⟨fuOpen, same, tail, shape, -⟩ := opened.resolve_left (by simp)
    obtain ⟨rfl, -⟩ := List.cons.inj shape
    exact ⟨r, by simp [fuOpen], rfl, fuOpen, rfl, same.symm⟩

theorem appendPayload_fuA (header : Byte) (starts ends : Bool) (piece : List Byte) :
    appendPayload r (fuIndicator header :: fuHeader header starts ends :: piece) =
      (openFu r starts header >>= fun r => appendFu r ends piece) := by
  unfold appendPayload
  dsimp only
  rw [nalType_fuIndicator, if_neg (by decide), if_neg (by decide), if_neg (by decide),
    startsFu_fuHeader, endsFu_fuHeader, nalType_fuHeader, splice_header]

/-- The loop takes every run of payloads whose NAL units fit. -/
theorem foldlM_fits {payloads nals : List (List Byte)} (carries : Carries begun payloads nals)
    (opened : Open r begun) (room : r.output.bytes.length + (annexB nals).length ≤ kMaxAnnexBBytes) :
    ∃ after, payloads.foldlM appendPayload r = .ok after ∧ after.fuOpen = false ∧
      after.output = nals.foldl pushNal r.output := by
  induction carries generalizing r with
  | done =>
    obtain ⟨shut, -⟩ := opened.resolve_right fun other => by
      obtain ⟨-, -, bytes, shape, -⟩ := other
      cases shape
    exact ⟨r, rfl, shut, rfl⟩
  | @single header body payloads nals valid rest ih =>
    obtain ⟨single, -⟩ := isSingleNal_of_valid valid
    obtain ⟨shut, -⟩ := opened.resolve_right fun other => by
      obtain ⟨-, -, bytes, shape, -⟩ := other
      cases shape
    rw [annexB, List.flatMap_cons, List.length_append, ← annexB] at room
    have taken : appendPayload r (header :: body) =
        .ok { r with output := pushNal r.output (header :: body) } := by
      unfold appendPayload
      dsimp only
      have fits := @appendNal_fits r.output _ [] (List.cons_ne_nil header body) (by omega)
      rw [List.append_nil] at fits
      rw [if_pos single, shut, if_neg (by decide), fits]
      rfl
    obtain ⟨after, folded, done, output⟩ := @ih { r with output := pushNal r.output (header :: body) }
      (Or.inl ⟨shut, rfl⟩) (by
        simp only [pushNal, List.length_append] at room ⊢
        omega)
    exact ⟨after, by rw [List.foldlM_cons, taken, ok_bind, folded], done, output⟩
  | @stapA header units payloads nals type clear some small rest ih =>
    obtain ⟨shut, -⟩ := opened.resolve_right fun other => by
      obtain ⟨-, -, bytes, shape, -⟩ := other
      cases shape
    rw [annexB, List.flatMap_append, List.length_append, ← annexB, ← annexB] at room
    have taken : appendPayload r (header :: aggregate units) =
        .ok { r with output := units.foldl pushNal r.output } := by
      unfold appendPayload
      dsimp only
      rw [type, if_neg (by decide), if_pos rfl, shut, if_neg (by decide),
        appendStapA_fits small le_rfl (by omega)]
      rfl
    obtain ⟨after, folded, done, output⟩ := @ih { r with output := units.foldl pushNal r.output }
      (Or.inl ⟨shut, rfl⟩) (by
        rw [bytes_foldl_pushNal, List.length_append]
        omega)
    exact ⟨after, by rw [List.foldlM_cons, taken, ok_bind, folded], done,
      by rw [output, List.foldl_append]⟩
  | @fuFirst header piece payloads nals valid some rest ih =>
    obtain ⟨middle, opens, output, fuOpen, same, bytes⟩ := @openFu_carried r [] true header valid opened rfl
    have long := rest.length_begun
    have taken : appendPayload r (fuIndicator header :: fuHeader header true false :: piece) =
        .ok { middle with fuNal := header :: piece } := by
      rw [appendPayload_fuA, opens, ok_bind, appendFu, bytes]
      simp only [List.length_append, List.length_cons] at long
      rw [subSize_of_le (by omega) (by decide),
        if_neg (by simp only [if_true, List.length_singleton]; omega)]
      rfl
    obtain ⟨after, folded, done, final⟩ := @ih { middle with fuNal := header :: piece }
      (Or.inr ⟨fuOpen, rfl, piece, by rw [← same], by rw [same]; exact valid⟩) (by rw [output]; exact room)
    exact ⟨after, by rw [List.foldlM_cons, taken, ok_bind, folded], done, by rw [final, output]⟩
  | @fuMiddle header bytes piece payloads nals valid some rest ih =>
    obtain ⟨middle, opens, output, fuOpen, same, stored⟩ :=
      @openFu_carried r _ false header valid opened ⟨bytes, rfl⟩
    have long : (startCode ++ header :: (bytes ++ piece)).length ≤ (annexB nals).length :=
      rest.length_begun
    have taken : appendPayload r (fuIndicator header :: fuHeader header false false :: piece) =
        .ok { middle with fuNal := header :: bytes ++ piece } := by
      rw [appendPayload_fuA, opens, ok_bind, appendFu, stored]
      simp only [List.length_append, List.length_cons] at long
      rw [subSize_of_le (by omega) (by decide),
        if_neg (by simp only [Bool.false_eq_true, if_false, List.length_cons]; omega)]
      rfl
    obtain ⟨after, folded, done, final⟩ := @ih { middle with fuNal := header :: bytes ++ piece }
      (Or.inr ⟨fuOpen, rfl, bytes ++ piece, by rw [← same]; rfl, by rw [same]; exact valid⟩)
      (by rw [output]; exact room)
    exact ⟨after, by rw [List.foldlM_cons, taken, ok_bind, folded], done, by rw [final, output]⟩
  | @fuLast header bytes piece payloads nals valid some rest ih =>
    obtain ⟨middle, opens, output, fuOpen, same, stored⟩ :=
      @openFu_carried r _ false header valid opened ⟨bytes, rfl⟩
    rw [annexB, List.flatMap_cons, List.length_append, ← annexB] at room
    have taken : appendPayload r (fuIndicator header :: fuHeader header false true :: piece) =
        .ok { middle with
          output := pushNal r.output (header :: bytes ++ piece), fuOpen := false, fuNal := [] } := by
      have fits := @appendNal_fits r.output (header :: bytes ++ piece) [] (by simp) (by omega)
      rw [List.append_nil] at fits
      rw [appendPayload_fuA, opens, ok_bind, appendFu, stored, output]
      simp only [List.length_append, List.length_cons] at room
      rw [subSize_of_le (by omega) (by decide),
        if_neg (by simp only [Bool.false_eq_true, if_false, List.length_cons]; omega), if_pos rfl]
      simp only [Bool.false_eq_true, if_false]
      rw [fits]
      rfl
    obtain ⟨after, folded, done, final⟩ := @ih { middle with
        output := pushNal r.output (header :: bytes ++ piece), fuOpen := false, fuNal := [] }
      (Or.inl ⟨rfl, rfl⟩) (by
        simp only [pushNal, List.length_append] at room ⊢
        omega)
    exact ⟨after, by rw [List.foldlM_cons, taken, ok_bind, folded], done, by rw [final]; rfl⟩

theorem annexB_ne_nil {payloads nals : List (List Byte)} (carries : Carries begun payloads nals)
    (some : payloads ≠ []) : annexB nals ≠ [] := by
  induction carries with
  | done => exact absurd rfl some
  | single | fuLast => simp [annexB, startCode]
  | @stapA header units payloads nals type clear present small rest ih =>
    obtain ⟨unit, units, rfl⟩ := List.exists_cons_of_ne_nil present
    simp [annexB, startCode]
  | fuFirst valid present rest ih | fuMiddle valid present rest ih =>
    refine ih fun none => ?_
    subst none
    cases rest

/-- `reconstruct` joins every run of payloads whose Annex-B bytes are within the bound. -/
theorem reconstruct_carried {payloads nals : List (List Byte)} (carries : Carries [] payloads nals)
    (some : payloads ≠ []) (room : (annexB nals).length ≤ kMaxAnnexBBytes) :
    reconstruct payloads = .ok (join nals) := by
  obtain ⟨after, folded, shut, output⟩ := @foldlM_fits {} [] payloads nals carries (Or.inl ⟨rfl, rfl⟩)
    (by simpa using room)
  rw [reconstruct, folded, ok_bind, shut, output, ← join]
  have present : (join nals).bytes ≠ [] := by
    rw [bytes_join]
    exact annexB_ne_nil carries some
  rw [if_neg (by simp [present])]
  rfl

/-! ## What a run carries is unique -/

theorem aggregate_injective {units others : List (List Byte)}
    (small : ∀ unit ∈ units, IsNal unit ∧ unit.length < 2 ^ 16)
    (smallOthers : ∀ unit ∈ others, IsNal unit ∧ unit.length < 2 ^ 16)
    (same : aggregate units = aggregate others) : units = others := by
  induction units generalizing others with
  | nil =>
    cases others with
    | nil => rfl
    | cons other rest =>
      rw [aggregate_cons] at same
      cases same
  | cons unit units ih =>
    cases others with
    | nil =>
      rw [aggregate_cons] at same
      cases same
    | cons other rest =>
      obtain ⟨high, low, field, size⟩ := size_of_u16Bytes (small unit List.mem_cons_self).2
      obtain ⟨high', low', field', size'⟩ := size_of_u16Bytes (smallOthers other List.mem_cons_self).2
      rw [aggregate_cons, aggregate_cons, field, field'] at same
      simp only [List.cons_append, List.nil_append, List.cons.injEq] at same
      obtain ⟨rfl, rfl, bytes⟩ := same
      obtain ⟨rfl, tail⟩ := List.append_inj bytes (size.symm.trans size')
      rw [ih (fun nal member => small nal (List.mem_cons_of_mem _ member))
        (fun nal member => smallOthers nal (List.mem_cons_of_mem _ member)) tail]

/-- How the first payload of a run settles the rest. -/
theorem Carries.unique {payloads nals others : List (List Byte)} (carries : Carries begun payloads nals)
    (also : Carries begun payloads others) : nals = others := by
  induction carries generalizing others with
  | done =>
    cases also
    rfl
  | @single header body payloads nals valid rest ih =>
    obtain ⟨single, -⟩ := isSingleNal_of_valid valid
    generalize shape : (header :: body) :: payloads = all at also
    cases also with
    | done => cases shape
    | single valid' rest' =>
      obtain ⟨heads, rfl⟩ := List.cons.inj shape
      rw [ih rest', heads]
    | stapA type clear present small rest' =>
      obtain ⟨heads, rfl⟩ := List.cons.inj shape
      obtain ⟨rfl, -⟩ := List.cons.inj heads
      exact absurd type (isSingleNal_ne single).1
    | fuFirst valid' present rest' =>
      obtain ⟨heads, rfl⟩ := List.cons.inj shape
      obtain ⟨rfl, -⟩ := List.cons.inj heads
      exact absurd (nalType_fuIndicator _) (isSingleNal_ne single).2
  | @stapA header units payloads nals type clear present small rest ih =>
    generalize shape : (header :: aggregate units) :: payloads = all at also
    cases also with
    | done => cases shape
    | single valid' rest' =>
      obtain ⟨heads, rfl⟩ := List.cons.inj shape
      obtain ⟨rfl, -⟩ := List.cons.inj heads
      exact absurd type (isSingleNal_ne (isSingleNal_of_valid valid').1).1
    | stapA type' clear' present' small' rest' =>
      obtain ⟨heads, rfl⟩ := List.cons.inj shape
      rw [aggregate_injective small small' (List.cons.inj heads).2, ih rest']
    | fuFirst valid' present' rest' =>
      obtain ⟨heads, rfl⟩ := List.cons.inj shape
      obtain ⟨rfl, -⟩ := List.cons.inj heads
      rw [nalType_fuIndicator] at type
      exact absurd type (by decide)
  | @fuFirst header piece payloads nals valid present rest ih =>
    generalize shape : (fuIndicator header :: fuHeader header true false :: piece) :: payloads = all at also
    cases also with
    | done => cases shape
    | single valid' rest' =>
      obtain ⟨heads, rfl⟩ := List.cons.inj shape
      obtain ⟨rfl, -⟩ := List.cons.inj heads
      exact absurd (nalType_fuIndicator _) (isSingleNal_ne (isSingleNal_of_valid valid').1).2
    | stapA type' clear' present' small' rest' =>
      obtain ⟨heads, rfl⟩ := List.cons.inj shape
      obtain ⟨rfl, -⟩ := List.cons.inj heads
      rw [nalType_fuIndicator] at type'
      exact absurd type' (by decide)
    | @fuFirst header' piece' payloads' nals' valid' present' rest' =>
      obtain ⟨heads, rfl⟩ := List.cons.inj shape
      simp only [List.cons.injEq] at heads
      obtain ⟨first, second, rfl⟩ := heads
      have same : header = header' := by
        rw [← splice_header header, first, ← nalType_fuHeader header true false, second,
          nalType_fuHeader, splice_header]
      rw [← same] at rest'
      exact ih rest'
  | @fuMiddle header bytes piece payloads nals valid present rest ih =>
    generalize shape : (fuIndicator header :: fuHeader header false false :: piece) :: payloads = all at also
    cases also with
    | fuMiddle valid' present' rest' =>
      obtain ⟨heads, rfl⟩ := List.cons.inj shape
      simp only [List.cons.injEq] at heads
      obtain ⟨-, -, rfl⟩ := heads
      exact ih rest'
    | fuLast valid' present' rest' =>
      obtain ⟨heads, rfl⟩ := List.cons.inj shape
      simp only [List.cons.injEq] at heads
      have ends := congrArg endsFu heads.2.1
      rw [endsFu_fuHeader, endsFu_fuHeader] at ends
      cases ends
  | @fuLast header bytes piece payloads nals valid present rest ih =>
    generalize shape : (fuIndicator header :: fuHeader header false true :: piece) :: payloads = all at also
    cases also with
    | fuMiddle valid' present' rest' =>
      obtain ⟨heads, rfl⟩ := List.cons.inj shape
      simp only [List.cons.injEq] at heads
      have ends := congrArg endsFu heads.2.1
      rw [endsFu_fuHeader, endsFu_fuHeader] at ends
      cases ends
    | fuLast valid' present' rest' =>
      obtain ⟨heads, rfl⟩ := List.cons.inj shape
      simp only [List.cons.injEq] at heads
      obtain ⟨-, -, rfl⟩ := heads
      rw [ih rest']

/-- The receiver accepts every payload of such a run. -/
theorem Carries.validates {payloads nals : List (List Byte)} (carries : Carries begun payloads nals) :
    ∀ payload ∈ payloads, validateH264Payload payload = true := by
  have fragment : ∀ {header : Byte} {piece : List Byte} (starts ends : Bool),
      validSingleNalHeader header = true → piece ≠ [] → (starts && ends) = false →
      validateH264Payload (fuIndicator header :: fuHeader header starts ends :: piece) = true := by
    intro header piece starts ends valid present once
    obtain ⟨first, rest, rfl⟩ := List.exists_cons_of_ne_nil present
    unfold validateH264Payload
    dsimp only
    rw [if_neg (not_not.mpr (fuIndicator_clear header valid)), nalType_fuIndicator, if_neg (by decide),
      if_neg (by decide), if_pos rfl, fuHeader_reserved, nalType_fuHeader, startsFu_fuHeader,
      endsFu_fuHeader, (isSingleNal_of_valid valid).1, once]
    decide
  induction carries with
  | done => simp
  | @single header body payloads nals valid rest ih =>
    intro payload member
    rcases List.mem_cons.mp member with rfl | later
    · obtain ⟨single, clear⟩ := isSingleNal_of_valid valid
      unfold validateH264Payload
      dsimp only
      rw [if_neg (not_not.mpr clear), if_pos single]
    · exact ih payload later
  | @stapA header units payloads nals type clear present small rest ih =>
    intro payload member
    rcases List.mem_cons.mp member with rfl | later
    · unfold validateH264Payload
      dsimp only
      rw [if_neg (not_not.mpr clear), type, if_neg (by decide), if_pos rfl]
      exact validateStapA_aggregate small (fun none => absurd none present) le_rfl
    · exact ih payload later
  | fuFirst valid present rest ih =>
    intro payload member
    rcases List.mem_cons.mp member with rfl | later
    · exact fragment true false valid present rfl
    · exact ih payload later
  | fuMiddle valid present rest ih =>
    intro payload member
    rcases List.mem_cons.mp member with rfl | later
    · exact fragment false false valid present rfl
    · exact ih payload later
  | fuLast valid present rest ih =>
    intro payload member
    rcases List.mem_cons.mp member with rfl | later
    · exact fragment false true valid present rfl
    · exact ih payload later

/-- The first payload of a run begins a NAL unit. -/
theorem Carries.starts {payload : List Byte} {payloads nals : List (List Byte)}
    (carries : Carries [] (payload :: payloads) nals) : startsNal payload = true := by
  cases carries with
  | single valid rest =>
    unfold startsNal
    dsimp only
    rw [(isSingleNal_of_valid valid).1]
    rfl
  | stapA type clear present small rest =>
    unfold startsNal
    dsimp only
    rw [type]
    rfl
  | fuFirst valid present rest =>
    unfold startsNal
    dsimp only
    rw [nalType_fuIndicator, List.head?_cons, Option.any_some, startsFu_fuHeader]
    rfl

end Mello.Transport.H264Packetization
