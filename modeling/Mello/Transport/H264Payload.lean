import Mello.Transport.Twcc

/-!
H.264 in RTP payloads: single NAL units, STAP-A aggregates and FU-A fragments.
The receiver validates each payload as it arrives and joins the payloads of an
access unit to Annex-B bytes when all of them are there. A read outside a
payload is a fault here; on validated payloads there is none.
-/

namespace Mello.Transport.H264Payload
open Twcc

def kSei : Byte := 6
def kStapA : Byte := 24
def kFuA : Byte := 28
def kIdr : Byte := 5
def kNonIdrSlice : Byte := 1
def kSps : Byte := 7
def kPps : Byte := 8
def kAud : Byte := 9
def kMaxAnnexBBytes : Nat := 4 * 1024 * 1024
def kMaxPayloadBytes : Nat := 64 * 1024

def nalType (header : Byte) : Byte := header &&& 0x1f

def isSingleNal (type : Byte) : Bool := 1 ≤ type && type ≤ 23

def startsFu (fuHeader : Byte) : Bool := fuHeader &&& 0x80 ≠ 0

def endsFu (fuHeader : Byte) : Bool := fuHeader &&& 0x40 ≠ 0

/-! ## The validator -/

def validSingleNalHeader (header : Byte) : Bool :=
  header &&& 0x80 = 0 && isSingleNal (nalType header)

/-- The walk over a STAP-A behind its header byte. Each NAL unit takes at least
three bytes, so the length is enough fuel. -/
def validateStapA : Nat → List Byte → Nat → Bool
  | _, [], nalCount => nalCount ≠ 0
  | fuel + 1, high :: low :: header :: rest, nalCount =>
    let nalSize := (high ++ low).toNat
    if nalSize = 0 ∨ nalSize > (header :: rest).length ∨ !validSingleNalHeader header then false
    else validateStapA fuel ((header :: rest).drop nalSize) (nalCount + 1)
  | _, _, _ => false

def validateH264Payload (payload : List Byte) : Bool :=
  match payload with
  | [] => false
  | header :: body =>
    if header &&& 0x80 ≠ 0 then false
    else if isSingleNal (nalType header) then true
    else if nalType header = kStapA then validateStapA body.length body 0
    else if nalType header = kFuA then
      match body with
      | fuHeader :: _ :: _ =>
        fuHeader &&& 0x20 = 0 && isSingleNal (nalType fuHeader) && !(startsFu fuHeader && endsFu fuHeader)
      | _ => false
    else false

/-! ## What a payload begins with -/

/-- A NAL unit that can only open an access unit. The first bit of a slice says
whether it starts at macroblock 0. -/
def nalStartsAccessUnit (type : Byte) (body : List Byte) : Bool :=
  if type = kAud ∨ type = kSps ∨ type = kSei then true
  else if type = kIdr ∨ type = kNonIdrSlice then
    match body with
    | [] => false
    | first :: _ => first &&& 0x80 ≠ 0
  else false

/-- A payload that begins a NAL unit: not the middle or end of an FU-A. -/
def startsNal (payload : List Byte) : Bool :=
  match payload with
  | [] => false
  | header :: body =>
    isSingleNal (nalType header) || nalType header == kStapA ||
      (nalType header == kFuA && body.head?.any startsFu)

def h264PayloadStartsAccessUnit (payload : List Byte) : Bool :=
  match payload with
  | [] => false
  | header :: body =>
    if isSingleNal (nalType header) then nalStartsAccessUnit (nalType header) body
    else if nalType header = kStapA then
      match body with
      | high :: low :: first :: rest =>
        let nalSize := (high ++ low).toNat
        if nalSize = 0 ∨ nalSize > (first :: rest).length then false
        else nalStartsAccessUnit (nalType first) (rest.take (nalSize - 1))
      | _ => false
    else if nalType header = kFuA then
      match body with
      | fuHeader :: piece =>
        if piece = [] ∨ !startsFu fuHeader then false
        else nalStartsAccessUnit (nalType fuHeader) piece
      | [] => false
    else false

/-! ## Joining the payloads -/

structure ReconstructedAccessUnit where
  bytes : List Byte := []
  hasIdr : Bool := false
  hasSps : Bool := false
  hasPps : Bool := false
  deriving DecidableEq, Repr

def startCode : List Byte := [0, 0, 0, 1]

/-- Appends the first `nalSize` bytes of `nal` behind a start code. -/
def appendNal (output : ReconstructedAccessUnit) (nal : List Byte) (nalSize : Nat) :
    Except ParseFault ReconstructedAccessUnit :=
  if nalSize = 0 ∨ nalSize > kMaxAnnexBBytes - startCode.length ∨
      output.bytes.length > kMaxAnnexBBytes - startCode.length - nalSize then .error .rejected
  else
    match nal with
    | [] => .error .outOfBounds
    | header :: _ =>
      if nal.length < nalSize then .error .outOfBounds
      else .ok {
        bytes := output.bytes ++ startCode ++ nal.take nalSize
        hasIdr := output.hasIdr || nalType header == kIdr
        hasSps := output.hasSps || nalType header == kSps
        hasPps := output.hasPps || nalType header == kPps }

/-- Appends the NAL units of a STAP-A. Each step takes at least two bytes, so
the length is enough fuel. -/
def appendStapA : Nat → ReconstructedAccessUnit → List Byte →
    Except ParseFault ReconstructedAccessUnit
  | _, output, [] => .ok output
  | fuel + 1, output, high :: low :: rest => do
    let nalSize := (high ++ low).toNat
    let output ← appendNal output rest nalSize
    appendStapA fuel output (rest.drop nalSize)
  | 0, _, _ :: _ => .error .outOfFuel
  | _, _, [_] => .error .outOfBounds

/-- The locals of the loop in `reconstruct`. -/
structure Reconstruction where
  output : ReconstructedAccessUnit := {}
  fuOpen : Bool := false
  fuNalHeader : Byte := 0
  fuNal : List Byte := []
  deriving DecidableEq, Repr

/-- An FU-A opens a NAL unit, or goes on with the one that is open. -/
def openFu (r : Reconstruction) (starts : Bool) (header : Byte) : Except ParseFault Reconstruction :=
  if starts then
    if r.fuOpen then .error .rejected
    else .ok { r with fuOpen := true, fuNalHeader := header, fuNal := [header] }
  else if !r.fuOpen ∨ header ≠ r.fuNalHeader then .error .rejected
  else .ok r

/-- Subtraction of sizes, which wraps. -/
def subSize (a b : Nat) : Nat := (BitVec.ofNat 64 a - BitVec.ofNat 64 b).toNat

theorem subSize_of_le {a b : Nat} (less : b ≤ a) (small : a < 2 ^ 64) : subSize a b = a - b := by
  rw [subSize, BitVec.toNat_sub, BitVec.toNat_ofNat, BitVec.toNat_ofNat,
    Nat.mod_eq_of_lt small, Nat.mod_eq_of_lt (Nat.lt_of_le_of_lt less small)]
  omega

def appendFu (r : Reconstruction) (ends : Bool) (piece : List Byte) : Except ParseFault Reconstruction :=
  if r.fuNal.length > subSize kMaxAnnexBBytes piece.length then .error .rejected
  else if ends then do
    let output ← appendNal r.output (r.fuNal ++ piece) (r.fuNal ++ piece).length
    return { r with output := output, fuOpen := false, fuNal := [] }
  else .ok { r with fuNal := r.fuNal ++ piece }

/-- One pass of the loop in `reconstruct`. -/
def appendPayload (r : Reconstruction) (payload : List Byte) : Except ParseFault Reconstruction :=
  match payload with
  | [] => .error .outOfBounds
  | header :: body =>
    if isSingleNal (nalType header) then
      if r.fuOpen then .error .rejected
      else do
        let output ← appendNal r.output payload payload.length
        return { r with output := output }
    else if nalType header = kStapA then
      if r.fuOpen then .error .rejected
      else do
        let output ← appendStapA body.length r.output body
        return { r with output := output }
    else if nalType header ≠ kFuA then .error .rejected
    else
      match body with
      | [] => .error .outOfBounds
      | fuHeader :: piece => do
        let r ← openFu r (startsFu fuHeader) ((header &&& 0xe0) ||| nalType fuHeader)
        appendFu r (endsFu fuHeader) piece

def reconstruct (payloads : List (List Byte)) : Except ParseFault ReconstructedAccessUnit := do
  let r ← payloads.foldlM appendPayload {}
  if r.fuOpen ∨ r.output.bytes = [] then throw .rejected
  return r.output

end Mello.Transport.H264Payload
