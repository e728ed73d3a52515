import Mello.Transport.Twcc

/-!
The sender's look at one Annex-B H.264 access unit: NAL units behind start
codes, at least one of them with picture data.
-/

namespace Mello.Transport.AnnexB
open Twcc

/-- The size of the start code at the front, 0 for none. -/
def startCodeSizeAt : List Byte → Nat
  | 0 :: 0 :: 0 :: 1 :: _ => 4
  | 0 :: 0 :: 1 :: _ => 3
  | _ => 0

def isVclNalType (nalType : Byte) : Bool :=
  (1 ≤ nalType && nalType ≤ 5) || nalType == 19 || nalType == 20 || nalType == 21

structure AccessUnitInfo where
  valid : Bool := false
  isIdr : Bool := false
  deriving DecidableEq, Repr

/-- What is left from the next start code on. -/
def nextStart : List Byte → List Byte
  | [] => []
  | byte :: rest => if startCodeSizeAt (byte :: rest) ≠ 0 then byte :: rest else nextStart rest

/-- `rest` begins with a start code. Each NAL unit takes at least a byte, so the
length is enough fuel. -/
def inspectFrom : Nat → List Byte → Bool → Bool → AccessUnitInfo
  | 0, _, _, _ => {}
  | fuel + 1, rest, hasVclNal, hasIdrNal =>
    match rest.drop (startCodeSizeAt rest) with
    | [] => {}
    | header :: tail =>
      if header &&& 0x80 ≠ 0 then {}
      else
        let nalType := header &&& 0x1f
        let hasVclNal := hasVclNal || isVclNalType nalType
        let hasIdrNal := hasIdrNal || nalType == 5
        if startCodeSizeAt (header :: tail) ≠ 0 then {}
        else
          match nextStart tail with
          | [] => ⟨hasVclNal, hasIdrNal⟩
          | next => inspectFrom fuel next hasVclNal hasIdrNal

def inspectAnnexBAccessUnit (data : List Byte) : AccessUnitInfo :=
  if data.length < 4 ∨ startCodeSizeAt data = 0 then {}
  else inspectFrom data.length data false false

end Mello.Transport.AnnexB
