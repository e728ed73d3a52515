import Mello.Library.BinarySearch
import Mello.Library.Leb128

/-!
The index from Steam appids to IGDB ids: the build script's packer, and the client's reader. In the file each appid is
the difference from the one before it, and both numbers of a pair are varints.
-/

namespace Mello.Core.AppIds
open Mello.Library LittleEndian

/-- `MAI2`. -/
def MAGIC_INDEX : List Byte := [0x4D, 0x41, 0x49, 0x32]

/-- (steam_appid u32, igdb_id u32) -/
def INDEX_PAIR_LEN : ℕ := 8

def INDEX_HEADER_LEN : ℕ := 8

/-! ## The reader -/

/-- The loop of `read_varint` on the bytes from its position on. The shift drops the bits past the 32nd. -/
def readVarintFrom (value : BitVec 32) (shift : ℕ) : List Byte → Option (BitVec 32 × List Byte)
  | [] => none
  | byte :: rest =>
    if 28 < shift then none
    else
      let value := value ||| (byte &&& 0x7F).setWidth 32 <<< shift
      if byte &&& 0x80 = 0 then some (value, rest) else readVarintFrom value (shift + 7) rest

/-- Read one LEB128 varint, returning its value and the bytes after it. -/
def readVarint (bytes : List Byte) : Option (BitVec 32 × List Byte) := readVarintFrom 0 0 bytes

def u32At (bytes : List Byte) (off : ℕ) : Option (BitVec 32) :=
  if off + 4 ≤ bytes.length then some (word 4 (bytes.drop off)) else none

def checkedAdd (a b : BitVec 32) : Option (BitVec 32) := if a.toNat + b.toNat < 2 ^ 32 then some (a + b) else none

structure AppIdIndex where
  bytes : List Byte
  count : ℕ
  deriving DecidableEq, Repr

namespace AppIdIndex

/-- The loop of `parse`, `count` rounds of it. -/
def readPairs : ℕ → BitVec 32 → List Byte → Option (List Byte)
  | 0, _, _ => some []
  | count + 1, appid, bytes => do
    let (delta, next) ← readVarint bytes
    let (igdbId, next) ← readVarint next
    let appid ← checkedAdd appid delta
    let flat ← readPairs count appid next
    return wordBytes 4 appid ++ wordBytes 4 igdbId ++ flat

/-- Parse the delta-encoded index into the flat, binary-searchable form. -/
def parse (bytes : List Byte) : Option AppIdIndex :=
  if bytes.length < INDEX_HEADER_LEN ∨ bytes.take 4 ≠ MAGIC_INDEX then none
  else do
    let count ← u32At bytes 4
    let flat ← readPairs count.toNat 0 (bytes.drop INDEX_HEADER_LEN)
    return { bytes := flat, count := count.toNat }

variable (index : AppIdIndex)

/-- Resolve a Steam appid to its IGDB id. -/
def igdbId (appid : BitVec 32) : Option (BitVec 32) :=
  (BinarySearch.search (fun mid => (u32At index.bytes (mid * INDEX_PAIR_LEN)).map BitVec.toNat) appid.toNat 0 index.count).bind
    fun mid => u32At index.bytes (mid * INDEX_PAIR_LEN + 4)

/-- Every Steam appid that maps to an IGDB id. -/
def appidsForIgdb (igdbId : BitVec 32) : List (BitVec 32) :=
  (List.range index.count).filterMap fun i => do
    let id ← u32At index.bytes (i * INDEX_PAIR_LEN + 4)
    if id = igdbId then u32At index.bytes (i * INDEX_PAIR_LEN) else none

end AppIdIndex

/-! ## The packer -/

/-- LEB128-style unsigned varint. -/
def varint (n : ℕ) : List Byte :=
  let byte := n &&& 0x7F
  let n' := n >>> 7
  if n' = 0 then [BitVec.ofNat 8 byte] else BitVec.ofNat 8 (byte ||| 0x80) :: varint n'
termination_by n
decreasing_by
  have := Nat.shiftRight_eq_div_pow n 7
  omega

/-- The loop over the sorted pairs. -/
def pairsBody (prev : ℕ) : List (ℕ × ℕ) → List Byte
  | [] => []
  | (appid, gid) :: rest => varint (appid - prev) ++ varint gid ++ pairsBody appid rest

/-- The order of Python's tuples. -/
def tupleLe (p q : ℕ × ℕ) : Bool := p.1 < q.1 ∨ p.1 = q.1 ∧ p.2 ≤ q.2

/-- The bytes of the index of a map of appids to ids. The count does not fit `<I` from 2³² entries on, an error. -/
def buildAppidIndex (steam : List (ℕ × ℕ)) : Option (List Byte) :=
  let pairs := steam.mergeSort tupleLe
  if pairs.length < 2 ^ 32 then some (MAGIC_INDEX ++ wordBytes 4 (BitVec.ofNat 32 pairs.length) ++ pairsBody 0 pairs) else none

end Mello.Core.AppIds
