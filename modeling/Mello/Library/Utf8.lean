import Mello.Library.LittleEndian
import Mello.Library.Texts

/-!
The UTF-8 bytes of a text, and the text of bytes that are valid UTF-8.
-/

namespace Mello.Library.Utf8
open LittleEndian Texts

def encode (text : List Char) : List Byte := (text.flatMap String.utf8EncodeChar).map UInt8.toBitVec

/-- The text of bytes that are valid UTF-8. -/
def decode (bytes : List Byte) : Option (List Char) := ((bytes.map UInt8.ofBitVec).toByteArray.utf8Decode?).map Array.toList

theorem encode_append (front back : List Char) : encode (front ++ back) = encode front ++ encode back := by
  unfold encode
  rw [List.flatMap_append, List.map_append]

theorem length_encode (text : List Char) : (encode text).length = size text := by
  induction text with
  | nil => rfl
  | cons c rest ih =>
    have here : (encode [c]).length = c.utf8Size := by
      unfold encode
      rw [List.length_map, List.flatMap_cons, List.flatMap_nil, List.append_nil, String.length_utf8EncodeChar]
    rw [← List.singleton_append, encode_append, List.length_append, here, ih, size_append]
    rfl

theorem map_toBitVec_ofBitVec (bytes : List Byte) : (bytes.map UInt8.ofBitVec).map UInt8.toBitVec = bytes := by
  rw [List.map_map]
  exact List.map_id bytes

theorem map_ofBitVec_toBitVec (bytes : List UInt8) : (bytes.map UInt8.toBitVec).map UInt8.ofBitVec = bytes := by
  rw [List.map_map]
  exact List.map_id bytes

theorem decode_encode (text : List Char) : decode (encode text) = some text := by
  unfold decode encode
  rw [map_ofBitVec_toBitVec]
  change (text.utf8Encode.utf8Decode?).map _ = _
  rw [List.utf8Decode?_utf8Encode, Option.map_some]

/-- Only the bytes of a text are decoded to it. -/
theorem encode_of_decode {bytes : List Byte} {text : List Char} (decoded : decode bytes = some text) : encode text = bytes := by
  obtain ⟨chars, valid, rfl⟩ := Option.map_eq_some_iff.mp decoded
  have some' : ((bytes.map UInt8.ofBitVec).toByteArray.utf8Decode?).isSome = true := Option.isSome_iff_exists.mpr ⟨chars, valid⟩
  have whole := @ByteArray.utf8Encode_get_utf8Decode? (bytes.map UInt8.ofBitVec).toByteArray some'
  rw [Option.get_of_eq_some some' valid] at whole
  have lists := congrArg (fun b => b.data.toList) whole
  change (List.toByteArray _).data.toList = _ at lists
  rw [List.toList_data_toByteArray, List.toList_data_toByteArray] at lists
  unfold encode
  rw [lists, map_toBitVec_ofBitVec]

end Mello.Library.Utf8
