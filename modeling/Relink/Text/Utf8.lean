/-!
# Texts as bytes

Files hold bytes and settings hold texts; the two meet in UTF-8. A document is a
list of bytes here, so that a reader can take it apart from the front, and the
encoding is core's, character by character.

`decode_encode` says that every text survives the way through its bytes, and
`eq_encode_of_decode` that no other bytes lead to it: overlong forms, encoded
surrogates and code points past U+10FFFF decode to nothing.
-/

namespace Relink

/-- A document before its bytes are read as characters. -/
abbrev Bytes := List UInt8

namespace Text

/-- The bytes of a text in UTF-8. -/
def encode (s : String) : Bytes := s.toList.flatMap String.utf8EncodeChar

/-- The text that the bytes encode, if they are valid UTF-8. -/
def decode (bs : Bytes) : Option String := String.fromUTF8? bs.toByteArray

theorem toByteArray_encode (s : String) : (encode s).toByteArray = s.toByteArray := by
  have h : (s.toList.flatMap String.utf8EncodeChar).toByteArray = s.toList.utf8Encode :=
    (List.utf8Encode.eq_1 s.toList).symm
  rw [encode, h, ← String.toByteArray_ofList, String.ofList_toList]

theorem decode_encode (s : String) : decode (encode s) = some s := by
  rw [decode, toByteArray_encode, String.fromUTF8?, dif_pos s.isValidUTF8]
  rfl

theorem toByteArray_of_decode {bs : Bytes} {s : String} (h : decode bs = some s) :
    bs.toByteArray = s.toByteArray := by
  rw [decode, String.fromUTF8?] at h
  split at h
  · simp only [Option.some.injEq] at h
    rw [← h]
    rfl
  · cases h

theorem eq_encode_of_decode {bs : Bytes} {s : String} (h : decode bs = some s) :
    bs = encode s := by
  have h' : bs.toByteArray = (encode s).toByteArray :=
    (toByteArray_of_decode h).trans (toByteArray_encode s).symm
  have hd := congrArg (fun b : ByteArray => b.data.toList) h'
  simpa using hd

end Text

end Relink
