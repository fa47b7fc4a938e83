import Relink.Text.Utf8

/-!
# Bytes that are no text

Where bytes have to be shown and need not be UTF-8, what is no character is shown as
U+FFFD. The bytes are taken piece by piece: a piece is an encoded character, or it is
the beginning of one that does not go on, as far as it could have been one, or else a
single byte.

Nothing is lost of a text (`Text.decodeLossy_encode`).
-/

namespace Relink

namespace Text

/-- The character that the bytes begin with, if there is one. -/
def first? (bs : Bytes) : Option Char := (bs.take 4).toByteArray.utf8DecodeChar? 0

/-- The second byte of a character of three or four bytes may be this one, after the
first. Others would make it overlong, a surrogate or too large. -/
def continues (b c : UInt8) : Bool :=
  if b = 0xe0 then 0xa0 ≤ c && c ≤ 0xbf
  else if b = 0xed then 0x80 ≤ c && c ≤ 0x9f
  else if b = 0xf0 then 0x90 ≤ c && c ≤ 0xbf
  else if b = 0xf4 then 0x80 ≤ c && c ≤ 0x8f
  else 0xe1 ≤ b && b ≤ 0xf3 && 0x80 ≤ c && c ≤ 0xbf

/-- How many bytes after the first belong to a character that is begun and not ended. -/
def begun : Bytes → Nat
  | b :: c :: bs =>
    if continues b c then
      match bs with
      | d :: _ => if 0xf0 ≤ b && 0x80 ≤ d && d ≤ 0xbf then 2 else 1
      | [] => 1
    else 0
  | _ => 0

/-- What the first piece is shown as, and how many bytes after the first belong to it. -/
def piece (bs : Bytes) : Char × Nat :=
  match first? bs with
  | some c => (c, c.utf8Size - 1)
  | none => ('\uFFFD', begun bs)

/-- What bytes are shown as when the first of them have been dealt with. -/
def lossyAfter : Nat → Bytes → List Char
  | _, [] => []
  | 0, b :: bs => (piece (b :: bs)).1 :: lossyAfter (piece (b :: bs)).2 bs
  | n + 1, _ :: bs => lossyAfter n bs

/-- What bytes are shown as. -/
def decodeLossy (bs : Bytes) : String := String.ofList (lossyAfter 0 bs)

/-- A continuation without a beginning, and a beginning without an end. -/
example : decodeLossy [0x80, 0x61, 0xe2, 0x82, 0x62, 0xed, 0xa0] =
    "\uFFFDa\uFFFDb\uFFFD\uFFFD" := by decide

theorem first?_encodeChar_append (c : Char) (bs : Bytes) :
    first? (String.utf8EncodeChar c ++ bs) = some c := by
  have htake : (String.utf8EncodeChar c).take 4 = String.utf8EncodeChar c :=
    List.take_of_length_le (by simpa using c.utf8Size_le_four)
  rw [first?, List.take_append, htake, List.toByteArray_append]
  exact ByteArray.utf8DecodeChar?_utf8EncodeChar_append

theorem lossyAfter_length_append (as bs : Bytes) :
    lossyAfter as.length (as ++ bs) = lossyAfter 0 bs := by
  induction as with
  | nil => rfl
  | cons a as ih => exact ih

/-- A character is one piece, whatever follows it. -/
theorem lossyAfter_encodeChar_append (c : Char) (bs : Bytes) :
    lossyAfter 0 (String.utf8EncodeChar c ++ bs) = c :: lossyAfter 0 bs := by
  have hfirst := first?_encodeChar_append c bs
  have hsize := String.length_utf8EncodeChar c
  cases he : String.utf8EncodeChar c with
  | nil =>
    rw [he, List.length_nil] at hsize
    exact absurd hsize (Nat.ne_of_lt c.utf8Size_pos)
  | cons b as =>
    rw [he] at hfirst hsize
    have hpiece : piece (b :: (as ++ bs)) = (c, as.length) := by
      rw [piece, ← List.cons_append, hfirst]
      simp only [← hsize, List.length_cons, Nat.add_sub_cancel]
    rw [List.cons_append, lossyAfter, hpiece, lossyAfter_length_append]

/-- **A text is shown as it is.** -/
theorem decodeLossy_encode (s : String) : decodeLossy (encode s) = s := by
  have h (cs : List Char) : lossyAfter 0 (cs.flatMap String.utf8EncodeChar) = cs := by
    induction cs with
    | nil => rfl
    | cons c cs ih => rw [List.flatMap_cons, lossyAfter_encodeChar_append, ih]
  rw [decodeLossy, encode, h, String.ofList_toList]

end Text

end Relink
