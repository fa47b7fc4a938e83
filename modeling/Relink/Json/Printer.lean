import Relink.Json.Reader

/-!
# Printing JSON

A value is printed without blanks, as bytes. Of the characters of a text only those
are escaped that have to be: the quote, the backslash and the control characters.
A decimal is printed as it is kept, its significand with an exponent, so that it is
read back as the same decimal and never as an integer.

Like the printer of markup, this one puts a value in front of the bytes that follow
it. Nothing is asked of the members of an object: if a name comes twice, it is
printed twice.
-/

namespace Relink

namespace Json

/-- The hexadecimal digit of a number below sixteen. -/
def hexByte (n : Nat) : UInt8 := if n < 10 then UInt8.ofNat (48 + n) else UInt8.ofNat (87 + n)

/-- A character of a text as it is printed. -/
def printChar (c : Char) : Bytes :=
  if c = '"' ∨ c = '\\' then [byte '\\', byte c]
  else if c.toNat < 0x20 then
    [byte '\\', byte 'u', byte '0', byte '0', hexByte (c.toNat / 16), hexByte (c.toNat % 16)]
  else String.utf8EncodeChar c

/-- A text in its quotes, in front of the bytes that follow it. -/
def printText (s : String) (rest : Bytes) : Bytes :=
  byte '"' :: (s.toList.flatMap printChar ++ byte '"' :: rest)

/-- A natural number in ten. -/
def printNat (n : Nat) : Bytes := (Decimal.digitsOf n).map byte

/-- A minus sign, if there is to be one. -/
def printMinus (negative : Bool) : Bytes := if negative then [byte '-'] else []

/-- An integer. -/
def printInt (i : Int) : Bytes := printMinus (i < 0) ++ printNat i.natAbs

/-- A number. -/
def Number.print : Number → Bytes
  | .integer i => printInt i
  | .decimal negative significand exponent =>
    printMinus negative ++ printNat significand ++ byte 'e' :: printInt exponent

/-- The bytes of a word. -/
def word (s : String) : Bytes := s.toList.map byte

mutual

/-- A value in front of the bytes that follow it. -/
def print : Json → Bytes → Bytes
  | .null, rest => word "null" ++ rest
  | .boolean true, rest => word "true" ++ rest
  | .boolean false, rest => word "false" ++ rest
  | .number n, rest => n.print ++ rest
  | .string s, rest => printText s rest
  | .array [], rest => byte '[' :: byte ']' :: rest
  | .array (v :: vs), rest => byte '[' :: print v (printItems vs rest)
  | .object [], rest => byte '\x7b' :: byte '\x7d' :: rest
  | .object ((name, v) :: ms), rest =>
    byte '\x7b' :: printText name (byte ':' :: print v (printMembers ms rest))

/-- The items of an array that come after an item, and its end. -/
def printItems : List Json → Bytes → Bytes
  | [], rest => byte ']' :: rest
  | v :: vs, rest => byte ',' :: print v (printItems vs rest)

/-- The members of an object that come after a member, and its end. -/
def printMembers : List (String × Json) → Bytes → Bytes
  | [], rest => byte '\x7d' :: rest
  | (name, v) :: ms, rest =>
    byte ',' :: printText name (byte ':' :: print v (printMembers ms rest))

end

/-- The document that consists of a value. -/
def toBytes (v : Json) : Bytes := print v []

end Json

end Relink
