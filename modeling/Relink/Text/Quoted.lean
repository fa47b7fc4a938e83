import Relink.Text.Printable

/-!
# Quoted texts

Messages name keys and found values in double quotes. Inside, the quote and the
backslash are escaped, four controls have a short name, and every other character
that is not shown as itself is written by its code point, so that a message never
holds a character that its reader cannot see.
-/

namespace Relink

namespace Text

/-- A code point in lower-case hexadecimal digits, without leading zeros. -/
def hexDigits (n : Nat) : List Char := Nat.toDigits 16 n

/-- How one character stands in a quoted text. -/
def quoteChar (c : Char) : List Char :=
  match c with
  | '\x00' => ['\\', '0']
  | '\t' => ['\\', 't']
  | '\n' => ['\\', 'n']
  | '\r' => ['\\', 'r']
  | '"' => ['\\', '"']
  | '\\' => ['\\', '\\']
  | c =>
    if isPrintable c then [c]
    else ['\\', 'u', '\x7b'] ++ hexDigits c.toNat ++ ['\x7d']

/-- The text in double quotes, with all that is not printable escaped. -/
def quoted (s : String) : String :=
  String.ofList ('"' :: s.toList.flatMap quoteChar ++ ['"'])

end Text

end Relink
