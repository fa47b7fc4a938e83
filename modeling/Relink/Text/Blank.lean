/-!
# Blank characters

Padding around a path, and names that consist of nothing but padding, are
recognised by one class of characters: those with the Unicode property
`White_Space`. It is wider than the six ASCII blanks of `Char.isWhitespace` –
the no-break space, the ideographic space and the line and paragraph separators
belong to it – and narrower than what looks empty: U+200B and U+FEFF do not.
-/

namespace Relink

namespace Text

/-- The characters with the Unicode property `White_Space`. -/
def isBlank (c : Char) : Bool :=
  let n := c.toNat
  (0x09 ≤ n && n ≤ 0x0D) || n == 0x20 || n == 0x85 || n == 0xA0 || n == 0x1680 ||
    (0x2000 ≤ n && n ≤ 0x200A) || n == 0x2028 || n == 0x2029 || n == 0x202F || n == 0x205F ||
    n == 0x3000

/-- A text without the blanks at its two ends. -/
def trim (cs : List Char) : List Char :=
  ((cs.dropWhile isBlank).reverse.dropWhile isBlank).reverse

/-- A name is blank if trimming leaves nothing of it. -/
def isBlankName (s : String) : Bool := (trim s.toList).isEmpty

end Text

end Relink
