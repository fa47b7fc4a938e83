import Relink.Text.Blank

/-!
# Path patterns

A configured path is matched literally, with four liberties: either separator
stands for either, one leading separator may be there or not whatever the path
begins with, and blanks may pad the value on both sides. The pattern of a path is
what remains once the leading separator is set aside: a list of atoms, each a
separator or a character that stands for itself.

A pattern is used in two ways that have to agree. It is *printed*
(`PathPattern.text`) as an anchored regular expression, for display. And it is
*matched* (`PathPattern.accepts`) against a value.

What matching means is to try every number of leading blanks with and without a
separator after them (`PathPattern.acceptsPadded`). Cutting blanks and separator off
greedily would not do: a path may itself begin with blanks or with further
separators, and then the same characters can be read as padding or as part of the
path. But there is little to try. The first character of the value that is no blank
has to meet the first atom that stands for no blank, or the separator; and where a
value is blank throughout, its padding leaves the atoms free to stand anywhere in it,
so they are searched for as a text.

A printed pattern may not grow past a limit on the size of its compiled form
(`PathPattern.size`, `PathPattern.sizeLimit`).
-/

namespace Relink

/-- The two characters that separate the parts of a path. -/
def isSeparator (c : Char) : Bool := c == '/' || c == '\\'

/-- What one position of a pattern stands for. -/
inductive Atom where
  /-- Either separator. -/
  | separator
  /-- The character itself. -/
  | literal (c : Char)
deriving DecidableEq

namespace Atom

/-- The atom of a character of a path. -/
def ofChar (c : Char) : Atom := if isSeparator c then .separator else .literal c

/-- The characters that an atom stands for. -/
def accepts : Atom → Char → Bool
  | .separator, c => isSeparator c
  | .literal d, c => c == d

/-- A character that an atom stands for, and the only one that is a blank if it is. -/
def sample : Atom → Char
  | .separator => '/'
  | .literal c => c

/-- Whether an atom stands for a blank. -/
def isBlank (a : Atom) : Bool := Text.isBlank a.sample

/-- The characters that have a meaning of their own in a regular expression. -/
def isMeta (c : Char) : Bool :=
  ['\\', '.', '+', '*', '?', '(', ')', '|', '[', ']', '\x7b', '\x7d', '^', '$', '#', '&', '-',
    '~'].contains c

/-- An atom as it is printed: a class of the two separators, or the character with
a backslash before it where it needs one. -/
def text : Atom → List Char
  | .separator => ['[', '/', '\\', '\\', ']']
  | .literal c => if isMeta c then ['\\', c] else [c]

/-- The size of an atom in a compiled pattern: 80 for a separator, 32 for each
byte of a character in UTF-8. -/
def size : Atom → Nat
  | .separator => 80
  | .literal c => 32 * c.utf8Size

end Atom

/-- What a value has to spell between its padding. -/
structure PathPattern where
  /-- The atoms, one for each character of the path but a leading separator. -/
  atoms : List Atom
deriving DecidableEq

namespace PathPattern

/-- A path without the separator that it may begin with. -/
def dropSeparator : List Char → List Char
  | [] => []
  | c :: cs => if isSeparator c then cs else c :: cs

/-- The pattern of a path. -/
def ofPath (path : String) : PathPattern := ⟨(dropSeparator path.toList).map Atom.ofChar⟩

/-! ### Printing -/

/-- What is printed before the atoms: the start of the value, blanks, and a
separator that may be missing. -/
def opening : List Char := ['^', '\\', 's', '*', '[', '/', '\\', '\\', ']', '?']

/-- What is printed after the atoms: blanks and the end of the value. -/
def closing : List Char := ['\\', 's', '*', '$']

/-- The pattern as a regular expression. -/
def text (p : PathPattern) : String :=
  String.ofList (opening ++ p.atoms.flatMap Atom.text ++ closing)

/-! ### Matching -/

/-- The atoms spell the beginning of the value, and blanks are all that follows. -/
def acceptsBody : List Atom → List Char → Bool
  | [], v => v.all Text.isBlank
  | _ :: _, [] => false
  | a :: as, c :: v => a.accepts c && acceptsBody as v

/-- The same, after a separator that may be missing. -/
def acceptsUnpadded (as : List Atom) (v : List Char) : Bool :=
  acceptsBody as v ||
    match v with
    | [] => false
    | c :: v => isSeparator c && acceptsBody as v

/-- The same, after any number of blanks. -/
def acceptsPadded (as : List Atom) : List Char → Bool
  | [] => acceptsUnpadded as []
  | c :: v => acceptsUnpadded as (c :: v) || (Text.isBlank c && acceptsPadded as v)

/-- The atoms spell an end of the padding and the beginning of what follows it: the
blanks among the first ones are in the padding, the others are not. -/
def acceptsAcross (as : List Atom) (padding v : List Char) : Bool :=
  ((as.takeWhile Atom.isBlank).map Atom.sample).isSuffixOf padding &&
    acceptsBody (as.dropWhile Atom.isBlank) v

/-- The pattern denotes the value. -/
def accepts (p : PathPattern) (value : String) : Bool :=
  match value.toList.dropWhile Text.isBlank with
  | [] => value.contains (String.ofList (p.atoms.map Atom.sample))
  | c :: v =>
    acceptsAcross p.atoms (value.toList.takeWhile Text.isBlank) (c :: v) ||
      (isSeparator c && acceptsBody p.atoms v)

/-! ### Size -/

/-- What a compiled pattern takes in any case, in its larger form, which reads a value
from its end: 720 for the blanks on either side, 152 for the separator that may be
missing, 64 for the two ends of the value and 64 to begin and to finish. -/
def baseSize : Nat := 2 * 720 + 152 + 64 + 64

/-- The size of a compiled pattern. -/
def size (p : PathPattern) : Nat := p.atoms.foldl (fun n a => n + a.size) baseSize

/-- The largest size that a compiled pattern may have, 10 MiB. -/
def sizeLimit : Nat := 10485760

/-- The pattern is small enough to be used. -/
def Fits (p : PathPattern) : Prop := p.size ≤ sizeLimit

instance (p : PathPattern) : Decidable p.Fits := inferInstanceAs (Decidable (_ ≤ _))

end PathPattern

end Relink
