import Relink.Toml.Text
import Relink.Toml.Value

/-!
# Reading TOML

A document is a sequence of statements, one to a line: a key with its value, or the
header of a table. This module reads the text into that sequence; it knows the
grammar and nothing else. What a table may hold twice, and which tables may still
be extended, is decided where a tree is made of the statements.

Every reader gives what it read with the characters that follow, or nothing: of a
text that is not TOML it is only ever said that it is not. Arrays and inline
tables may be nested `Toml.depthLimit` deep, and a key may have as many parts. The
other loops are recursive on the characters that they begin with. Each round takes
at least one character of the document, so there is always another round to be had
while there is another character.
-/

namespace Relink

namespace Toml

/-- How deep arrays and inline tables may be nested, and how many parts a key may
have, as each part leads one table deeper. -/
def depthLimit : Nat := 80

/-! ### Blanks, comments and line ends -/

/-- The document without the blanks that it begins with. -/
def skipBlanks (cs : List Char) : List Char := cs.dropWhile isBlank

/-- Passes over blanks, line breaks and comments; `inComment` tells whether a
comment has begun. -/
def skipFiller : Bool → List Char → Option (List Char)
  | _, [] => some []
  | _, '\n' :: cs => skipFiller false cs
  | _, '\r' :: '\n' :: cs => skipFiller false cs
  | true, c :: cs => if isOrdinary c then skipFiller true cs else none
  | false, c :: cs =>
    if isBlank c then skipFiller false cs
    else if c = '#' then skipFiller true cs
    else some (c :: cs)

/-- Passes over the rest of a comment, up to the end of its line. -/
def skipComment : List Char → Option (List Char)
  | [] => some []
  | '\n' :: cs => some ('\n' :: cs)
  | '\r' :: '\n' :: cs => some ('\n' :: cs)
  | c :: cs => if isOrdinary c then skipComment cs else none

/-- Passes over the rest of a line that has nothing more to say. -/
def skipLineEnd (cs : List Char) : Option (List Char) :=
  let ending : List Char → Option (List Char)
    | [] => some []
    | '\n' :: cs => some cs
    | '\r' :: '\n' :: cs => some cs
    | _ => none
  match skipBlanks cs with
  | '#' :: cs => (skipComment cs).bind ending
  | cs => ending cs

/-! ### Keys -/

/-- The characters of a key without quotes. -/
def isBare (c : Char) : Bool := c.isAlphanum || c == '-' || c == '_'

/-- Reads one part of a key. -/
def readKeyPart (cs : List Char) : Option (String × List Char) :=
  match cs with
  | '"' :: cs => (StringKind.basic false).read cs
  | '\'' :: cs => (StringKind.literal false).read cs
  | cs =>
    let part := cs.takeWhile isBare
    if part.isEmpty then none else some (String.ofList part, cs.drop part.length)

/-- Reads the parts of a key, with blanks around the dots; at most as many as the
first argument says. -/
def readKeyParts : Nat → List Char → Option (Key × List Char)
  | 0, _ => none
  | limit + 1, cs => do
    let (part, cs) ← readKeyPart (skipBlanks cs)
    match skipBlanks cs with
    | '.' :: cs => do
      let (parts, cs) ← readKeyParts limit cs
      some (part :: parts, cs)
    | cs => some ([part], cs)

/-- Reads a key, and the blanks after it. -/
def readKey (cs : List Char) : Option (Key × List Char) := readKeyParts depthLimit cs

/-! ### Scalars -/

/-- The characters of a scalar that is no string. -/
def isTokenChar (c : Char) : Bool :=
  c.isAlphanum || c == '+' || c == '-' || c == '_' || c == '.' || c == ':'

/-- A token, and the characters after it. A date takes in the time that follows it
after one blank. -/
def readToken (cs : List Char) : List Char × List Char :=
  let token := cs.takeWhile isTokenChar
  let cs := cs.drop token.length
  match readDate token, cs with
  | some (_, []), ' ' :: c :: rest =>
    if (decimalDigit? c).isSome then
      let time := (c :: rest).takeWhile isTokenChar
      (token ++ ' ' :: time, (c :: rest).drop time.length)
    else (token, cs)
  | _, _ => (token, cs)

/-- The scalar that a token stands for. -/
def Scalar.ofToken? (cs : List Char) : Option Scalar :=
  if cs = ['t', 'r', 'u', 'e'] then some (.boolean true)
  else if cs = ['f', 'a', 'l', 's', 'e'] then some (.boolean false)
  else match Moment.ofToken? cs with
    | some m => some (.moment m)
    | none => (Number.ofToken? cs).map .number

/-- Reads a scalar. -/
def readScalar (cs : List Char) : Option (Scalar × List Char) :=
  match cs with
  | '"' :: '"' :: '"' :: cs =>
    ((StringKind.basic true).read cs).map fun (s, cs) => (.string s, cs)
  | '\'' :: '\'' :: '\'' :: cs =>
    ((StringKind.literal true).read cs).map fun (s, cs) => (.string s, cs)
  | '"' :: cs => ((StringKind.basic false).read cs).map fun (s, cs) => (.string s, cs)
  | '\'' :: cs => ((StringKind.literal false).read cs).map fun (s, cs) => (.string s, cs)
  | cs =>
    let (token, cs) := readToken cs
    (Scalar.ofToken? token).map fun s => (s, cs)

/-! ### Values -/

/-- Reads the items of an array, whose bracket has been read, in at most as many
rounds as there are characters in the first argument. -/
def readItems (read : List Char → Option (Value × List Char)) :
    List Char → List Value → List Char → Option (List Value × List Char)
  | [], _, _ => none
  | _ :: rounds, items, cs => do
    match ← skipFiller false cs with
    | ']' :: cs => some (items.reverse, cs)
    | cs =>
      let (v, cs) ← read cs
      match ← skipFiller false cs with
      | ',' :: cs => readItems read rounds (v :: items) cs
      | ']' :: cs => some ((v :: items).reverse, cs)
      | _ => none

/-- Reads a key with its value; `gap` passes over what may stand on both sides of
the sign between them. -/
def readPair (gap : List Char → Option (List Char))
    (read : List Char → Option (Value × List Char)) (cs : List Char) :
    Option ((Key × Value) × List Char) := do
  let (key, cs) ← readKey cs
  match ← gap cs with
  | '=' :: cs => do
    let cs ← gap cs
    let (v, cs) ← read cs
    some ((key, v), cs)
  | _ => none

/-- Reads the pairs of an inline table, whose bracket has been read, in at most as
many rounds as there are characters in the first argument. A pair may go over
several lines, but its key may not. -/
def readPairs (read : List Char → Option (Value × List Char)) :
    List Char → List (Key × Value) → List Char → Option (List (Key × Value) × List Char)
  | [], _, _ => none
  | _ :: rounds, pairs, cs => do
    match ← skipFiller false cs with
    | '\x7d' :: cs => some (pairs.reverse, cs)
    | cs =>
      let (p, cs) ← readPair (skipFiller false) read cs
      match ← skipFiller false cs with
      | ',' :: cs => readPairs read rounds (p :: pairs) cs
      | '\x7d' :: cs => some ((p :: pairs).reverse, cs)
      | _ => none

/-- Reads a value in which as many arrays and inline tables may be nested as the
first argument says. -/
def readValue : Nat → List Char → Option (Value × List Char)
  | 0, cs => (readScalar cs).map fun (s, cs) => (.scalar s, cs)
  | depth + 1, cs =>
    match cs with
    | '[' :: cs => do
      let (items, cs) ← readItems (readValue depth) cs [] cs
      some (.array items, cs)
    | '\x7b' :: cs => do
      let (pairs, cs) ← readPairs (readValue depth) cs [] cs
      some (.inlineTable pairs, cs)
    | cs => (readScalar cs).map fun (s, cs) => (.scalar s, cs)

/-! ### Statements -/

/-- Reads a statement, from its first character on. The value of a key begins on
the line of the key. -/
def readStatement (cs : List Char) : Option (Statement × List Char) :=
  match cs with
  | '[' :: '[' :: cs => do
    let (key, cs) ← readKey cs
    match cs with
    | ']' :: ']' :: cs => some (.tableItem key, cs)
    | _ => none
  | '[' :: cs => do
    let (key, cs) ← readKey cs
    match cs with
    | ']' :: cs => some (.table key, cs)
    | _ => none
  | cs =>
    (readPair (some ∘ skipBlanks) (readValue depthLimit) cs).map fun (p, cs) =>
      (.pair p.1 p.2, cs)

/-- Reads statements to the end of the document, in at most as many rounds as there
are characters in the first argument; when they are used up, so is the document. -/
def readStatements : List Char → List Statement → List Char → Option (List Statement)
  | [], acc, cs => if cs.isEmpty then some acc.reverse else none
  | _ :: rounds, acc, cs => do
    match ← skipFiller false cs with
    | [] => some acc.reverse
    | c :: cs =>
      let (s, cs) ← readStatement (c :: cs)
      let cs ← skipLineEnd cs
      readStatements rounds (s :: acc) cs

/-- The statements of a document, which may begin with a byte order mark. -/
def Statement.ofText? (text : List Char) : Option (List Statement) :=
  let cs :=
    match text with
    | '\ufeff' :: cs => cs
    | cs => cs
  readStatements cs [] cs

end Toml

end Relink
