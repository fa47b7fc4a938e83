/-!
# TOML strings

There are four kinds of strings: basic ones, in which a backslash escapes, and
literal ones, in which nothing does; each either on one line or on several. A
string is read by a machine that looks at one character at a time and says whether
the string goes on, with which characters added, or has ended before the
character. An end can only be told from the character after it, since a string
on several lines may end in up to two quotes of its own before the three that
close it.

Line breaks are kept as they are written, a carriage return only in front of a
line feed. A backslash at the end of a line swallows the line break with all
blanks and line breaks after it.
-/

namespace Relink

namespace Toml

/-- The kinds of strings. -/
structure StringKind where
  /-- The quote that the string is written with. -/
  quote : Char
  /-- A backslash escapes. -/
  escapes : Bool
  /-- The string may go over several lines. -/
  multiline : Bool
deriving DecidableEq

/-- A string in double quotes. -/
def StringKind.basic (multiline : Bool) : StringKind := ⟨'"', true, multiline⟩

/-- A string in single quotes. -/
def StringKind.literal (multiline : Bool) : StringKind := ⟨'\'', false, multiline⟩

/-- Where the machine is. -/
inductive StringState where
  /-- Between two characters. -/
  | plain
  /-- After the quote that ends a string on one line. -/
  | closed
  /-- After a number of quotes in a string on several lines. -/
  | quotes (count : Nat)
  /-- After a carriage return. -/
  | carriageReturn
  /-- After a backslash. -/
  | escape
  /-- Inside the digits of a code point: how many are left, and their value so far. -/
  | codePoint (left value : Nat)
  /-- After a backslash and blanks: the line has to end. -/
  | lineEnd
  /-- The same, after a carriage return. -/
  | lineEndReturn
  /-- After a line break that a backslash swallows. -/
  | swallow
  /-- The same, after a further carriage return. -/
  | swallowReturn
deriving DecidableEq

/-- What the machine says to a character. -/
inductive StringStep where
  /-- The string goes on. -/
  | goOn (state : StringState) (added : List Char)
  /-- The string has ended before the character. -/
  | ended (added : List Char)

/-- The two blanks of TOML. -/
def isBlank (c : Char) : Bool := c == ' ' || c == '\t'

/-- The characters that may stand anywhere: all but the controls other than the
tab. -/
def isOrdinary (c : Char) : Bool := c == '\t' || (0x20 ≤ c.toNat && c.toNat != 0x7F)

/-- The character that an escape of one letter means. -/
def escaped? : Char → Option Char
  | 'b' => some '\x08'
  | 't' => some '\t'
  | 'n' => some '\n'
  | 'f' => some '\x0c'
  | 'r' => some '\r'
  | 'e' => some '\x1b'
  | '"' => some '"'
  | '\\' => some '\\'
  | _ => none

/-- How many digits follow the letter of a code point. -/
def codePointWidth? : Char → Option Nat
  | 'x' => some 2
  | 'u' => some 4
  | 'U' => some 8
  | _ => none

/-- The value of a hexadecimal digit. -/
def hexDigit? (c : Char) : Option Nat :=
  if '0' ≤ c ∧ c ≤ '9' then some (c.toNat - 48)
  else if 'a' ≤ c ∧ c ≤ 'f' then some (c.toNat - 87)
  else if 'A' ≤ c ∧ c ≤ 'F' then some (c.toNat - 55)
  else none

/-- The character of a code point, which must not be a surrogate. -/
def charOf? (n : Nat) : Option Char := if n.isValidChar then some (Char.ofNat n) else none

/-- The machine between two characters. -/
def StringKind.plainStep (k : StringKind) (c : Char) : Option StringStep :=
  if c = k.quote then some (.goOn (if k.multiline then .quotes 1 else .closed) [])
  else if c = '\\' ∧ k.escapes then some (.goOn .escape [])
  else if c = '\n' ∧ k.multiline then some (.goOn .plain ['\n'])
  else if c = '\r' ∧ k.multiline then some (.goOn .carriageReturn [])
  else if isOrdinary c then some (.goOn .plain [c])
  else none

/-- The same step, with characters added before those that it adds. -/
def StringStep.after (added : List Char) : StringStep → StringStep
  | .goOn state more => .goOn state (added ++ more)
  | .ended more => .ended (added ++ more)

/-- What the machine says to a character; nothing, if the character may not stand
where it does. -/
def StringKind.step (k : StringKind) (state : StringState) (c : Char) : Option StringStep :=
  match state with
  | .plain => k.plainStep c
  | .closed => some (.ended [])
  | .quotes n =>
    if c = k.quote then if n < 5 then some (.goOn (.quotes (n + 1)) []) else none
    else if n < 3 then (k.plainStep c).map (·.after (List.replicate n k.quote))
    else some (.ended (List.replicate (n - 3) k.quote))
  | .carriageReturn => if c = '\n' then some (.goOn .plain ['\r', '\n']) else none
  | .escape =>
    match codePointWidth? c with
    | some width => some (.goOn (.codePoint width 0) [])
    | none =>
      match escaped? c with
      | some e => some (.goOn .plain [e])
      | none =>
        if ¬ k.multiline then none
        else if isBlank c then some (.goOn .lineEnd [])
        else if c = '\n' then some (.goOn .swallow [])
        else if c = '\r' then some (.goOn .lineEndReturn [])
        else none
  | .codePoint left value =>
    (hexDigit? c).bind fun d =>
      if left ≤ 1 then (charOf? (16 * value + d)).map fun e => .goOn .plain [e]
      else some (.goOn (.codePoint (left - 1) (16 * value + d)) [])
  | .lineEnd =>
    if isBlank c then some (.goOn .lineEnd [])
    else if c = '\n' then some (.goOn .swallow [])
    else if c = '\r' then some (.goOn .lineEndReturn [])
    else none
  | .lineEndReturn => if c = '\n' then some (.goOn .swallow []) else none
  | .swallow =>
    if isBlank c ∨ c = '\n' then some (.goOn .swallow [])
    else if c = '\r' then some (.goOn .swallowReturn [])
    else k.plainStep c
  | .swallowReturn => if c = '\n' then some (.goOn .swallow []) else none

/-- What is added where the document ends; nothing, if the string has not ended. -/
def StringKind.finish (k : StringKind) : StringState → Option (List Char)
  | .closed => some []
  | .quotes n => if n < 3 then none else some (List.replicate (n - 3) k.quote)
  | _ => none

/-- Runs the machine; `acc` holds the characters of the string so far, last
character first. -/
def StringKind.scan (k : StringKind) :
    StringState → List Char → List Char → Option (List Char × List Char)
  | state, acc, [] => (k.finish state).map fun added => (acc.reverse ++ added, [])
  | state, acc, c :: cs =>
    match k.step state c with
    | none => none
    | some (.goOn state added) => k.scan state (added.reverse ++ acc) cs
    | some (.ended added) => some (acc.reverse ++ added, c :: cs)

/-- A line break at the very beginning of a string on several lines is not part of
it. -/
def dropLineBreak : List Char → List Char
  | '\n' :: cs => cs
  | '\r' :: '\n' :: cs => cs
  | cs => cs

/-- Reads a string whose opening quotes have been read. -/
def StringKind.read (k : StringKind) (cs : List Char) : Option (String × List Char) :=
  (k.scan .plain [] (if k.multiline then dropLineBreak cs else cs)).map fun (s, cs) =>
    (String.ofList s, cs)

end Toml

end Relink
