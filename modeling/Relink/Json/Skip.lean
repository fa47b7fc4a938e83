import Relink.Json.Reader

/-!
# Skipping JSON values

A value that nobody asks for is passed over rather than read. It still has to be
JSON, but less is asked of it: its arrays and objects may be nested to any depth,
its numbers need not be in range, and its texts may hold half a surrogate pair,
since nothing of it is kept. Names inside it are passed over in the same way.

One fault is told differently on this way: a number that the end of the document
cuts off counts as malformed.

As there is no bound on the depth, the open brackets are kept on a stack of their
own. Every round takes at least one byte, so there are no more rounds than bytes.
-/

namespace Relink

namespace Json

/-- Where the skipping of a text is. -/
inductive SkipState where
  /-- Between two characters. -/
  | plain
  /-- After a backslash. -/
  | escape
  /-- Inside the digits of a unit. -/
  | unit (digits : List UInt8)

/-- Passes over a text to its closing quote. -/
def skipText : SkipState → Bytes → Reading Bytes
  | _, [] => .error .truncated
  | .plain, b :: bs =>
    if b = byte '"' then .ok bs
    else if b = byte '\\' then skipText .escape bs
    else if b < 0x20 then .error .malformed
    else skipText .plain bs
  | .escape, b :: bs =>
    if b = byte 'u' then skipText (.unit []) bs
    else if (escaped? b).isSome then skipText .plain bs
    else .error .malformed
  | .unit digits, b :: bs =>
    if digits.length < 3 then skipText (.unit (digits ++ [b])) bs
    else if (hexValue? 0 (digits ++ [b])).isSome then skipText .plain bs
    else .error .malformed

/-- Passes over a number. -/
def skipNumber (bs : Bytes) : Reading Bytes :=
  match readLiteral bs with
  | .ok (_, bs) => .ok bs
  | .error _ => .error .malformed

/-- Passes over a name with its colon, if one begins here. -/
def skipName (bs : Bytes) : Reading Bytes :=
  match skipBlanks bs with
  | [] => .error .truncated
  | b :: rest =>
    if b = byte '"' then do
      let rest ← skipText .plain rest
      readColon rest
    else .error .malformed

/-- Passes over a scalar, at its first byte. -/
def skipScalar (bs : Bytes) : Reading Bytes :=
  match bs with
  | [] => .error .truncated
  | b :: rest =>
    match Char.ofUInt8 b with
    | 'n' => readWord [byte 'u', byte 'l', byte 'l'] rest
    | 't' => readWord [byte 'r', byte 'u', byte 'e'] rest
    | 'f' => readWord [byte 'a', byte 'l', byte 's', byte 'e'] rest
    | '"' => skipText .plain rest
    | _ => if b = byte '-' ∨ (digit? b).isSome then skipNumber bs else .error .malformed

/-- A bracket that is open. -/
inductive Bracket where
  /-- The bracket of an array. -/
  | array
  /-- The bracket of an object. -/
  | object
deriving DecidableEq

/-- The byte that closes a bracket. -/
def Bracket.closing : Bracket → UInt8
  | .array => byte ']'
  | .object => byte '\x7d'

/-- Passes over what comes before the value of an item or a member. -/
def Bracket.enter : Bracket → Bytes → Reading Bytes
  | .array, bs => .ok bs
  | .object, bs => skipName bs

/-- Goes on after a value: past closing brackets, to the next value that is
inside an open one. Nothing is open when it answers with no bracket. -/
def skipClosing : List Bracket → Bytes → Reading (List Bracket × Bytes)
  | [], bs => .ok ([], bs)
  | k :: ks, bs =>
    match skipBlanks bs with
    | [] => .error .truncated
    | b :: rest =>
      if b = k.closing then skipClosing ks rest
      else if b = byte ',' then do
        let rest ← k.enter rest
        .ok (k :: ks, rest)
      else .error .malformed

/-- Goes on after an opening bracket: to its first value, or past it if it is
empty. -/
def skipOpening (k : Bracket) (ks : List Bracket) (bs : Bytes) :
    Reading (List Bracket × Bytes) :=
  match skipBlanks bs with
  | [] => .error .truncated
  | b :: rest =>
    if b = k.closing then skipClosing ks rest
    else do
      let rest ← k.enter (b :: rest)
      .ok (k :: ks, rest)

/-- Passes over one step of a value: a scalar, or an opening bracket. -/
def skipStep (ks : List Bracket) (bs : Bytes) : Reading (List Bracket × Bytes) :=
  match skipBlanks bs with
  | [] => .error .truncated
  | b :: rest =>
    if b = byte '[' then skipOpening .array ks rest
    else if b = byte '\x7b' then skipOpening .object ks rest
    else do
      let rest ← skipScalar (b :: rest)
      skipClosing ks rest

/-- Passes over values until no bracket is open, in at most as many rounds as there
are bytes in the first argument. -/
def skipAll : Bytes → List Bracket → Bytes → Reading Bytes
  | [], _, _ => .error .truncated
  | _ :: rounds, ks, bs =>
    match skipStep ks bs with
    | .error f => .error f
    | .ok ([], bs) => .ok bs
    | .ok (k :: ks, bs) => skipAll rounds (k :: ks) bs

/-- Passes over a value. -/
def skipValue (bs : Bytes) : Reading Bytes := skipAll bs [] bs

end Json

end Relink
