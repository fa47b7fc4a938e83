import Relink.Json.Value
import Relink.Text.Utf8

/-!
# Reading JSON

Readers take a document apart from the front, byte by byte, and either give what
they read with the bytes that follow, or stop at the first fault. There is one
reader per form: texts, numbers, scalars, whole values – and, for arrays and
objects, two that are told what to do with each item or member and so serve every
caller that wants something more definite than a value. Such a caller finds out
where the text and where the contents go wrong in one pass, and reports whichever
comes first.

Two limits are part of the format as it is read here: at most
`Json.depthLimit` arrays and objects may be open at once, and a number has to be
in range. A text has to be valid UTF-8, and its escapes must not leave half of a
surrogate pair.

The loops over items and members are recursive on the bytes that they begin with.
Each round takes at least one byte of the document, so there is always another
round to be had while there is another byte.
-/

namespace Relink

namespace Json

/-- What a reader answers: a fault, or what it read. A reader that goes on from
where it stops gives the bytes that follow, too. -/
abbrev Reading := Except Fault

/-- What two readers one after the other have read, each of them has read its part of. -/
theorem bind_eq_ok_iff {α β : Type} {x : Reading α} {f : α → Reading β} {b : β} :
    (x >>= f) = .ok b ↔ ∃ a, x = .ok a ∧ f a = .ok b := by
  cases x with
  | error fault => simp [bind, Except.bind]
  | ok a => simp [bind, Except.bind]

/-- The byte of an ASCII character. -/
def byte (c : Char) : UInt8 := c.toUInt8

/-- The four blanks of JSON. -/
def isBlank (b : UInt8) : Bool := b == 0x20 || b == 0x09 || b == 0x0A || b == 0x0D

/-- The document from its next byte on that is no blank. -/
def skipBlanks (bs : Bytes) : Bytes := bs.dropWhile isBlank

/-- How many arrays and objects may be open at once. -/
def depthLimit : Nat := 127

/-! ### Words -/

/-- Reads the given bytes. -/
def readWord : List UInt8 → Bytes → Reading Bytes
  | [], bs => .ok bs
  | _ :: _, [] => .error .truncated
  | w :: ws, b :: bs => if b = w then readWord ws bs else .error .malformed

/-! ### Texts -/

/-- The value of a hexadecimal digit. -/
def hexDigit? (b : UInt8) : Option Nat :=
  if byte '0' ≤ b ∧ b ≤ byte '9' then some (b.toNat - 48)
  else if byte 'a' ≤ b ∧ b ≤ byte 'f' then some (b.toNat - 87)
  else if byte 'A' ≤ b ∧ b ≤ byte 'F' then some (b.toNat - 55)
  else none

/-- The value of hexadecimal digits, after the value of those before them. -/
def hexValue? : Nat → List UInt8 → Option Nat
  | n, [] => some n
  | n, b :: bs => (hexDigit? b).bind fun d => hexValue? (16 * n + d) bs

/-- What stands behind a backslash, and the byte that is meant. -/
def escaped? (b : UInt8) : Option UInt8 :=
  match Char.ofUInt8 b with
  | '"' => some b
  | '\\' => some b
  | '/' => some b
  | 'b' => some 0x08
  | 'f' => some 0x0C
  | 'n' => some 0x0A
  | 'r' => some 0x0D
  | 't' => some 0x09
  | _ => none

/-- The first units of surrogate pairs. -/
def isLead (u : Nat) : Bool := 0xD800 ≤ u && u ≤ 0xDBFF

/-- The second units of surrogate pairs. -/
def isTrail (u : Nat) : Bool := 0xDC00 ≤ u && u ≤ 0xDFFF

/-- The code point of a surrogate pair. -/
def pairValue (lead trail : Nat) : Nat := 0x10000 + 0x400 * (lead - 0xD800) + (trail - 0xDC00)

/-- The bytes of a code point, last byte first. -/
def codePointBytes (n : Nat) : Bytes := (String.utf8EncodeChar (Char.ofNat n)).reverse

/-- Where a reader is inside a text. -/
inductive TextState where
  /-- Between two characters. -/
  | plain
  /-- After a backslash. -/
  | escape
  /-- Inside the four digits of a unit, which may have to follow a lead. -/
  | unit (lead : Option Nat) (digits : List UInt8)
  /-- After a lead: an escape has to follow. -/
  | lead (u : Nat)
  /-- After a lead and a backslash: a unit has to follow. -/
  | leadEscape (u : Nat)

/-- What a unit contributes, and where the reader is after it. -/
def takeUnit (lead : Option Nat) (u : Nat) : Reading (TextState × Bytes) :=
  match lead with
  | none =>
    if isLead u then .ok (.lead u, [])
    else if isTrail u then .error .malformed
    else .ok (.plain, codePointBytes u)
  | some l => if isTrail u then .ok (.plain, codePointBytes (pairValue l u)) else .error .malformed

/-- Reads a text to its closing quote; `acc` holds its bytes so far, last byte
first. Four bytes belong to a unit before they are looked at. -/
def scanText : TextState → Bytes → Bytes → Reading (Bytes × Bytes)
  | _, _, [] => .error .truncated
  | .plain, acc, b :: bs =>
    if b = byte '"' then .ok (acc.reverse, bs)
    else if b = byte '\\' then scanText .escape acc bs
    else if b < 0x20 then .error .malformed
    else scanText .plain (b :: acc) bs
  | .escape, acc, b :: bs =>
    if b = byte 'u' then scanText (.unit none []) acc bs
    else match escaped? b with
      | some e => scanText .plain (e :: acc) bs
      | none => .error .malformed
  | .unit lead digits, acc, b :: bs =>
    if digits.length < 3 then scanText (.unit lead (digits ++ [b])) acc bs
    else match hexValue? 0 (digits ++ [b]) with
      | none => .error .malformed
      | some u =>
        match takeUnit lead u with
        | .error f => .error f
        | .ok (state, out) => scanText state (out ++ acc) bs
  | .lead u, acc, b :: bs =>
    if b = byte '\\' then scanText (.leadEscape u) acc bs else .error .malformed
  | .leadEscape u, acc, b :: bs =>
    if b = byte 'u' then scanText (.unit (some u) []) acc bs else .error .malformed

/-- A unit is read as four bytes, which are looked at together. -/
theorem scanText_unit {a b c d : UInt8} {lead : Option Nat} {u : Nat} {state : TextState}
    {out : Bytes} (hv : hexValue? 0 [a, b, c, d] = some u)
    (ht : takeUnit lead u = .ok (state, out)) (acc bs : Bytes) :
    scanText (.unit lead []) acc (a :: b :: c :: d :: bs) = scanText state (out ++ acc) bs := by
  simp [scanText, hv, ht]

/-- Reads a text whose opening quote has been read. -/
def readText (bs : Bytes) : Reading (String × Bytes) := do
  let (content, bs) ← scanText .plain [] bs
  match Text.decode content with
  | some s => .ok (s, bs)
  | none => .error .malformed

/-! ### Numbers -/

/-- The value of a decimal digit. -/
def digit? (b : UInt8) : Option Nat :=
  if byte '0' ≤ b ∧ b ≤ byte '9' then some (b.toNat - 48) else none

/-- Reads digits for as long as there are any; `acc` holds those before, last
digit first. -/
def scanDigits : List Nat → Bytes → List Nat × Bytes
  | acc, [] => (acc.reverse, [])
  | acc, b :: bs =>
    match digit? b with
    | some d => scanDigits (d :: acc) bs
    | none => (acc.reverse, b :: bs)

/-- Reads digits, of which there has to be one. -/
def readDigits (bs : Bytes) : Reading (List Nat × Bytes) :=
  match scanDigits [] bs with
  | ([], []) => .error .truncated
  | ([], _ :: _) => .error .malformed
  | (ds, bs) => .ok (ds, bs)

/-- Reads the digits before the point: a zero only if it is alone. -/
def readWhole (bs : Bytes) : Reading (List Nat × Bytes) := do
  let (ds, bs) ← readDigits bs
  match ds with
  | 0 :: _ :: _ => .error .malformed
  | ds => .ok (ds, bs)

/-- Reads a point with the digits after it, if there is a point. -/
def readFraction (bs : Bytes) : Reading (Option (List Nat) × Bytes) :=
  match bs with
  | b :: rest =>
    if b = byte '.' then do
      let (ds, rest) ← readDigits rest
      .ok (some ds, rest)
    else .ok (none, bs)
  | [] => .ok (none, [])

/-- Reads the sign of an exponent, if there is one. -/
def readExponentSign (bs : Bytes) : Bool × Bytes :=
  match bs with
  | b :: rest =>
    if b = byte '-' then (true, rest) else if b = byte '+' then (false, rest) else (false, bs)
  | [] => (false, [])

/-- Reads an exponent, if there is one. -/
def readExponent (bs : Bytes) : Reading (Option (Bool × List Nat) × Bytes) :=
  match bs with
  | b :: rest =>
    if b = byte 'e' ∨ b = byte 'E' then do
      let (down, rest) := readExponentSign rest
      let (ds, rest) ← readDigits rest
      .ok (some (down, ds), rest)
    else .ok (none, bs)
  | [] => .ok (none, [])

/-- Reads a minus sign, if there is one. -/
def readMinus (bs : Bytes) : Bool × Bytes :=
  match bs with
  | b :: rest => if b = byte '-' then (true, rest) else (false, bs)
  | [] => (false, [])

/-- Reads a number as it is written. -/
def readLiteral (bs : Bytes) : Reading (Literal × Bytes) := do
  let (negative, bs) := readMinus bs
  let (whole, bs) ← readWhole bs
  let (fraction, bs) ← readFraction bs
  let (exponent, bs) ← readExponent bs
  .ok (⟨negative, whole, fraction, exponent⟩, bs)

/-- Reads a number that is in range. -/
def readNumber (bs : Bytes) : Reading (Number × Bytes) := do
  let (l, bs) ← readLiteral bs
  match Number.ofLiteral? l with
  | some n => .ok (n, bs)
  | none => .error .malformed

/-! ### Scalars -/

/-- Reads a value that is neither an array nor an object, at its first byte. -/
def readScalar (bs : Bytes) : Reading (Json × Bytes) :=
  match bs with
  | [] => .error .truncated
  | b :: rest =>
    match Char.ofUInt8 b with
    | 'n' => do
      let rest ← readWord [byte 'u', byte 'l', byte 'l'] rest
      .ok (.null, rest)
    | 't' => do
      let rest ← readWord [byte 'r', byte 'u', byte 'e'] rest
      .ok (.boolean true, rest)
    | 'f' => do
      let rest ← readWord [byte 'a', byte 'l', byte 's', byte 'e'] rest
      .ok (.boolean false, rest)
    | '"' => do
      let (s, rest) ← readText rest
      .ok (.string s, rest)
    | _ =>
      if b = byte '-' ∨ (digit? b).isSome then do
        let (n, rest) ← readNumber bs
        .ok (.number n, rest)
      else .error .malformed

/-! ### Arrays and objects -/

/-- Where the next item of an array begins, if the array does not end here. -/
def nextItem? (first : Bool) (bs : Bytes) : Reading (Option Bytes) :=
  match skipBlanks bs with
  | [] => .error .truncated
  | b :: rest =>
    if b = byte ']' then .ok none
    else if first then .ok (some (b :: rest))
    else if b = byte ',' then
      match skipBlanks rest with
      | [] => .error .truncated
      | c :: rest => if c = byte ']' then .error .malformed else .ok (some (c :: rest))
    else .error .malformed

/-- Reads the end of an array. -/
def closeArray (bs : Bytes) : Reading Bytes :=
  match skipBlanks bs with
  | [] => .error .truncated
  | b :: rest => if b = byte ']' then .ok rest else .error .malformed

/-- Reads the items of an array, whose bracket has been read, each with the state
that the ones before it have left; in at most as many rounds as there are bytes in
the first argument. -/
def readItems {σ : Type} (item : σ → Bytes → Reading (σ × Bytes)) :
    Bytes → Bool → σ → Bytes → Reading (σ × Bytes)
  | [], _, _, _ => .error .truncated
  | _ :: rounds, first, s, bs =>
    match nextItem? first bs with
    | .error f => .error f
    | .ok none => do
      let rest ← closeArray bs
      .ok (s, rest)
    | .ok (some bs) =>
      match item s bs with
      | .error f => .error f
      | .ok (s, bs) => readItems item rounds false s bs

/-- Reads a name, from its quote on. -/
def readName (bs : Bytes) : Reading (String × Bytes) :=
  match bs with
  | [] => .error .truncated
  | b :: rest => if b = byte '"' then readText rest else .error .malformed

/-- The name of the next member of an object and what follows it, if the object
does not end here. -/
def nextMember? (first : Bool) (bs : Bytes) : Reading (Option (String × Bytes)) :=
  match skipBlanks bs with
  | [] => .error .truncated
  | b :: rest =>
    if b = byte '\x7d' then .ok none
    else if first then (readName (b :: rest)).map some
    else if b = byte ',' then (readName (skipBlanks rest)).map some
    else .error .malformed

/-- Reads what stands between a name and its value. -/
def readColon (bs : Bytes) : Reading Bytes :=
  match skipBlanks bs with
  | [] => .error .truncated
  | b :: rest => if b = byte ':' then .ok rest else .error .malformed

/-- Reads the end of an object. -/
def closeObject (bs : Bytes) : Reading Bytes :=
  match skipBlanks bs with
  | [] => .error .truncated
  | b :: rest => if b = byte '\x7d' then .ok rest else .error .malformed

/-- Reads the members of an object, whose bracket has been read, each with the
state that the ones before it have left; in at most as many rounds as there are
bytes in the first argument. The reader of a member is given its name and begins at
the colon, so that it can refuse a name before there is a value. -/
def readMembers {σ : Type} (member : σ → String → Bytes → Reading (σ × Bytes)) :
    Bytes → Bool → σ → Bytes → Reading (σ × Bytes)
  | [], _, _, _ => .error .truncated
  | _ :: rounds, first, s, bs =>
    match nextMember? first bs with
    | .error f => .error f
    | .ok none => do
      let rest ← closeObject bs
      .ok (s, rest)
    | .ok (some (name, bs)) =>
      match member s name bs with
      | .error f => .error f
      | .ok (s, bs) => readMembers member rounds false s bs

/-- Reads an array, whose bracket has been read, item by item. -/
def readArray {σ : Type} (item : σ → Bytes → Reading (σ × Bytes)) (s : σ) (bs : Bytes) :
    Reading (σ × Bytes) :=
  readItems item bs true s bs

/-- Reads an object, whose bracket has been read, member by member. -/
def readObject {σ : Type} (member : σ → String → Bytes → Reading (σ × Bytes)) (s : σ) (bs : Bytes) :
    Reading (σ × Bytes) :=
  readMembers member bs true s bs

/-! ### Values -/

/-- Reads one item and keeps it before those read so far. -/
def readItem (read : Bytes → Reading (Json × Bytes)) (items : List Json) (bs : Bytes) :
    Reading (List Json × Bytes) := do
  let (v, bs) ← read bs
  .ok (v :: items, bs)

/-- Reads the value of one member and puts it with those read so far. -/
def readMember (read : Bytes → Reading (Json × Bytes)) (members : Entries Json) (name : String)
    (bs : Bytes) : Reading (Entries Json × Bytes) := do
  let bs ← readColon bs
  let (v, bs) ← read bs
  .ok (members.put name v, bs)

/-- Reads a value in which as many arrays and objects may be opened inside each
other as the first argument says. -/
def readValue : Nat → Bytes → Reading (Json × Bytes)
  | 0, bs => readScalar (skipBlanks bs)
  | depth + 1, bs =>
    match skipBlanks bs with
    | [] => .error .truncated
    | b :: rest =>
      if b = byte '[' then do
        let (items, rest) ← readArray (readItem (readValue depth)) [] rest
        .ok (.array items.reverse, rest)
      else if b = byte '\x7b' then do
        let (members, rest) ← readObject (readMember (readValue depth)) [] rest
        .ok (.object members, rest)
      else readScalar (b :: rest)

/-- The fault of a value of the wrong kind. A scalar is read, for its value; of an
array or an object the bracket is enough. -/
def wrongKind (expected : Expected) (bs : Bytes) : Fault :=
  match skipBlanks bs with
  | [] => .truncated
  | b :: rest =>
    if b = byte '[' then .mismatch (.shape .sequence expected)
    else if b = byte '\x7b' then .mismatch (.shape .map expected)
    else match readScalar (b :: rest) with
      | .error f => f
      | .ok (v, _) => .mismatch (.shape v.shape expected)

/-- Reads a text where one is wanted. -/
def readString (expected : Expected) (bs : Bytes) : Reading (String × Bytes) :=
  match skipBlanks bs with
  | [] => .error .truncated
  | b :: rest => if b = byte '"' then readText rest else .error (wrongKind expected (b :: rest))

/-- Reads a document that is all of the bytes. -/
def readAll {α : Type} (read : Bytes → Reading (α × Bytes)) (bs : Bytes) : Reading α :=
  match read bs with
  | .error f => .error f
  | .ok (a, rest) => if (skipBlanks rest).isEmpty then .ok a else .error .malformed

end Json

end Relink
