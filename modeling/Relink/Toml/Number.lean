import Relink.Toml.Moment

/-!
# TOML numbers

Integers are exact; decimals are kept with as many digits as can matter and turned
into a double only when somebody asks. Digits may be grouped by single underscores, each between
two digits; a decimal integer has no leading zero, the integers to other bases have
no sign, and a fraction or an exponent needs a digit.

There are two limits. An integer that 128 bits cannot hold and a decimal beyond the
doubles are no numbers at all. Within that, only an integer of 64 bits with its sign
is *portable*, since the format promises no more.
-/

namespace Relink

namespace Toml

/-- A number. -/
inductive Number where
  /-- An integer. -/
  | integer (i : Int)
  /-- A decimal, `digits * 10 ^ exponent` up to its sign. -/
  | decimal (negative : Bool) (digits : Nat) (exponent : Int)
  /-- Infinity, up to its sign. -/
  | infinity (negative : Bool)
  /-- What is no number. -/
  | nan
deriving DecidableEq

/-- The value of a digit in bases up to sixteen. -/
def digitValue? (c : Char) : Option Nat :=
  if '0' ≤ c ∧ c ≤ '9' then some (c.toNat - 48)
  else if 'a' ≤ c ∧ c ≤ 'f' then some (c.toNat - 87)
  else if 'A' ≤ c ∧ c ≤ 'F' then some (c.toNat - 55)
  else none

/-- The value of a digit in a base. -/
def digitIn? (base : Nat) (c : Char) : Option Nat :=
  (digitValue? c).bind fun d => if d < base then some d else none

/-- Reads what follows a digit: more of them, with an underscore between two where
wanted. `ds` holds the digits so far, last digit first. -/
def readMoreDigits (base : Nat) : Bool → List Nat → List Char → Option (List Nat × List Char)
  | true, _, [] => none
  | false, ds, [] => some (ds.reverse, [])
  | true, ds, c :: cs => (digitIn? base c).bind fun d => readMoreDigits base false (d :: ds) cs
  | false, ds, c :: cs =>
    match digitIn? base c with
    | some d => readMoreDigits base false (d :: ds) cs
    | none =>
      if c = '_' then readMoreDigits base true ds cs else some (ds.reverse, c :: cs)

/-- Reads digits, of which there has to be one. -/
def readDigits (base : Nat) (cs : List Char) : Option (List Nat × List Char) :=
  readMoreDigits base true [] cs

/-- Digits as a number. -/
def ofDigits (base : Nat) (ds : List Nat) : Nat := ds.foldl (fun n d => base * n + d) 0

/-- Digits as a number, or the limit if they make a larger one. -/
def ofDigitsUpTo (limit base : Nat) (ds : List Nat) : Nat :=
  ds.foldl (fun n d => min (base * n + d) limit) 0

/-- The digits of an exponent as a number. One that has reached `2 ^ 16` takes up no
further digit. -/
def exponentOfDigits (ds : List Nat) : Nat :=
  ds.foldl (fun n d => if n < Nat.pow 2 16 then 10 * n + d else n) 0

/-- Reads a sign, if there is one. -/
def readSign : List Char → Bool × List Char
  | '-' :: cs => (true, cs)
  | '+' :: cs => (false, cs)
  | cs => (false, cs)

/-- Reads a point with the digits after it, if there is a point. -/
def readFraction (cs : List Char) : Option (Option (List Nat) × List Char) :=
  match cs with
  | '.' :: cs => (readDigits 10 cs).map fun (ds, cs) => (some ds, cs)
  | cs => some (none, cs)

/-- Reads an exponent after its letter. -/
def readPower (cs : List Char) : Option (Option Int × List Char) := do
  let (negative, cs) := readSign cs
  let (ds, cs) ← readDigits 10 cs
  let n : Int := exponentOfDigits ds
  some (some (if negative then -n else n), cs)

/-- Reads an exponent, if there is one. -/
def readExponent (cs : List Char) : Option (Option Int × List Char) :=
  match cs with
  | 'e' :: cs => readPower cs
  | 'E' :: cs => readPower cs
  | cs => some (none, cs)

namespace Number

/-- The least magnitude that no integer has. -/
def integerBound : Nat := Nat.pow 2 128

/-- The integer to a base, from the characters after its mark. -/
def ofBase? (base : Nat) (cs : List Char) : Option Number :=
  match readDigits base cs with
  | some (ds, []) => some (.integer (ofDigitsUpTo integerBound base ds))
  | _ => none

/-- How many digits of a decimal are taken up. A point halfway between two doubles
has fewer. -/
def digitLimit : Nat := 800

/-- The decimal with the given digits, times a power of ten. The digits past the
limit come down to one, which says whether they are all zeros: that is enough to be
on the same side of every point halfway between two doubles. -/
def ofPlaces (negative : Bool) (ds : List Nat) (exponent : Int) : Number :=
  let ds := ds.dropWhile (· == 0)
  match ds.drop digitLimit with
  | [] => .decimal negative (ofDigits 10 ds) exponent
  | d :: dropped =>
    let last := if d == 0 && dropped.all (· == 0) then 0 else 1
    .decimal negative (ofDigits 10 (ds.take digitLimit ++ [last])) (exponent + dropped.length)

/-- The number of a token in decimal notation, from the characters after its sign. -/
def ofDecimal? (negative : Bool) (cs : List Char) : Option Number := do
  let (whole, cs) ← readDigits 10 cs
  let (fraction, cs) ← readFraction cs
  let (exponent, cs) ← readExponent cs
  if cs.isEmpty ∧ ¬ (whole.length ≠ 1 ∧ whole.head? = some 0) then
    match fraction, exponent with
    | none, none =>
      let n : Int := ofDigitsUpTo integerBound 10 whole
      some (.integer (if negative then -n else n))
    | fraction, exponent =>
      let places := fraction.getD []
      some (ofPlaces negative (whole ++ places) (exponent.getD 0 - places.length))
  else none

/-- The number that a token stands for, within the limits or not. -/
def unlimited? (cs : List Char) : Option Number :=
  match cs with
  | '0' :: 'x' :: cs => ofBase? 16 cs
  | '0' :: 'o' :: cs => ofBase? 8 cs
  | '0' :: 'b' :: cs => ofBase? 2 cs
  | cs =>
    let (negative, cs) := readSign cs
    match cs with
    | ['i', 'n', 'f'] => some (.infinity negative)
    | ['n', 'a', 'n'] => some .nan
    | cs => ofDecimal? negative cs

/-- The magnitude of a decimal as a double, rounded to nearest. Exponents far
outside the range of doubles are decided without computing the power. -/
def magnitude (digits : Nat) (exponent : Int) : Float :=
  if digits = 0 then 0.0
  else
    let leading := exponent + (Nat.toDigits 10 digits).length
    if 400 < leading then 1.0 / 0.0
    else if leading < -400 then 0.0
    else if 0 ≤ exponent then Float.ofScientific digits false exponent.toNat
    else Float.ofScientific digits true (-exponent).toNat

/-- The least magnitude that rounds to no double: it is halfway between the largest
double and the power of two after it. -/
def doubleBound : Nat := (Nat.pow 2 54 - 1) * Nat.pow 2 970

/-- Whether the magnitude of a decimal rounds to a double. Its leading digit tells,
unless that stands just where the one of the bound does. -/
def isFinite (digits : Nat) (exponent : Int) : Bool :=
  let leading := exponent + (Nat.toDigits 10 digits).length
  if digits = 0 ∨ leading < 309 then true
  else if 309 < leading then false
  else if 0 ≤ exponent then digits * Nat.pow 10 exponent.toNat < doubleBound
  else digits < doubleBound * Nat.pow 10 (-exponent).toNat

/-- Whether a number is within the limits: 128 bits for an integer, signed or not,
and a finite double for a decimal. -/
def fits : Number → Bool
  | .integer i => -(Nat.pow 2 127 : Nat) ≤ i ∧ i < integerBound
  | .decimal _ digits exponent => isFinite digits exponent
  | .infinity _ => true
  | .nan => true

/-- Whether a number is one that the format promises: an integer is one of 64 bits
with its sign. -/
def isPortable : Number → Bool
  | .integer i => -(Nat.pow 2 63 : Nat) ≤ i ∧ i < (Nat.pow 2 63 : Nat)
  | _ => true

/-- The number that a token stands for. -/
def ofToken? (cs : List Char) : Option Number := (unlimited? cs).filter fits

/-- The value as a double. -/
def double : Number → Float
  | .integer i => Float.ofInt i
  | .decimal negative digits exponent =>
    if negative then -(magnitude digits exponent) else magnitude digits exponent
  | .infinity negative => if negative then -(1.0 / 0.0) else 1.0 / 0.0
  | .nan => 0.0 / 0.0

end Number

end Toml

end Relink
