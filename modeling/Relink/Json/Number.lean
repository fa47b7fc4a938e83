import Relink.Decimal.Shortest

/-!
# JSON numbers

A number is read as an integer where 64 bits hold it and as a double otherwise;
minus zero, which no integer is, counts as a double too. A double is kept as the
decimal that was read, since nothing but a message ever asks for its value.

Not every digit of a long number is kept. The significand takes up digits for as
long as it fits in 64 bits. Whole digits after that only raise the exponent, and
digits of the fraction are dropped. The value of the decimal is then the
significand, as a double, times or divided by a power of ten, in double
arithmetic; a number whose value is infinite is out of range.
-/

namespace Relink

namespace Json

/-- A number as it is written. -/
structure Literal where
  /-- There is a minus sign. -/
  negative : Bool
  /-- The digits before the point. -/
  whole : List Nat
  /-- The digits after the point, if there is one. -/
  fraction : Option (List Nat)
  /-- The sign and the digits of the exponent, if there is one. -/
  exponent : Option (Bool × List Nat)
deriving DecidableEq

/-- A number as it is understood. -/
inductive Number where
  /-- An integer of 64 bits, signed if it is negative. -/
  | integer (i : Int)
  /-- A decimal, `significand * 10 ^ exponent` up to its sign. -/
  | decimal (negative : Bool) (significand : Nat) (exponent : Int)
deriving DecidableEq

namespace Number

/-- Takes up digits for as long as the significand fits in 64 bits; gives it with
the digits that are left. -/
def absorb : Nat → List Nat → Nat × List Nat
  | n, [] => (n, [])
  | n, d :: ds => if 10 * n + d < Nat.pow 2 64 then absorb (10 * n + d) ds else (n, d :: ds)

/-- A digit sequence as a number, or the limit if it makes a larger one. -/
def ofDigitsUpTo (limit : Nat) (ds : List Nat) : Nat :=
  ds.foldl (fun n d => min (10 * n + d) limit) 0

/-- The powers of ten that are in the range of doubles, in order. -/
def powersOfTen : Array Float := (Array.range 309).map (Float.ofScientific 1 false)

/-- A power of ten, as a double. -/
def tenTo (n : Nat) : Float := powersOfTen.getD n (1.0 / 0.0)

/-- Divides a double by a power of ten, in steps that a double can hold. -/
def divideTenTo : Nat → Float → Nat → Float
  | 0, x, _ => x
  | fuel + 1, x, n =>
    if n ≤ 308 then x / tenTo n
    else if x == 0 then x
    else divideTenTo fuel (x / tenTo 308) (n - 308)

/-- The magnitude of a decimal as a double; infinite if it is out of range. -/
def magnitude (significand : Nat) (exponent : Int) : Float :=
  let x := (UInt64.ofNat significand).toFloat
  if 308 < exponent then if significand = 0 then x else 1.0 / 0.0
  else if 0 ≤ exponent then x * tenTo exponent.toNat
  else divideTenTo 4 x (-exponent).toNat

/-- The value of a decimal as a double. -/
def double (negative : Bool) (significand : Nat) (exponent : Int) : Float :=
  if negative then -(magnitude significand exponent) else magnitude significand exponent

/-- The decimal as a number, unless it is out of range. -/
def ofDecimal? (negative : Bool) (significand : Nat) (exponent : Int) : Option Number :=
  if (magnitude significand exponent).isInf then none
  else some (.decimal negative significand exponent)

/-- The largest exponent that is taken at its word. -/
def exponentLimit : Nat := Nat.pow 2 31 - 1

/-- A decimal with an exponent on top of the one that its point stands for. An
exponent past the limit makes the number zero or puts it out of range. -/
def withExponent? (negative : Bool) (significand : Nat) (exponent : Int) :
    Option (Bool × List Nat) → Option Number
  | none => ofDecimal? negative significand exponent
  | some (down, ds) =>
    let e := ofDigitsUpTo (exponentLimit + 1) ds
    if e ≤ exponentLimit then
      ofDecimal? negative significand (if down then exponent - e else exponent + e)
    else if significand = 0 ∨ down then some (.decimal negative 0 0)
    else none

/-- The number that a literal stands for, unless it is out of range. -/
def ofLiteral? (l : Literal) : Option Number :=
  let (n, beyond) := absorb 0 l.whole
  match l.fraction, l.exponent with
  | none, none =>
    if beyond.isEmpty ∧ ¬ l.negative then some (.integer n)
    else if beyond.isEmpty ∧ n ≠ 0 ∧ n ≤ Nat.pow 2 63 then some (.integer (-n))
    else ofDecimal? l.negative n beyond.length
  | fraction, exponent =>
    let (m, dropped) := absorb n (fraction.getD [])
    let places := (fraction.getD []).length - dropped.length
    withExponent? l.negative m ((beyond.length : Int) - places) exponent

/-- How doubles are written: without an exponent if the leading digit is between
the fifth place after the point and the sixteenth before it. A tie goes to the even
digit. -/
def style : Decimal.Style := ⟨fun lead => -5 ≤ lead && lead ≤ 15, .even, ['+']⟩

end Number

end Json

end Relink
