/-!
# Shortest decimals

Among the decimals that read back as a given double there are shortest ones, and
the nearest of those is how the double is written; formats differ in which of two
equally near ones they take (`Tie`). The search goes through the
grids of one digit, two digits, up to seventeen, which always suffice: on each
grid the only candidates are the two neighbours of the exact value, since if any
point of a grid reads back, one of these does.

All of this is exact arithmetic on natural numbers. A double is `mantissa` times a
power of two; the reals that read back as it are those between the midpoints to
its two neighbours, ends included when the mantissa is even.
-/

namespace Relink

namespace Decimal

/-- A positive real number given by exact integers: `mantissa * 2 ^ exponent`. -/
structure Dyadic where
  /-- The mantissa, below `2 ^ 53`. -/
  mantissa : Nat
  /-- The power of two that it is multiplied with. -/
  exponent : Int
deriving DecidableEq

/-- A decimal: `digits * 10 ^ exponent`. -/
structure Point where
  /-- The digits as one number. -/
  digits : Nat
  /-- The power of ten of the last digit. -/
  exponent : Int
deriving DecidableEq

/-- The magnitude of a finite double, from its bits. -/
def Dyadic.ofBits (bits : Nat) : Dyadic :=
  let fraction : Nat := bits % Nat.pow 2 52
  let biased : Nat := bits / Nat.pow 2 52 % Nat.pow 2 11
  if biased = 0 then ⟨fraction, -1074⟩ else ⟨Nat.pow 2 52 + fraction, (biased : Int) - 1075⟩

/-- The interval of the reals that read back as a double, and the double itself,
over one denominator. -/
structure Interval where
  /-- The lower end. -/
  low : Nat
  /-- The double. -/
  value : Nat
  /-- The upper end. -/
  high : Nat
  /-- What the three are to be divided by. -/
  denominator : Nat
  /-- Whether the ends belong to the interval. -/
  closed : Bool

/-- The interval of a double. Below a power of two the neighbours are twice as
close as above it. -/
def Dyadic.interval (d : Dyadic) : Interval :=
  let m := d.mantissa
  let e := d.exponent - 2
  let below := if m = Nat.pow 2 52 ∧ d.exponent ≠ -1074 then 1 else 2
  let up := Nat.pow 2 e.toNat
  ⟨(4 * m - below) * up, 4 * m * up, (4 * m + 2) * up, Nat.pow 2 (-e).toNat, m % 2 == 0⟩

/-- How often `b` has to grow tenfold until it is larger than `a`. -/
def tenfolds : Nat → Nat → Nat → Nat
  | 0, _, _ => 0
  | fuel + 1, a, b => if a < b then 0 else tenfolds fuel a (10 * b) + 1

/-- The power of ten of the leading digit. -/
def Interval.leading (i : Interval) : Int :=
  if i.denominator ≤ i.value then (tenfolds 400 i.value i.denominator : Int) - 1
  else -(tenfolds 400 (i.denominator - 1) i.value : Int)

/-- Which of two neighbours on a grid is taken if they are equally near. -/
inductive Tie where
  /-- The one whose last digit is even. -/
  | even
  /-- The larger one. -/
  | up
deriving DecidableEq

/-- The neighbour that is taken if `below` and the one above it are equally near. -/
def Tie.choose (t : Tie) (below : Nat) : Nat :=
  match t with
  | .even => if below % 2 = 0 then below else below + 1
  | .up => below + 1

/-- The point of the grid with unit `10 ^ unit` that reads back, if there is one;
of two, the nearer. -/
def Interval.onGrid (i : Interval) (tie : Tie) (unit : Int) : Option Point :=
  let a := Nat.pow 10 (-unit).toNat
  let b := i.denominator * Nat.pow 10 unit.toNat
  let below := i.value * a / b
  let isIn (d : Nat) : Bool :=
    if i.closed then i.low * a ≤ d * b && d * b ≤ i.high * a
    else i.low * a < d * b && d * b < i.high * a
  let gapBelow := i.value * a - below * b
  let gapAbove := (below + 1) * b - i.value * a
  let nearer :=
    if gapBelow < gapAbove then below
    else if gapAbove < gapBelow then below + 1
    else tie.choose below
  let further := if nearer = below then below + 1 else below
  if isIn nearer then some ⟨nearer, unit⟩
  else if isIn further then some ⟨further, unit⟩
  else none

/-- The point on the first grid that has one, counting digits from `n` on. -/
def Interval.search (i : Interval) (tie : Tie) : Nat → Nat → Point
  | 0, n => ⟨i.value * Nat.pow 10 n / i.denominator, -(n : Int)⟩
  | fuel + 1, n =>
    match i.onGrid tie (i.leading - n) with
    | some p => p
    | none => i.search tie fuel (n + 1)

/-- A decimal without zeros at its end. -/
def Point.stripZeros : Nat → Point → Point
  | 0, p => p
  | fuel + 1, p =>
    if p.digits ≠ 0 ∧ p.digits % 10 = 0 then stripZeros fuel ⟨p.digits / 10, p.exponent + 1⟩ else p

/-- The nearest of the shortest decimals that read back as the number. -/
def Dyadic.shortest (d : Dyadic) (tie : Tie) : Point := (d.interval.search tie 17 0).stripZeros 20

/-- How the texts of doubles look in a format. -/
structure Style where
  /-- Whether a number whose leading digit has this power of ten is written
  without an exponent. -/
  positional : Int → Bool
  /-- Which of two equally near decimals is written. -/
  tie : Tie
  /-- What stands before an exponent that is not negative. -/
  plus : List Char

/-- The digits of a number, in ten. -/
def digitsOf (n : Nat) : List Char := Nat.toDigits 10 n

/-- A decimal in a style. There is always a point in a number that is written
without an exponent. -/
def Style.write (s : Style) (p : Point) : List Char :=
  let ds := digitsOf p.digits
  let lead : Int := p.exponent + ds.length - 1
  if s.positional lead then
    if 0 ≤ p.exponent then ds ++ List.replicate p.exponent.toNat '0' ++ ['.', '0']
    else if 0 ≤ lead then ds.take (lead.toNat + 1) ++ '.' :: ds.drop (lead.toNat + 1)
    else '0' :: '.' :: List.replicate (-lead - 1).toNat '0' ++ ds
  else
    let fraction := ds.drop 1
    ds.take 1 ++ (if fraction.isEmpty then [] else '.' :: fraction) ++
      'e' :: (if lead < 0 then '-' :: digitsOf (-lead).toNat else s.plus ++ digitsOf lead.toNat)

/-- A double in a style. -/
def Style.render (s : Style) (x : Float) : String :=
  if x.isNaN then "NaN"
  else
    let bits := x.toBits.toNat
    let sign := if bits / Nat.pow 2 63 = 1 then ['-'] else []
    let magnitude :=
      if x.isInf then ['i', 'n', 'f']
      else
        let d := Dyadic.ofBits bits
        if d.mantissa = 0 then ['0', '.', '0'] else s.write (d.shortest s.tie)
    String.ofList (sign ++ magnitude)

end Decimal

end Relink
