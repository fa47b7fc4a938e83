/-!
# Dates and times in TOML

A moment is a date, a time of day, both, or both with an offset from universal
time. It is read from the characters of one token, in which a date and a time may
be joined by a letter `T` in either case or by a blank; seconds may be left out. A
field out of its range makes the token no moment at all, and a day has to exist in
its month and year.

A moment is written in one way only (`Moment.text`): with a capital `T`, with
seconds, and with a fraction only where it is not zero.
-/

namespace Relink

namespace Toml

/-- A day of a year. -/
structure Date where
  /-- The year, of four digits. -/
  year : Nat
  /-- The month, from one. -/
  month : Nat
  /-- The day of the month, from one. -/
  day : Nat
deriving DecidableEq

/-- A time of day. -/
structure Time where
  /-- The hour, below 24. -/
  hour : Nat
  /-- The minute, below 60. -/
  minute : Nat
  /-- The second, at most 60. -/
  second : Nat
  /-- The nanoseconds. -/
  nanosecond : Nat
deriving DecidableEq

/-- How far a local time is from universal time. -/
inductive Offset where
  /-- Not at all. -/
  | zulu
  /-- Ahead of it, or behind it, by a number of minutes. -/
  | minutes (behind : Bool) (count : Nat)
deriving DecidableEq

/-- A point in time, or a part of what is needed to tell one. -/
inductive Moment where
  /-- A day. -/
  | date (d : Date)
  /-- A time of day. -/
  | time (t : Time)
  /-- A time on a day. -/
  | dateTime (d : Date) (t : Time)
  /-- A time on a day at a place. -/
  | offsetDateTime (d : Date) (t : Time) (o : Offset)
deriving DecidableEq

/-! ### Reading -/

/-- The value of a decimal digit. -/
def decimalDigit? (c : Char) : Option Nat :=
  if '0' ≤ c ∧ c ≤ '9' then some (c.toNat - 48) else none

/-- Reads a field of as many digits as the first argument says. -/
def readField : Nat → Nat → List Char → Option (Nat × List Char)
  | 0, n, cs => some (n, cs)
  | _ + 1, _, [] => none
  | width + 1, n, c :: cs => (decimalDigit? c).bind fun d => readField width (10 * n + d) cs

/-- Reads the given character. -/
def readChar (c : Char) : List Char → Option (List Char)
  | [] => none
  | d :: cs => if d = c then some cs else none

/-- The days of a month. -/
def daysIn (year month : Nat) : Nat :=
  if month = 2 then
    if year % 4 = 0 ∧ (year % 100 ≠ 0 ∨ year % 400 = 0) then 29 else 28
  else if month = 4 ∨ month = 6 ∨ month = 9 ∨ month = 11 then 30
  else 31

/-- Reads a date. -/
def readDate (cs : List Char) : Option (Date × List Char) := do
  let (year, cs) ← readField 4 0 cs
  let cs ← readChar '-' cs
  let (month, cs) ← readField 2 0 cs
  let cs ← readChar '-' cs
  let (day, cs) ← readField 2 0 cs
  if 1 ≤ month ∧ month ≤ 12 ∧ 1 ≤ day ∧ day ≤ daysIn year month then
    some (⟨year, month, day⟩, cs)
  else none

/-- The value of the digits after the point of a second, in nanoseconds; digits
past the ninth are dropped. -/
def nanoseconds (ds : List Char) : Nat :=
  ((ds ++ List.replicate 9 '0').take 9).foldl (fun n c => 10 * n + (c.toNat - 48)) 0

/-- Reads the fraction of a second, if there is one. -/
def readNanoseconds (cs : List Char) : Option (Nat × List Char) :=
  match cs with
  | '.' :: cs =>
    let ds := cs.takeWhile (fun c => (decimalDigit? c).isSome)
    if ds.isEmpty then none else some (nanoseconds ds, cs.drop ds.length)
  | cs => some (0, cs)

/-- Reads seconds with their fraction, if there are any. -/
def readSeconds (cs : List Char) : Option (Nat × Nat × List Char) :=
  match cs with
  | ':' :: cs => do
    let (second, cs) ← readField 2 0 cs
    let (nanosecond, cs) ← readNanoseconds cs
    some (second, nanosecond, cs)
  | cs => some (0, 0, cs)

/-- Reads a time of day. -/
def readTime (cs : List Char) : Option (Time × List Char) := do
  let (hour, cs) ← readField 2 0 cs
  let cs ← readChar ':' cs
  let (minute, cs) ← readField 2 0 cs
  let (second, nanosecond, cs) ← readSeconds cs
  if hour ≤ 23 ∧ minute ≤ 59 ∧ second ≤ 60 then some (⟨hour, minute, second, nanosecond⟩, cs)
  else none

/-- Reads the hours and minutes of an offset. -/
def readOffsetMinutes (behind : Bool) (cs : List Char) : Option (Offset × List Char) := do
  let (hour, cs) ← readField 2 0 cs
  let cs ← readChar ':' cs
  let (minute, cs) ← readField 2 0 cs
  if hour ≤ 23 ∧ minute ≤ 59 then some (.minutes behind (60 * hour + minute), cs) else none

/-- Reads an offset. -/
def readOffset (cs : List Char) : Option (Offset × List Char) :=
  match cs with
  | 'Z' :: cs => some (.zulu, cs)
  | 'z' :: cs => some (.zulu, cs)
  | '+' :: cs => readOffsetMinutes false cs
  | '-' :: cs => readOffsetMinutes true cs
  | _ => none

/-- The moment of a date and the characters after it. -/
def Moment.afterDate (d : Date) (cs : List Char) : Option Moment :=
  match cs with
  | [] => some (.date d)
  | c :: cs =>
    if c = 'T' ∨ c = 't' ∨ c = ' ' then
      match readTime cs with
      | some (t, []) => some (.dateTime d t)
      | some (t, cs) =>
        match readOffset cs with
        | some (o, []) => some (.offsetDateTime d t o)
        | _ => none
      | none => none
    else none

/-- The moment that a token stands for. -/
def Moment.ofToken? (cs : List Char) : Option Moment :=
  match readDate cs with
  | some (d, cs) => Moment.afterDate d cs
  | none =>
    match readTime cs with
    | some (t, []) => some (.time t)
    | _ => none

/-! ### Writing -/

/-- A number in a field of a width. -/
def field (width n : Nat) : String :=
  let ds := Nat.toDigits 10 n
  String.ofList (List.replicate (width - ds.length) '0' ++ ds)

/-- A date, year first. -/
def Date.text (d : Date) : String :=
  field 4 d.year ++ "-" ++ field 2 d.month ++ "-" ++ field 2 d.day

/-- The fraction of a second, without zeros at its end. -/
def fractionText (nanosecond : Nat) : String :=
  if nanosecond = 0 then ""
  else
    let ds := (field 9 nanosecond).toList
    String.ofList ('.' :: (ds.reverse.dropWhile (· == '0')).reverse)

/-- A time of day, with its seconds. -/
def Time.text (t : Time) : String :=
  field 2 t.hour ++ ":" ++ field 2 t.minute ++ ":" ++ field 2 t.second ++ fractionText t.nanosecond

/-- An offset. -/
def Offset.text : Offset → String
  | .zulu => "Z"
  | .minutes behind n =>
    (if behind ∧ n ≠ 0 then "-" else "+") ++ field 2 (n / 60) ++ ":" ++ field 2 (n % 60)

/-- A moment. -/
def Moment.text : Moment → String
  | .date d => d.text
  | .time t => t.text
  | .dateTime d t => d.text ++ "T" ++ t.text
  | .offsetDateTime d t o => d.text ++ "T" ++ t.text ++ o.text

end Toml

end Relink
