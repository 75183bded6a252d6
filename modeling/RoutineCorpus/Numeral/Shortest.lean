/-! # Shortest decimals of doubles

A finite double is a significand times a power of two, and the reals that round
to it form an interval around it. Its shortest decimal is the one in that
interval with the fewest digits and, among those, the nearest. Only the two
neighbours of the value on each decimal grid have to be tried.
-/

namespace RoutineCorpus.Numeral

/-- Which of two equally near decimals is taken. -/
inductive Tie where
  | up
  | toEven
  deriving DecidableEq, Repr

/-- The decimal `coefficient * 10 ^ exponent`. -/
structure Decimal where
  coefficient : Nat
  exponent : Int
  deriving DecidableEq, Repr

/-- The magnitude `significand * 2 ^ exponent` of a finite double. -/
structure Binary where
  significand : Nat
  exponent : Int
  deriving DecidableEq, Repr

namespace Binary

/-- The leading bit of a normal significand, `2 ^ 52`. -/
def hidden : Nat := 0x10000000000000

/-- The fields of a double, its sign bit left out. -/
def ofBits (bits : UInt64) : Binary :=
  let fraction := bits.toNat % hidden
  let biased : Nat := bits.toNat / hidden % 0x800
  if biased = 0 then ⟨fraction, -1074⟩ else ⟨hidden + fraction, (biased : Int) - 1075⟩

/-- The neighbour below is only half as far away. -/
def narrowBelow (x : Binary) : Bool :=
  x.significand = hidden && -1074 < x.exponent

end Binary

/-- The reals that round to a double, over a common denominator. The ends belong to
the interval if and only if it is closed. -/
structure Interval where
  low : Nat
  value : Nat
  high : Nat
  denominator : Nat
  closed : Bool

namespace Interval

/-- The ends lie half way to the two neighbours, a quarter of a step being the unit. -/
def ofBinary (x : Binary) : Interval :=
  let up := Nat.pow 2 (x.exponent - 2).toNat
  { low := (4 * x.significand - if x.narrowBelow then 1 else 2) * up
    value := 4 * x.significand * up
    high := (4 * x.significand + 2) * up
    denominator := Nat.pow 2 (2 - x.exponent).toNat
    closed := x.significand % 2 = 0 }

/-- The same reals divided by `10 ^ k`. -/
def scale (i : Interval) (k : Int) : Interval :=
  let up := Nat.pow 10 (-k).toNat
  { low := i.low * up
    value := i.value * up
    high := i.high * up
    denominator := i.denominator * Nat.pow 10 k.toNat
    closed := i.closed }

def contains (i : Interval) (d : Nat) : Bool :=
  let n := d * i.denominator
  if i.closed then i.low ≤ n && n ≤ i.high else i.low < n && n < i.high

/-- The exponent of the leading decimal digit of the value. -/
def leading (i : Interval) : Int :=
  if i.denominator ≤ i.value then
    (Nat.toDigits 10 (i.value / i.denominator)).length - 1
  else
    -(Nat.toDigits 10 ((i.denominator - 1) / i.value)).length

/-- The nearest whole number in the interval, if one of the value's two neighbours is. -/
def nearest? (tie : Tie) (i : Interval) : Option Nat :=
  let below := i.value / i.denominator
  match i.contains below, i.contains (below + 1) with
  | false, false => none
  | true, false => some below
  | false, true => some (below + 1)
  | true, true =>
    let twice := 2 * i.value
    let middle := (2 * below + 1) * i.denominator
    if twice < middle then some below
    else if middle < twice then some (below + 1)
    else match tie with
      | .up => some (below + 1)
      | .toEven => some (if below % 2 = 0 then below else below + 1)

end Interval

/-- Drop the zeros at the end of the coefficient, of which there are at most `fuel`. -/
def Decimal.trim : Nat → Decimal → Decimal
  | 0, d => d
  | fuel + 1, d =>
    if d.coefficient % 10 = 0 then Decimal.trim fuel ⟨d.coefficient / 10, d.exponent + 1⟩ else d

/-- Seventeen digits tell any two doubles apart. -/
def maxDigits : Nat := 17

/-- The shortest decimal that rounds to a positive double. -/
def shortest (tie : Tie) (x : Binary) : Decimal :=
  let i := Interval.ofBinary x
  let top := i.leading
  let found := (List.range maxDigits).findSome? fun (n : Nat) =>
    let grid := top - n
    (Interval.nearest? tie (i.scale grid)).map fun d => (⟨d, grid⟩ : Decimal)
  (found.getD ⟨0, 0⟩).trim maxDigits

end RoutineCorpus.Numeral
