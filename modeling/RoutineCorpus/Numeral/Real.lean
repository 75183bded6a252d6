import RoutineCorpus.Numeral.Integer
import RoutineCorpus.Numeral.Shortest

/-! # Doubles as decimal text

A `Layout` says how the shortest digits of a double are set. Reading takes an
optional sign and then a word for infinity or not-a-number, or digits with an
optional point and exponent. Numbers out of range become infinite or zero.
-/

namespace RoutineCorpus.Numeral

/-- How the digits of a double are written. -/
structure Layout where
  tie : Tie
  /-- The exponents of the leading digit that are written without an `e`. -/
  positional : Int → Bool
  /-- What follows a whole number that is written without an `e`. -/
  whole : String


namespace Layout

/-- Always positional, and whole numbers look like integers. -/
def plain : Layout where
  tie := .up
  positional := fun _ => true
  whole := ""

/-- Positional from five places after the point to sixteen before it, with a point always. -/
def pointed : Layout where
  tie := .toEven
  positional := fun e => -5 ≤ e && e ≤ 15
  whole := ".0"

def zeros (n : Nat) : List Char := List.replicate n '0'

def place (l : Layout) (d : Decimal) (ds : List Char) : String :=
  let e := ds.length - 1 + d.exponent
  if 0 ≤ d.exponent then
    String.ofList (ds ++ zeros d.exponent.toNat) ++ l.whole
  else if 0 ≤ e then
    let split := e.toNat + 1
    String.ofList (ds.take split ++ '.' :: ds.drop split)
  else
    String.ofList ('0' :: '.' :: zeros (-e - 1).toNat ++ ds)

def power (ds : List Char) (e : Int) : String :=
  let mantissa := match ds with
    | c :: c' :: cs => c :: '.' :: c' :: cs
    | cs => cs
  String.ofList mantissa ++ (if e < 0 then "e" else "e+") ++ decimal e

/-- The text of a finite double. -/
def write (l : Layout) (x : Float) : String :=
  let sign := if x.toBits < 0x8000000000000000 then "" else "-"
  let b := Binary.ofBits x.toBits
  if b.significand = 0 then
    sign ++ "0" ++ l.whole
  else
    let d := shortest l.tie b
    let ds := digits d.coefficient
    let e := ds.length - 1 + d.exponent
    sign ++ if l.positional e then l.place d ds else power ds e

end Layout

/-- Why a text is not a double. -/
inductive RealFault where
  | empty
  | malformed
  deriving DecidableEq, Repr

def RealFault.message : RealFault → String
  | .empty => "cannot parse float from empty string"
  | .malformed => "invalid float literal"

/-- What a text for a double says, its sign left out. -/
inductive Literal where
  | infinite
  | nan
  | number (coefficient : Nat) (exponent : Int)
  deriving DecidableEq, Repr

namespace Literal

/-- The exponent after the digits, where there is one. -/
def exponent? : List Char → Option Int
  | [] => some 0
  | c :: cs =>
    if c = 'e' || c = 'E' then
      let (negative, ds) := match cs with
        | '+' :: ds => (false, ds)
        | '-' :: ds => (true, ds)
        | ds => (false, ds)
      if ds ≠ [] && ds.all Char.isDigit then
        some (if negative then -ofDigits ds else ofDigits ds)
      else none
    else none

/-- Digits, an optional point with more digits, an optional exponent, and one digit at least. -/
def number? (cs : List Char) : Option Literal := do
  let (whole, rest) := cs.span Char.isDigit
  let (fraction, rest) := match rest with
    | '.' :: rest => rest.span Char.isDigit
    | rest => ([], rest)
  let e ← exponent? rest
  if whole ++ fraction = [] then none
  else some (.number (ofDigits (whole ++ fraction)) (e - fraction.length))

def ofUnsigned? (cs : List Char) : Option Literal :=
  let lower := cs.map Char.toLower
  if lower = "inf".toList || lower = "infinity".toList then some .infinite
  else if lower = "nan".toList then some .nan
  else number? cs

/-- The double nearest to a literal. Every decimal from `10 ^ 310` on is infinite and every
decimal below `10 ^ -330` is zero. -/
def toFloat : Literal → Float
  | .infinite => 1.0 / 0.0
  | .nan => 0.0 / 0.0
  | .number 0 _ => 0.0
  | .number c e =>
    let top := (digits c).length + e
    if 310 < top then 1.0 / 0.0
    else if top < -330 then 0.0
    else Float.ofScientific c (e < 0) e.natAbs

end Literal

/-- Read a double. -/
def readReal (s : String) : Except RealFault Float :=
  let signed (negative : Bool) (cs : List Char) : Except RealFault Float :=
    match Literal.ofUnsigned? cs with
    | none => .error .malformed
    | some l => .ok (if negative then -l.toFloat else l.toFloat)
  match s.toList with
  | [] => .error .empty
  | '+' :: cs => signed false cs
  | '-' :: cs => signed true cs
  | cs => signed false cs

end RoutineCorpus.Numeral
