import RoutineCorpus.Int128
import RoutineCorpus.Numeral.Real
import RoutineCorpus.Toml.Value

/-! # Unquoted TOML values

Booleans, integers, floats, dates and times are words without quotes. A word
may have blanks inside, of which a date makes use. Some words are accepted as
numbers although they have no value.
-/

namespace RoutineCorpus.Toml

open Numeral

/-! ## Integers -/

def isHexDigit (c : Char) : Bool :=
  c.isDigit || ('a' ≤ c && c ≤ 'f') || ('A' ≤ c && c ≤ 'F')

def hexValue (c : Char) : Nat :=
  if c.isDigit then digitValue c else c.toLower.toNat - 'a'.toNat + 10

def ofRadix (radix : Nat) (ds : List Char) : Nat :=
  ds.foldl (fun n c => radix * n + hexValue c) 0

/-- Digits with single underscores between them, which are left out. There is one digit at least. -/
def ungroup (isDigit : Char → Bool) : List Char → Option (List Char)
  | [] => none
  | [c] => if isDigit c then some [c] else none
  | c :: '_' :: cs => if isDigit c then (ungroup isDigit cs).map (c :: ·) else none
  | c :: cs => if isDigit c then (ungroup isDigit cs).map (c :: ·) else none

/-- Decimal digits that start with a zero only if that is the only one. -/
def decimalDigits (cs : List Char) : Option (List Char) :=
  match ungroup Char.isDigit cs with
  | some ('0' :: _ :: _) => none
  | ds => ds

def radixInteger (radix : Nat) (isDigit : Char → Bool) (cs : List Char) : Option Int :=
  (ungroup isDigit cs).map fun ds => ofRadix radix ds

/-- An integer of any size. -/
def exactInteger : List Char → Option Int
  | '0' :: 'x' :: cs => radixInteger 16 isHexDigit cs
  | '0' :: 'o' :: cs => radixInteger 8 (fun c => '0' ≤ c && c ≤ '7') cs
  | '0' :: 'b' :: cs => radixInteger 2 (fun c => c = '0' || c = '1') cs
  | '+' :: cs => (decimalDigits cs).map fun ds => ofDigits ds
  | '-' :: cs => (decimalDigits cs).map fun ds => -ofDigits ds
  | cs => (decimalDigits cs).map fun ds => ofDigits ds

/-- Integers may take 128 bits, with or without a sign. -/
def integer? (cs : List Char) : Option Value :=
  (exactInteger cs).map fun n =>
    if -(Int128.size : Int) ≤ 2 * n ∧ n < Int128.size then .integer n
    else .unusable (String.ofList cs)

/-- Each underscore has a hexadecimal digit on both sides, where `c` is the character before. -/
def joinsDigits (c : Char) : List Char → Bool
  | [] => c ≠ '_'
  | d :: cs => (d ≠ '_' || isHexDigit c) && (c ≠ '_' || isHexDigit d) && joinsDigits d cs

/-- The start of a grouped decimal integer with anything after its first underscore, as long as
that and every further underscore join digits, there is no space and nothing looks like a float. -/
def looseDecimal (cs : List Char) : Bool :=
  match cs.span Char.isDigit with
  | (d :: _, '_' :: rest) =>
    d ≠ '0' && joinsDigits '_' rest && rest.all fun c => c ∉ [' ', '.', 'e', 'E']
  | _ => false

def isLoose : List Char → Bool
  | ['0', c] => c = 'x' || c = 'o' || c = 'b'
  | '+' :: cs => looseDecimal cs
  | '-' :: cs => looseDecimal cs
  | cs => looseDecimal cs

/-- Words that are accepted as integers but need not be any: a radix alone, and loose decimals. -/
def loose? (cs : List Char) : Option Value :=
  if isLoose cs then some (.unusable (String.ofList cs)) else none

/-! ## Floats -/

def exponent? : List Char → Option Int
  | c :: cs =>
    if c = 'e' || c = 'E' then
      match cs with
      | '+' :: cs => (ungroup Char.isDigit cs).map fun ds => ofDigits ds
      | '-' :: cs => (ungroup Char.isDigit cs).map fun ds => -ofDigits ds
      | cs => (ungroup Char.isDigit cs).map fun ds => ofDigits ds
    else none
  | [] => none

def inNumber (c : Char) : Bool := c.isDigit || c = '_'

/-- A whole part followed by a fraction, an exponent or both. -/
def fractional? (cs : List Char) : Option Literal := do
  let (whole, rest) := cs.span inNumber
  let whole ← decimalDigits whole
  match rest with
  | '.' :: rest =>
    let (fraction, rest) := rest.span inNumber
    let fraction ← ungroup Char.isDigit fraction
    let e ← if rest = [] then some 0 else exponent? rest
    return .number (ofDigits (whole ++ fraction)) (e - fraction.length)
  | rest => return .number (ofDigits whole) (← exponent? rest)

/-- A float without its sign. -/
def unsignedReal? (cs : List Char) : Option Literal :=
  if cs = "inf".toList then some .infinite
  else if cs = "nan".toList then some .nan
  else fractional? cs

/-- A float, after a flag that is set by a minus. -/
def signedReal? : List Char → Option (Bool × Literal)
  | '+' :: cs => (unsignedReal? cs).map (false, ·)
  | '-' :: cs => (unsignedReal? cs).map (true, ·)
  | cs => (unsignedReal? cs).map (false, ·)

/-- What is written in digits has to be in range. -/
def real? (cs : List Char) : Option Value :=
  (signedReal? cs).map fun (negative, l) =>
    let x := if negative then -l.toFloat else l.toFloat
    if x.isInf && l ≠ .infinite then .unusable (String.ofList cs) else .real x

/-! ## Dates and times -/

def daysInMonth (year month : Nat) : Nat :=
  if month = 2 then
    if year % 4 = 0 && (year % 100 ≠ 0 || year % 400 = 0) then 29 else 28
  else if month = 4 || month = 6 || month = 9 || month = 11 then 30
  else 31

/-- Two digits whose number is at most `most`. -/
def twoDigits (most : Nat) (a b : Char) : Bool :=
  a.isDigit && b.isDigit && ofDigits [a, b] ≤ most

/-- What follows a date. -/
def afterDate? : List Char → Option (List Char)
  | y₁ :: y₂ :: y₃ :: y₄ :: '-' :: m₁ :: m₂ :: '-' :: d₁ :: d₂ :: cs =>
    let year := ofDigits [y₁, y₂, y₃, y₄]
    let month := ofDigits [m₁, m₂]
    if [y₁, y₂, y₃, y₄].all Char.isDigit && twoDigits 12 m₁ m₂ && 1 ≤ month
        && twoDigits (daysInMonth year month) d₁ d₂ && 1 ≤ ofDigits [d₁, d₂] then some cs
    else none
  | _ => none

/-- What follows the seconds of a time, after their fraction if there is one. -/
def afterFraction? : List Char → Option (List Char)
  | '.' :: cs =>
    let (ds, cs) := cs.span Char.isDigit
    if ds = [] then none else some cs
  | cs => some cs

/-- What follows a time of day. The seconds may be left out; a leap second is allowed. -/
def afterTime? : List Char → Option (List Char)
  | h₁ :: h₂ :: ':' :: m₁ :: m₂ :: cs =>
    if twoDigits 23 h₁ h₂ && twoDigits 59 m₁ m₂ then
      match cs with
      | ':' :: s₁ :: s₂ :: cs => if twoDigits 60 s₁ s₂ then afterFraction? cs else none
      | cs => some cs
    else none
  | _ => none

/-- Nothing, or the distance from universal time. -/
def isOffset : List Char → Bool
  | [] | ['Z'] | ['z'] => true
  | [sign, h₁, h₂, ':', m₁, m₂] =>
    (sign = '+' || sign = '-') && twoDigits 23 h₁ h₂ && twoDigits 59 m₁ m₂
  | _ => false

def isMoment (cs : List Char) : Bool :=
  match afterDate? cs with
  | some [] => true
  | some (c :: cs) => (c = 'T' || c = 't' || c = ' ') && (afterTime? cs).any isOffset
  | none => afterTime? cs = some []

/-! ## Words -/

def isBlank (c : Char) : Bool := c = ' ' || c = '\t'

def isQuote (c : Char) : Bool := c = '"' || c = '\x27'

/-- The characters that end a word, blanks apart. -/
def delimiters : List Char := ['\r', '\n', '#', '=', ',', '[', ']', '\x7b', '\x7d']

/-- Split off a word. It goes on over blanks if more of it follows them, which may not start with a
quote. The blanks just passed are given first; where the word ends they belong to the rest. -/
def splitWord : List Char → List Char → List Char × List Char
  | blanks, [] => ([], blanks)
  | blanks, c :: cs =>
    if isBlank c then splitWord (blanks ++ [c]) cs
    else if delimiters.contains c || (!blanks.isEmpty && isQuote c) then ([], blanks ++ c :: cs)
    else
      let (word, rest) := splitWord [] cs
      (blanks ++ c :: word, rest)

def ofWord? (cs : List Char) : Option Value :=
  if cs = "true".toList then some (.boolean true)
  else if cs = "false".toList then some (.boolean false)
  else if isMoment cs then some (.moment (String.ofList cs))
  else integer? cs <|> real? cs <|> loose? cs

/-- Read an unquoted value. -/
def unquoted? (cs : List Char) : Option (Value × List Char) := do
  let (word, rest) := splitWord [] cs
  return (← ofWord? word, rest)

end RoutineCorpus.Toml
