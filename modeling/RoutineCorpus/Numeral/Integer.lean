/-! # Integers as decimal text

Writing is canonical: no leading zero, no `+`, no `-0`. Reading takes one
optional sign and any number of leading zeros. It goes from left to right and
stops at the first character that is no digit or takes the value out of the
given range.
-/

namespace RoutineCorpus.Numeral

/-- Why a text is not an integer of the wanted range. -/
inductive IntegerFault where
  | empty
  | invalidDigit
  | tooLarge
  | tooSmall
  deriving DecidableEq, Repr

def IntegerFault.message : IntegerFault → String
  | .empty => "cannot parse integer from empty string"
  | .invalidDigit => "invalid digit found in string"
  | .tooLarge => "number too large to fit in target type"
  | .tooSmall => "number too small to fit in target type"

def digits (n : Nat) : List Char := Nat.toDigits 10 n

/-- The canonical decimal text of an integer. -/
def decimal : Int → String
  | .ofNat n => String.ofList (digits n)
  | .negSucc n => String.ofList ('-' :: digits (n + 1))

def digitValue (c : Char) : Nat := c.toNat - '0'.toNat

/-- The number written by a list of digits. -/
def ofDigits (ds : List Char) : Nat :=
  ds.foldl (fun n c => 10 * n + digitValue c) 0

/-- Continue a non-negative number below or at `hi`. -/
def readUp (hi : Int) : Int → List Char → Except IntegerFault Int
  | v, [] => .ok v
  | v, c :: cs =>
    if c.isDigit then
      let w := v * 10 + digitValue c
      if w ≤ hi then readUp hi w cs else .error .tooLarge
    else .error .invalidDigit

/-- Continue a non-positive number above or at `lo`. -/
def readDown (lo : Int) : Int → List Char → Except IntegerFault Int
  | v, [] => .ok v
  | v, c :: cs =>
    if c.isDigit then
      let w := v * 10 - digitValue c
      if lo ≤ w then readDown lo w cs else .error .tooSmall
    else .error .invalidDigit

/-- Read an integer between `lo` and `hi`. -/
def readInteger (lo hi : Int) : List Char → Except IntegerFault Int
  | [] => .error .empty
  | ['+'] | ['-'] => .error .invalidDigit
  | '+' :: cs => readUp hi 0 cs
  | '-' :: cs => readDown lo 0 cs
  | cs => readUp hi 0 cs

def readInt64 (s : String) : Except IntegerFault Int64 :=
  Int64.ofInt <$> readInteger Int64.minValue.toInt Int64.maxValue.toInt s.toList

end RoutineCorpus.Numeral
