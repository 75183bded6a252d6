import RoutineCorpus.Input
import RoutineCorpus.Int128

/-! # Values

What a routine gives back. Values are compared as numbers, so a not-a-number
differs from itself and the two zeros of a double are the same.
-/

namespace RoutineCorpus

inductive Value where
  | sequence (elements : List Int128)
  | integer (n : Int128)
  | real (x : Float)
  deriving DecidableEq

namespace Value

def same : Value → Value → Bool
  | .sequence xs, .sequence ys => xs == ys
  | .integer m, .integer n => m == n
  | .real x, .real y => x == y
  | _, _ => false

def text : Value → String
  | .sequence xs => "[" ++ ", ".intercalate (xs.map fun x => Numeral.decimal x.toInt) ++ "]"
  | .integer n => Numeral.decimal n.toInt
  | .real x => realText x

end Value

end RoutineCorpus
