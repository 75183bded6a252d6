import RoutineCorpus.Numeral.Real
import RoutineCorpus.Routine.Basic

/-! # Inputs

What a routine is applied to, and how it is read from command-line arguments:
any number of integers for a sequence, exactly one for an integer, exactly two
doubles for a pair. The first argument that cannot be read decides the fault.
-/

namespace RoutineCorpus

inductive Input where
  | sequence (elements : List Int64)
  | integer (n : Int64)
  | pair (left right : Float)
  deriving DecidableEq

/-- Why arguments or an input do not suit a routine. -/
inductive InputFault where
  | notAnInteger (argument : String) (fault : Numeral.IntegerFault)
  | notANumber (argument : String) (fault : Numeral.RealFault)
  | expectedOne (count : Nat)
  | expectedTwo (count : Nat)
  | wrongShape (expected actual : Shape)
  deriving DecidableEq, Repr

def InputFault.message : InputFault → String
  | .notAnInteger a e => s!"'{a}' is not an integer: {e.message}"
  | .notANumber a e => s!"'{a}' is not a number: {e.message}"
  | .expectedOne k => s!"expected exactly one integer, got {Numeral.decimal k} arguments"
  | .expectedTwo k => s!"expected exactly two numbers, got {Numeral.decimal k} arguments"
  | .wrongShape e a => s!"expected {e.name} input, got {a.name}"

/-- A double as a person reads it: no exponent, and no point in a whole number. -/
def realText (x : Float) : String :=
  if x.isNaN then "NaN"
  else if x.isInf then (if x < 0 then "-inf" else "inf")
  else Numeral.Layout.plain.write x

namespace Input

def shape : Input → Shape
  | .sequence _ => .sequence
  | .integer _ => .integer
  | .pair _ _ => .pair

def text : Input → String
  | .sequence xs => ", ".intercalate (xs.map fun x => Numeral.decimal x.toInt)
  | .integer n => Numeral.decimal n.toInt
  | .pair a b => s!"{realText a}, {realText b}"

def readInteger (s : String) : Except InputFault Int64 :=
  (Numeral.readInt64 s).mapError (.notAnInteger s)

def readReal (s : String) : Except InputFault Float :=
  (Numeral.readReal s).mapError (.notANumber s)

/-- Read the arguments of a routine of the given shape. -/
def read : Shape → List String → Except InputFault Input
  | .sequence, args => .sequence <$> args.mapM readInteger
  | .integer, [s] => .integer <$> readInteger s
  | .integer, args => .error (.expectedOne args.length)
  | .pair, [s, t] => do return .pair (← readReal s) (← readReal t)
  | .pair, args => .error (.expectedTwo args.length)

end Input

end RoutineCorpus
