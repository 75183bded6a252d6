import RoutineCorpus.Int128
import RoutineCorpus.Routine.Basic

/-! # Routines on sequences

The routines ask of the elements only a zero, an addition and a test for being
less, and assume no law of them: doubles qualify, with their not-a-number that
is less than nothing. The filter-double routines keep the positive elements and
double them; the sum routines add up from the left, starting at zero. All
routines of a family go through the same loop.
-/

namespace RoutineCorpus

class Number (α : Type) where
  zero : α
  add : α → α → α
  lt : α → α → Bool

namespace Number

variable {α : Type} [Number α]

def isPositive (x : α) : Bool := lt zero x

def double (x : α) : α := add x x

end Number

instance : Number Int128 := ⟨0, (· + ·), Int128.lt⟩

instance : Number Int64 := ⟨0, (· + ·), fun x y => x < y⟩

instance : Number Int32 := ⟨0, (· + ·), fun x y => x < y⟩

instance : Number UInt64 := ⟨0, (· + ·), fun x y => x < y⟩

instance : Number Float := ⟨0.0, (· + ·), fun x y => x < y⟩

variable {α : Type} [Number α]

namespace FilterDouble

open Number

/-- Push the double of each positive element. -/
def pushDoubles (xs : List α) : List α :=
  (xs.foldl (fun out x => if isPositive x then out.push (double x) else out) #[]).toList

def processData (xs : List α) : List α := pushDoubles xs

def transformData (xs : List α) : List α := pushDoubles xs

def filterAndDouble (xs : List α) : List α := pushDoubles xs

def dataProcessorProcess (xs : List α) : List α := pushDoubles xs

def dataProcessorTransform (xs : List α) : List α := pushDoubles xs

def numberProcessorProcessNumbers (xs : List α) : List α := pushDoubles xs

def dataHelperProcess (xs : List α) : List α := pushDoubles xs

end FilterDouble

namespace Sum

open Number

def total (xs : List α) : α := xs.foldl add zero

def calculateSum (xs : List α) : α := total xs

def dataHelperSum (xs : List α) : α := total xs

end Sum

/-- What a sequence routine gives back. -/
inductive SequenceResult (α : Type) where
  | many (xs : List α)
  | one (x : α)
  deriving DecidableEq, Repr

/-- Apply a routine to a sequence, if sequences are its arguments. -/
def Routine.onSequence? (r : Routine) (xs : List α) : Option (SequenceResult α) :=
  match r with
  | .processData => some (.many (FilterDouble.processData xs))
  | .transformData => some (.many (FilterDouble.transformData xs))
  | .filterAndDouble => some (.many (FilterDouble.filterAndDouble xs))
  | .dataProcessorProcess => some (.many (FilterDouble.dataProcessorProcess xs))
  | .dataProcessorTransform => some (.many (FilterDouble.dataProcessorTransform xs))
  | .numberProcessorProcessNumbers => some (.many (FilterDouble.numberProcessorProcessNumbers xs))
  | .dataHelperProcess => some (.many (FilterDouble.dataHelperProcess xs))
  | .calculateSum => some (.one (Sum.calculateSum xs))
  | .dataHelperSum => some (.one (Sum.dataHelperSum xs))
  | _ => none

end RoutineCorpus
