import RoutineCorpus.Routine.Basic

/-! # Settings

The settings in force are built up in layers. A layer gives some of the fields
and a later layer replaces what an earlier one gave, field by field. Overrides
come last; they replace the two numbers but add to the excluded families.
-/

namespace RoutineCorpus

structure Settings where
  /-- The largest index at which a Fibonacci routine may be run. -/
  fibonacciLimit : UInt32 := 30
  /-- Integer families are checked from zero up to this number. -/
  checkMaxN : UInt32 := 10
  /-- Sequence families are checked on these. -/
  checkSequences : List (List Int64) := [[], [1, 2, 3], [-1, 0, 5, -7, 3], [0, -4]]
  /-- Families left out of a check. -/
  exclude : List Family := []
  /-- The directory the settings were looked for in. -/
  root : String := "."
  deriving DecidableEq, Repr

/-- What one source of settings gives. -/
structure Layer where
  fibonacciLimit : Option UInt32 := none
  checkMaxN : Option UInt32 := none
  checkSequences : Option (List (List Int64)) := none
  exclude : Option (List Family) := none
  deriving DecidableEq, Repr

structure Overrides where
  fibonacciLimit : Option UInt32 := none
  checkMaxN : Option UInt32 := none
  exclude : List Family := []
  deriving DecidableEq, Repr

namespace Settings

def applyLayer (s : Settings) (l : Layer) : Settings :=
  { s with
    fibonacciLimit := l.fibonacciLimit.getD s.fibonacciLimit
    checkMaxN := l.checkMaxN.getD s.checkMaxN
    checkSequences := l.checkSequences.getD s.checkSequences
    exclude := l.exclude.getD s.exclude }

/-- Add a family at the end, unless it is there. -/
def addFamily (fs : List Family) (f : Family) : List Family :=
  if f ∈ fs then fs else fs ++ [f]

def applyOverrides (s : Settings) (o : Overrides) : Settings :=
  { s with
    fibonacciLimit := o.fibonacciLimit.getD s.fibonacciLimit
    checkMaxN := o.checkMaxN.getD s.checkMaxN
    exclude := o.exclude.foldl addFamily s.exclude }

end Settings

end RoutineCorpus
