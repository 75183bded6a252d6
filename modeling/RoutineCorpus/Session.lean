import RoutineCorpus.Routine.Scalar
import RoutineCorpus.Routine.Sequence
import RoutineCorpus.Value

/-! # Sessions

A session runs routines one after another. It keeps the table of factorials
from one call to the next and holds the largest index at which a Fibonacci
routine may be run. A call that fails leaves the session as it was.
-/

namespace RoutineCorpus

structure Session where
  fibonacciLimit : UInt32
  factorials : Factorial.Table := .empty

/-- One call that succeeded. -/
structure Evaluation where
  routine : Routine
  input : Input
  output : Value
  deriving DecidableEq

namespace Session

/-- The number of factorials in the table. -/
def cached (s : Session) : Nat := s.factorials.size

/-- A Fibonacci routine may not be run at this index. -/
def exceeds (s : Session) (r : Routine) (n : Int64) : Bool :=
  r.family = .fibonacci && (s.fibonacciLimit.toNat : Int) < n.toInt

/-- Apply a routine to an input. -/
def evaluate (s : Session) (r : Routine) (x : Input) : Except Error Value × Session :=
  let misshapen : Except Error Value := .error (.invalidInput r (.wrongShape r.shape x.shape))
  match x with
  | .sequence xs =>
    match r.onSequence? (xs.map Int128.ofInt64) with
    | some (.many ys) => (.ok (.sequence ys), s)
    | some (.one y) => (.ok (.integer y), s)
    | none => (misshapen, s)
  | .integer n =>
    if s.exceeds r n then (.error (.inputTooLarge r n s.fibonacciLimit), s)
    else match r.onInteger? s.factorials n with
      | some (answer, t) => (answer.map .integer, { s with factorials := t })
      | none => (misshapen, s)
  | .pair a b =>
    match r.onPair? a b with
    | some answer => (answer.map .real, s)
    | none => (misshapen, s)

/-- Read the arguments of a routine and apply it. -/
def run (s : Session) (r : Routine) (args : List String) : Except Error Evaluation × Session :=
  match Input.read r.shape args with
  | .error fault => (.error (.invalidInput r fault), s)
  | .ok x =>
    let (answer, s) := s.evaluate r x
    (answer.map fun v => ⟨r, x, v⟩, s)

end Session

end RoutineCorpus
