import RoutineCorpus.Session
import RoutineCorpus.Settings.Basic

/-! # Agreement of the duplicated routines

All members of a family are run on the same inputs, in one session. On each
input the first value obtained is the reference: a later member that gives
another value is a mismatch, and a member that gives none is a failure.
-/

namespace RoutineCorpus

structure Mismatch where
  routine : Routine
  input : Input
  expected : Value
  actual : Value
  deriving DecidableEq

structure Failure where
  routine : Routine
  input : Input
  error : String
  deriving DecidableEq

structure FamilyCheck where
  family : Family
  members : List Routine
  inputsChecked : Nat
  mismatches : List Mismatch
  failures : List Failure
  deriving DecidableEq

def FamilyCheck.passed (c : FamilyCheck) : Bool :=
  c.mismatches.isEmpty && c.failures.isEmpty

structure CheckReport where
  families : List FamilyCheck
  skipped : List Family
  deriving DecidableEq

namespace CheckReport

def passed (r : CheckReport) : Bool := r.families.all (·.passed)

def failedFamilies (r : CheckReport) : Nat := r.families.countP (!·.passed)

end CheckReport

/-- The answers of routines on one input. -/
structure Answers where
  input : Input
  answers : List (Routine × Except Error Value)

namespace Answers

/-- The values that differ from the reference, or from the first value if there is none yet. -/
def mismatchesFrom (x : Input) : Option Value → List (Routine × Except Error Value) → List Mismatch
  | _, [] => []
  | reference, (_, .error _) :: rest => mismatchesFrom x reference rest
  | none, (_, .ok v) :: rest => mismatchesFrom x (some v) rest
  | some v, (r, .ok w) :: rest =>
    if v.same w then mismatchesFrom x (some v) rest
    else ⟨r, x, v, w⟩ :: mismatchesFrom x (some v) rest

def mismatches (a : Answers) : List Mismatch := mismatchesFrom a.input none a.answers

def failures (a : Answers) : List Failure :=
  a.answers.filterMap fun
    | (r, .error e) => some ⟨r, a.input, e.message⟩
    | (_, .ok _) => none

end Answers

namespace Session

section Each

variable {α β : Type}

/-- Take a step, hand the session on and put the answer after those collected so far. -/
def collect (step : Session → α → β × Session) (acc : Array β × Session) (x : α) :
    Array β × Session :=
  let (b, s) := step acc.2 x
  (acc.1.push b, s)

/-- Take a step for each element in turn. -/
def each (step : Session → α → β × Session) (s : Session) (xs : List α) : List β × Session :=
  let (out, s) := xs.foldl (collect step) (#[], s)
  (out.toList, s)

variable (step : Session → α → β × Session)

theorem foldl_collect (xs : List α) (acc : Array β × Session) :
    xs.foldl (collect step) acc =
      (acc.1 ++ (each step acc.2 xs).1.toArray, (each step acc.2 xs).2) := by
  induction xs generalizing acc with
  | nil => simp [each]
  | cons x xs ih =>
    have h := ih (collect step (#[], acc.2) x)
    have e : each step acc.2 (x :: xs) =
        ((step acc.2 x).1 :: (each step (step acc.2 x).2 xs).1,
          (each step (step acc.2 x).2 xs).2) := by
      conv => lhs; rw [each, List.foldl_cons, h]
      simp [collect]
    rw [List.foldl_cons, ih, e]
    simp [collect]

@[simp] theorem each_nil (s : Session) : each step s [] = ([], s) := rfl

@[simp] theorem each_cons (s : Session) (x : α) (xs : List α) :
    each step s (x :: xs) =
      ((step s x).1 :: (each step (step s x).2 xs).1, (each step (step s x).2 xs).2) := by
  rw [each, List.foldl_cons, foldl_collect]
  simp [collect]

end Each

/-- Apply several routines to one input. -/
def evaluateAll (s : Session) (rs : List Routine) (x : Input) : Answers × Session :=
  let (answers, s) := s.each (fun s r => let (answer, s) := s.evaluate r x; ((r, answer), s)) rs
  (⟨x, answers⟩, s)

/-- Compare the members of a family on the given inputs. -/
def verifyFamily (s : Session) (f : Family) (xs : List Input) : FamilyCheck × Session :=
  let (all, s) := s.each (fun s x => s.evaluateAll f.members x) xs
  ({ family := f
     members := f.members
     inputsChecked := xs.length
     mismatches := all.flatMap Answers.mismatches
     failures := all.flatMap Answers.failures }, s)

end Session

namespace Settings

/-- The inputs on which a family is checked. There are none for pairs. -/
def sampleInputs (s : Settings) (f : Family) : List Input :=
  match f.shape with
  | .sequence => s.checkSequences.map .sequence
  | .integer => (List.range (s.checkMaxN.toNat + 1)).map fun n => .integer (.ofNat n)
  | .pair => []

/-- Check every duplicated family that is not excluded, all in one session. -/
def verify (s : Settings) : CheckReport :=
  let duplicated := Family.all.filter (·.duplicated)
  let (skipped, included) := duplicated.partition (s.exclude.contains ·)
  let session : Session := { fibonacciLimit := s.fibonacciLimit }
  let (checks, _) := session.each (fun session f => session.verifyFamily f (s.sampleInputs f)) included
  ⟨checks, skipped⟩

end Settings

end RoutineCorpus
