import Std.Data.HashMap
import RoutineCorpus.Error
import RoutineCorpus.Int128

/-! # Routines on single numbers

Factorials and Fibonacci numbers are computed recursively, from one integer. Up
to `1` the factorial routines answer `1` and the Fibonacci routines the number
itself; where 128 bits cannot hold the result, each routine fails in its own
name. One factorial routine keeps every result it comes by in a table, which
lives on between calls. Arithmetic takes two doubles.
-/

namespace RoutineCorpus

theorem toInt_sub_of_le {m n : Int64} (h₀ : 0 ≤ m.toInt) (h : m.toInt ≤ n.toInt) :
    (n - m).toInt = n.toInt - m.toInt := by
  have hu := Int64.toInt_lt n
  rw [Int64.toInt_sub]
  exact Int.bmod_eq_of_le (by simp; omega) (by simp; omega)

/-- The two predecessors of a number from `2` on are in range. -/
theorem toInt_predecessors {n : Int64} (h : 2 ≤ n.toInt) :
    (n - 1).toInt = n.toInt - 1 ∧ (n - 2).toInt = n.toInt - 2 := by
  have h₁ : (1 : Int64).toInt = 1 := by decide
  have h₂ : (2 : Int64).toInt = 2 := by decide
  constructor
  · rw [toInt_sub_of_le (by omega) (by omega), h₁]
  · rw [toInt_sub_of_le (by omega) (by omega), h₂]

theorem two_le_toInt {n : Int64} (h : ¬ n ≤ 1) : 2 ≤ n.toInt := by
  rw [Int64.le_iff_toInt_le, Int64.toInt_one] at h
  omega

theorem toNat_predecessors_lt {n : Int64} (h : ¬ n ≤ 1) :
    (n - 1).toInt.toNat < n.toInt.toNat ∧ (n - 2).toInt.toNat < n.toInt.toNat := by
  have h₂ := two_le_toInt h
  obtain ⟨hp, hpp⟩ := toInt_predecessors h₂
  omega

namespace Factorial

/-- The largest number whose factorial fits into 128 bits. -/
def largest : Int64 := 33

def calculate (n : Int64) : Except Error Int128 :=
  if n ≤ 1 then .ok 1
  else if largest < n then .error (.overflow .calculateFactorial)
  else do
    let below ← calculate (n - 1)
    okOr (.overflow .calculateFactorial) ((Int128.ofInt64 n).mul? below)
termination_by n.toInt.toNat
decreasing_by exact (toNat_predecessors_lt (by assumption)).1

/-- Factorials already computed. -/
structure Table where
  entries : Std.HashMap Int64 Int128 := {}

namespace Table

def empty : Table := {}

def size (t : Table) : Nat := t.entries.size

def get? (t : Table) (n : Int64) : Option Int128 := t.entries[n]?

def insert (t : Table) (n : Int64) (v : Int128) : Table := ⟨t.entries.insert n v⟩

/-- The factorial of `n` and the table afterwards. What is in the table is not computed again. -/
def lookup (t : Table) (n : Int64) : Except Error Int128 × Table :=
  match t.get? n with
  | some v => (.ok v, t)
  | none =>
    if largest < n then (.error (.overflow .mathUtilsFactorial), t)
    else if n ≤ 1 then (.ok 1, t.insert n 1)
    else
      match lookup t (n - 1) with
      | (.error e, t) => (.error e, t)
      | (.ok below, t) =>
        match okOr (.overflow .mathUtilsFactorial) ((Int128.ofInt64 n).mul? below) with
        | .error e => (.error e, t)
        | .ok v => (.ok v, t.insert n v)
termination_by n.toInt.toNat
decreasing_by exact (toNat_predecessors_lt (by assumption)).1

end Table

end Factorial

namespace Fibonacci

/-- The index of the largest Fibonacci number that fits into 128 bits. -/
def largest : Int64 := 184

/-- The recursion of both routines. It fails in the name of the routine. -/
def recurse (r : Routine) (n : Int64) : Except Error Int128 :=
  if n ≤ 1 then .ok (.ofInt64 n)
  else if largest < n then .error (.overflow r)
  else do
    let b ← recurse r (n - 1)
    let a ← recurse r (n - 2)
    okOr (.overflow r) (b.add? a)
termination_by n.toInt.toNat
decreasing_by
  · exact (toNat_predecessors_lt (by assumption)).1
  · exact (toNat_predecessors_lt (by assumption)).2

def calculate : Int64 → Except Error Int128 := recurse .calculateFibonacci

def mathUtils : Int64 → Except Error Int128 := recurse .mathUtilsFibonacci

/-! The recursion takes exponential time, so what runs are loops with the same answers. -/

/-- Go `k` steps on from two consecutive Fibonacci numbers and take the later one. -/
def advance : Nat → Int128 → Int128 → Option Int128
  | 0, _, b => some b
  | k + 1, a, b => do advance k b (← a.add? b)

/-- The Fibonacci numbers at `k` and `k + 1`. -/
def consecutive : Nat → Option (Int128 × Int128)
  | 0 => some (0, 1)
  | k + 1 => do
    let (a, b) ← consecutive k
    return (b, ← a.add? b)

/-- What a routine answers if the numbers from index `2` on come from a loop. -/
def loop (r : Routine) (number? : Nat → Option Int128) (n : Int64) : Except Error Int128 :=
  if n ≤ 1 then .ok (.ofInt64 n)
  else if largest < n then .error (.overflow r)
  else okOr (.overflow r) (number? n.toInt.toNat)

def calculateLoop : Int64 → Except Error Int128 :=
  loop .calculateFibonacci fun k => advance (k - 1) 0 1

def mathUtilsLoop : Int64 → Except Error Int128 :=
  loop .mathUtilsFibonacci fun k => (consecutive (k - 1)).map (·.2)

end Fibonacci

namespace Routine

/-- Apply a routine to an integer, if integers are its arguments. Beside the answer stands the
table of factorials afterwards. -/
def onInteger? (r : Routine) (t : Factorial.Table) (n : Int64) :
    Option (Except Error Int128 × Factorial.Table) :=
  match r with
  | .calculateFactorial => some (Factorial.calculate n, t)
  | .mathUtilsFactorial => some (t.lookup n)
  | .calculateFibonacci => some (Fibonacci.calculateLoop n, t)
  | .mathUtilsFibonacci => some (Fibonacci.mathUtilsLoop n, t)
  | _ => none

/-- Apply a routine to two doubles, if pairs are its arguments. Division by either zero fails; by a
not-a-number it does not. -/
def onPair? (r : Routine) (a b : Float) : Option (Except Error Float) :=
  match r with
  | .calculatorAdd => some (.ok (a + b))
  | .calculatorSubtract => some (.ok (a - b))
  | .calculatorMultiply => some (.ok (a * b))
  | .calculatorDivide => some (if b != 0.0 then .ok (a / b) else .error .divisionByZero)
  | _ => none

end Routine

end RoutineCorpus
