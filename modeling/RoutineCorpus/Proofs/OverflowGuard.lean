import RoutineCorpus.Proofs.Factorial
import RoutineCorpus.Proofs.Fibonacci

/-! # The guards against overflow

The factorial routines refuse numbers above `33` and the Fibonacci routines
indices above `184`. These are the last ones whose result fits into 128 bits, so
the guards refuse nothing that fits, and behind them no product, sum or
predecessor leaves its range.
-/

namespace RoutineCorpus

/-- A bound that a monotone sequence passes at one place is passed from there on. -/
theorem lt_iff_of_monotone {g : ℕ → ℕ} (hg : Monotone g) {bound m : ℕ} (hm : g m ≤ bound)
    (hs : bound < g (m + 1)) (k : ℕ) : bound < g k ↔ m < k := by
  constructor
  · intro h
    exact hg.reflect_lt (hm.trans_lt h)
  · intro h
    exact hs.trans_le (hg h)

namespace Factorial

open Nat (factorial)

/-- The function gives the factorials that fit into 128 bits, and fails beyond them in the name of
the routine. What it computes them from is in range, too. -/
structure Exact (r : Routine) (f : Int64 → Except Error Int128) : Prop where
  one : ∀ n : Int64, n.toInt ≤ 1 → (f n).map Int128.toInt = .ok 1
  value : ∀ n : Int64, 2 ≤ n.toInt → n.toInt ≤ 33 →
    (f n).map Int128.toInt = .ok (factorial n.toInt.toNat : ℤ)
  overflow : ∀ n : Int64, 33 < n.toInt → f n = .error (.overflow r)
  tight : ∀ n : Int64, 2 ≤ n.toInt →
    (f n = .error (.overflow r) ↔ 2 ^ 127 - 1 < factorial n.toInt.toNat)
  product : ∀ n : Int64, 2 ≤ n.toInt → n.toInt ≤ 33 →
    ∃ below v, f (n - 1) = .ok below ∧ (Int128.ofInt64 n).mul? below = some v ∧ f n = .ok v

theorem lt_factorial_iff (k : ℕ) : 2 ^ 127 - 1 < factorial k ↔ 33 < k :=
  lt_iff_of_monotone (fun _ _ h => Nat.factorial_le h) (by decide) (by decide) k

variable {n : Int64}

theorem exact_of_eq {r : Routine} {f : Int64 → Except Error Int128}
    (h : ∀ n, f n = okOr (.overflow r) (value? n)) : Exact r f := by
  have hle : ∀ n : Int64, n.toInt ≤ 33 → f n = .ok (Factorial.value n) := by
    intro n hn
    rw [h, value?_of_le (le_largest_iff.mpr hn)]
    rfl
  have hlt : ∀ n : Int64, 33 < n.toInt → f n = .error (.overflow r) := by
    intro n hn
    rw [h, value?_eq_none_iff.mpr hn]
    rfl
  refine ⟨?_, ?_, hlt, ?_, ?_⟩
  · intro n hn
    rw [hle n (by omega), value_of_le_one (le_one_iff.mpr hn)]
    rfl
  · intro n _ hn
    rw [hle n hn, ← toInt_value (le_largest_iff.mpr hn)]
    rfl
  · intro n h₂
    rw [lt_factorial_iff]
    constructor
    · intro he
      by_contra hn
      rw [hle n (by omega)] at he
      cases he
    · intro hn
      exact hlt n (by omega)
  · intro n h₂ hn
    have h₁ : ¬ n ≤ 1 := by
      rw [le_one_iff]
      omega
    obtain ⟨hp, -⟩ := toInt_predecessors h₂
    exact ⟨_, _, hle _ (by omega), mul?_value h₁ (le_largest_iff.mpr hn), hle n hn⟩

namespace Table

def after (ns : List Int64) : Table := ns.foldl (fun t n => (t.lookup n).2) empty

theorem exists_holds_foldl {t : Table} (h : ∃ Q, t.Holds (kept Q)) (ns : List Int64) :
    ∃ Q, (ns.foldl (fun t n => (t.lookup n).2) t).Holds (kept Q) := by
  induction ns generalizing t with
  | nil => exact h
  | cons n ns ih =>
    obtain ⟨Q, hQ⟩ := h
    exact ih ⟨_, (lookup_spec hQ).2⟩

theorem lookup_after (ns : List Int64) (n : Int64) :
    ((after ns).lookup n).1 = okOr (.overflow .mathUtilsFactorial) (value? n) := by
  have he : ∃ Q, empty.Holds (kept Q) := ⟨∅, by simpa using holds_empty⟩
  obtain ⟨Q, hQ⟩ := exists_holds_foldl he ns
  exact (lookup_spec hQ).1

end Table

end Factorial

namespace Fibonacci

/-- The function gives the Fibonacci numbers that fit into 128 bits, and fails beyond them in the
name of the routine. Each number is the sum of the two before it, in range. -/
structure Exact (r : Routine) (f : Int64 → Except Error Int128) : Prop where
  small : ∀ n : Int64, n.toInt ≤ 1 → (f n).map Int128.toInt = .ok n.toInt
  value : ∀ n : Int64, 2 ≤ n.toInt → n.toInt ≤ 184 →
    (f n).map Int128.toInt = .ok (Nat.fib n.toInt.toNat : ℤ)
  overflow : ∀ n : Int64, 184 < n.toInt → f n = .error (.overflow r)
  tight : ∀ n : Int64, 2 ≤ n.toInt →
    (f n = .error (.overflow r) ↔ 2 ^ 127 - 1 < Nat.fib n.toInt.toNat)
  sum : ∀ n : Int64, 2 ≤ n.toInt → n.toInt ≤ 184 →
    ∃ b a v, f (n - 1) = .ok b ∧ f (n - 2) = .ok a ∧ b.add? a = some v ∧ f n = .ok v

theorem lt_fib_iff (k : ℕ) : 2 ^ 127 - 1 < Nat.fib k ↔ 184 < k :=
  lt_iff_of_monotone Nat.fib_mono (by decide) (by decide) k

variable {n : Int64}

theorem exact_recurse (r : Routine) : Exact r (recurse r) := by
  have hle : ∀ (n : Int64) (k : ℕ), n.toInt = k → k ≤ 184 →
      recurse r n = .ok (Fibonacci.value k) := by
    intro n k hk hn
    rw [recurse_eq, value?_of_le hk hn]
    rfl
  have hlt : ∀ n : Int64, 184 < n.toInt → recurse r n = .error (.overflow r) := by
    intro n hn
    rw [recurse_eq, value?_eq_none_iff.mpr hn]
    rfl
  refine ⟨?_, ?_, hlt, ?_, ?_⟩
  · intro n hn
    rw [recurse_eq, value?_of_le_one (le_one_iff.mpr hn), ← Int128.toInt_ofInt64 n]
    rfl
  · intro n h₂ hn
    rw [hle n n.toInt.toNat (by omega) (by omega), ← toInt_value (by omega)]
    rfl
  · intro n h₂
    rw [lt_fib_iff]
    constructor
    · intro he
      by_contra hn
      rw [hle n n.toInt.toNat (by omega) (by omega)] at he
      cases he
    · intro hn
      exact hlt n (by omega)
  · intro n h₂ hn
    obtain ⟨k, hk⟩ : ∃ k : ℕ, n.toInt = (k + 2 : ℕ) := ⟨n.toInt.toNat - 2, by omega⟩
    obtain ⟨hp, hpp⟩ := toInt_predecessors h₂
    exact ⟨_, _, _, hle (n - 1) (k + 1) (by omega) (by omega), hle (n - 2) k (by omega) (by omega),
      add?_value_comm (by omega), hle n (k + 2) hk (by omega)⟩

/-- After some steps the forward routine has the numbers that the recursive one gives. -/
theorem advance_add {j : ℕ} (h : j + 1 ≤ 184) (k : ℕ) :
    advance (j + k) 0 1 = advance k (value j) (value (j + 1)) := by
  induction j generalizing k with
  | zero =>
    rw [Nat.zero_add]
    rfl
  | succ j ih =>
    rw [Nat.succ_add_eq_add_succ, ih (by omega), advance, add?_value (by omega)]
    rfl

/-- Both routines add two consecutive Fibonacci numbers at a time, and the sum fits. -/
theorem sum_fits {j k : ℕ} (h : j + k + 2 ≤ 184) :
    ∃ a b c, consecutive j = some (a, b) ∧ a.add? b = some c ∧
      consecutive (j + 1) = some (b, c) ∧ advance (j + (k + 1)) 0 1 = advance (k + 1) a b :=
  ⟨_, _, _, consecutive_eq (by omega), add?_value (by omega), consecutive_eq (by omega),
    advance_add (by omega) (k + 1)⟩

end Fibonacci

/-- The guards of all four routines let through exactly the numbers whose result fits, with any
table that requests can lead to. Behind them every product and every sum fits, in the recursions
that define the numbers as well as in the loops, which give the same, and the predecessors of a
number are in range. -/
theorem overflow_guards_tight :
    Factorial.Exact .calculateFactorial Factorial.calculate ∧
    (∀ ns : List Int64, Factorial.Exact .mathUtilsFactorial fun n =>
      ((Factorial.Table.after ns).lookup n).1) ∧
    Fibonacci.Exact .calculateFibonacci Fibonacci.calculate ∧
    Fibonacci.Exact .mathUtilsFibonacci Fibonacci.mathUtils ∧
    (∀ n : Int64, Fibonacci.calculateLoop n = Fibonacci.calculate n ∧
      Fibonacci.mathUtilsLoop n = Fibonacci.mathUtils n) ∧
    (∀ j k : ℕ, j + k + 2 ≤ 184 → ∃ a b c, Fibonacci.consecutive j = some (a, b) ∧
      a.add? b = some c ∧ Fibonacci.consecutive (j + 1) = some (b, c) ∧
      Fibonacci.advance (j + (k + 1)) 0 1 = Fibonacci.advance (k + 1) a b) ∧
    ∀ n : Int64, 2 ≤ n.toInt →
      (n - 1).toInt = n.toInt - 1 ∧ (n - 2).toInt = n.toInt - 2 := by
  refine ⟨Factorial.exact_of_eq Factorial.calculate_eq, ?_, Fibonacci.exact_recurse _,
    Fibonacci.exact_recurse _, ?_, ?_, ?_⟩
  · intro ns
    exact Factorial.exact_of_eq (Factorial.Table.lookup_after ns)
  · intro n
    exact ⟨Fibonacci.calculateLoop_eq n, Fibonacci.mathUtilsLoop_eq n⟩
  · intro j k h
    exact Fibonacci.sum_fits h
  · intro n h
    exact toInt_predecessors h

theorem overflow_guards_tight_instances :
    ((Factorial.Table.after [40, 5, -2]).lookup 33).1.map Int128.toInt =
        .ok 8683317618811886495518194401280000000 ∧
      ((Factorial.Table.after [33]).lookup 34).1 = .error (.overflow .mathUtilsFactorial) ∧
      (Fibonacci.mathUtils 184).map Int128.toInt =
        .ok 127127879743834334146972278486287885163 ∧
      Fibonacci.calculate 185 = .error (.overflow .calculateFibonacci) := by
  obtain ⟨-, hf, hc, hm, -, -, -⟩ := overflow_guards_tight
  exact ⟨((hf _).value 33 (by decide) (by decide)).trans (by decide),
    (hf _).overflow 34 (by decide), (hm.value 184 (by decide) (by decide)).trans (by decide),
    hc.overflow 185 (by decide)⟩

end RoutineCorpus
