import Mathlib.Data.Nat.Fib.Basic
import RoutineCorpus.Routine.Scalar

/-! # Exact Fibonacci numbers

The recursion of both routines gives the exact number up to index `184`, since no
sum on the way leaves the range. The loops go through pairs of consecutive
Fibonacci numbers, one of them forwards with a counter and the other by recursion
on the index, and have the same answers.
-/

namespace RoutineCorpus.Fibonacci

variable {n : Int64}

theorem toInt_largest : largest.toInt = 184 := by decide

theorem le_one_iff : n ≤ 1 ↔ n.toInt ≤ 1 := Int64.le_iff_toInt_le

theorem largest_lt_iff : largest < n ↔ 184 < n.toInt := by
  rw [Int64.lt_iff_toInt_lt, toInt_largest]

def value (k : ℕ) : Int128 := .ofInt (Nat.fib k)

theorem inRange_fib {k : ℕ} (h : k ≤ 184) : Int128.InRange (Nat.fib k) := by
  have hk : Nat.fib k ≤ Nat.fib 184 := Nat.fib_mono h
  have h184 : 2 * Nat.fib 184 < Int128.size := by decide
  constructor <;> omega

theorem toInt_value {k : ℕ} (h : k ≤ 184) : (value k).toInt = Nat.fib k :=
  Int128.toInt_ofInt (inRange_fib h)

theorem add?_value {k : ℕ} (h : k + 2 ≤ 184) :
    (value k).add? (value (k + 1)) = some (value (k + 2)) := by
  rw [Int128.add?, Int128.ofInt?_eq_some_iff, toInt_value h, toInt_value (by omega),
    toInt_value (by omega), Nat.fib_add_two, Int.natCast_add]

theorem add?_value_comm {k : ℕ} (h : k + 2 ≤ 184) :
    (value (k + 1)).add? (value k) = some (value (k + 2)) := by
  rw [Int128.add?, Int.add_comm]
  exact add?_value h

/-! ## The recursion -/

/-- What both routines give if it fits: the number itself up to `1`, and then the Fibonacci
number. -/
def value? (n : Int64) : Option Int128 :=
  if n ≤ 1 then some (.ofInt64 n) else if largest < n then none else some (value n.toInt.toNat)

theorem ofInt64_eq_value (h₀ : 0 ≤ n.toInt) (h₁ : n.toInt ≤ 1) :
    Int128.ofInt64 n = value n.toInt.toNat := by
  rw [Int128.ofInt64, value]
  obtain h | h : n.toInt = 0 ∨ n.toInt = 1 := by omega
  · rw [h]
    rfl
  · rw [h]
    rfl

theorem value?_of_le_one (h : n ≤ 1) : value? n = some (.ofInt64 n) := if_pos h

theorem value?_of_le {k : ℕ} (hk : n.toInt = k) (h : k ≤ 184) : value? n = some (value k) := by
  obtain rfl : n.toInt.toNat = k := by omega
  by_cases h₁ : n ≤ 1
  · rw [value?_of_le_one h₁, ofInt64_eq_value (by omega) (le_one_iff.mp h₁)]
  · rw [value?, if_neg h₁, if_neg (by rw [largest_lt_iff]; omega)]

theorem value?_eq_none_iff : value? n = none ↔ 184 < n.toInt := by
  unfold value?
  split
  · rename_i h
    rw [le_one_iff] at h
    exact iff_of_false (by simp) (by omega)
  · split
    · rename_i h
      exact iff_of_true rfl (largest_lt_iff.mp h)
    · rename_i h
      exact iff_of_false (by simp) (mt largest_lt_iff.mpr h)

theorem exists_toInt_eq (h₁ : ¬ n ≤ 1) (h₂ : ¬ largest < n) :
    ∃ k : ℕ, k + 2 ≤ 184 ∧ n.toInt = (k + 2 : ℕ) := by
  rw [le_one_iff] at h₁
  rw [largest_lt_iff] at h₂
  exact ⟨n.toInt.toNat - 2, by omega, by omega⟩

theorem recurse_eq (r : Routine) (n : Int64) : recurse r n = okOr (.overflow r) (value? n) := by
  fun_induction recurse r n with
  | case1 n h =>
    rw [value?_of_le_one h]
    rfl
  | case2 n h₁ h₂ =>
    rw [value?_eq_none_iff.mpr (largest_lt_iff.mp h₂)]
    rfl
  | case3 n h₁ h₂ ih₁ ih₂ =>
    obtain ⟨k, hk, hn⟩ := exists_toInt_eq h₁ h₂
    obtain ⟨hp, hpp⟩ := toInt_predecessors (two_le_toInt h₁)
    rw [ih₁, ih₂, value?_of_le (n := n - 1) (k := k + 1) (by omega) (by omega),
      value?_of_le (n := n - 2) (k := k) (by omega) (by omega), value?_of_le hn hk]
    change okOr _ ((value (k + 1)).add? (value k)) = _
    rw [add?_value_comm hk]

/-! ## The loops -/

theorem advance_value {j k : ℕ} (h : j + 1 + k ≤ 184) :
    advance k (value j) (value (j + 1)) = some (value (j + 1 + k)) := by
  induction k generalizing j with
  | zero => rfl
  | succ k ih =>
    rw [advance, add?_value (by omega)]
    have hs : j + 1 + (k + 1) = j + 1 + 1 + k := by omega
    rw [hs]
    exact ih (by omega)

theorem advance_eq {k : ℕ} (h : k + 1 ≤ 184) : advance k 0 1 = some (value (k + 1)) := by
  rw [Nat.add_comm] at h ⊢
  exact advance_value (j := 0) (by omega)

theorem consecutive_eq {k : ℕ} (h : k + 1 ≤ 184) :
    consecutive k = some (value k, value (k + 1)) := by
  induction k with
  | zero => rfl
  | succ k ih =>
    rw [consecutive, ih (by omega)]
    change (do return (value (k + 1), ← (value k).add? (value (k + 1)))) = _
    rw [add?_value (by omega)]
    rfl

/-- A loop that gives the Fibonacci numbers gives what the recursion gives. -/
theorem loop_eq_recurse {number? : ℕ → Option Int128}
    (h : ∀ k, k + 1 ≤ 184 → number? (k + 1) = some (value (k + 1))) (r : Routine) (n : Int64) :
    loop r number? n = recurse r n := by
  rw [recurse_eq, loop, value?]
  split
  · rfl
  · split
    · rfl
    · rename_i h₁ h₂
      obtain ⟨k, hk, hn⟩ := exists_toInt_eq h₁ h₂
      obtain hn : n.toInt.toNat = k + 1 + 1 := by omega
      rw [hn, h (k + 1) hk]

theorem calculateLoop_eq (n : Int64) : calculateLoop n = calculate n := by
  refine loop_eq_recurse ?_ _ n
  intro k hk
  rw [Nat.add_sub_cancel]
  exact advance_eq hk

theorem mathUtilsLoop_eq (n : Int64) : mathUtilsLoop n = mathUtils n := by
  refine loop_eq_recurse ?_ _ n
  intro k hk
  rw [Nat.add_sub_cancel, consecutive_eq hk]
  rfl

end RoutineCorpus.Fibonacci
