import Mathlib.Algebra.BigOperators.Group.List.Basic
import Mathlib.Algebra.Ring.Int.Defs
import RoutineCorpus.Proofs.Sequence

/-! # Sequence routines on widened integers

Integers of 64 bits are widened to 128 before they are doubled or added up. A
doubled element always fits. A running total stays in range as long as there is
room for the summands still to come, which is so for any list that a machine
can hold.
-/

namespace RoutineCorpus

namespace Int128

theorem toInt_zero : toInt 0 = 0 := rfl

/-- There is room on both sides of the integer for `k` summands of 64 bits. -/
structure HasRoom (k : Nat) (z : Int) : Prop where
  below : InRange (z - k * 2 ^ 63)
  above : InRange (z + k * 2 ^ 63)

namespace HasRoom

variable {k : Nat} {z : Int}

theorem inRange (h : HasRoom k z) : InRange z := by
  obtain ⟨hb, ha⟩ := h
  simp only [InRange] at hb ha ⊢
  omega

/-- A summand takes the room of one. -/
theorem add (h : HasRoom (k + 1) z) (n : Int64) : HasRoom k (z + n.toInt) := by
  obtain ⟨hb, ha⟩ := h
  have hl := Int64.le_toInt n
  have hu := Int64.toInt_lt n
  push_cast at hb ha
  constructor <;> simp only [InRange] at hb ha ⊢ <;> omega

end HasRoom

theorem hasRoom_zero {k : Nat} (h : k ≤ 2 ^ 59) : HasRoom k 0 := by
  constructor <;> simp only [InRange, size] <;> omega

end Int128

open Int128 Number

section Doubling

variable (n : Int64)

theorem isPositive_ofInt64 : isPositive (ofInt64 n) = decide (0 < n.toInt) := by
  rw [← toInt_ofInt64]
  rfl

theorem toInt_double_ofInt64 : (double (ofInt64 n)).toInt = 2 * n.toInt := by
  have hl := Int64.le_toInt n
  have hu := Int64.toInt_lt n
  have hr : InRange ((ofInt64 n).toInt + (ofInt64 n).toInt) := by
    rw [toInt_ofInt64]
    simp only [InRange, size]
    omega
  have hd : (double (ofInt64 n)).toInt = (ofInt64 n).toInt + (ofInt64 n).toInt :=
    toInt_add_of_inRange hr
  rw [hd, toInt_ofInt64]
  omega

end Doubling

/-- The positive elements are doubled exactly. -/
theorem FilterDouble.toInt_pushDoubles (xs : List Int64) :
    (pushDoubles (xs.map ofInt64)).map toInt =
      ((xs.map Int64.toInt).filter (0 < ·)).map (2 * ·) := by
  induction xs with
  | nil => rfl
  | cons x xs ih =>
    simp only [List.map_cons, pushDoubles_cons, isPositive_ofInt64, List.filter_cons]
    split
    · rw [List.map_cons, List.map_cons, toInt_double_ofInt64, ih]
    · exact ih

namespace Sum

/-- A running total with room for all the summands grows by exactly their sum. -/
theorem toInt_foldl_add {xs : List Int64} {t : Int128} (h : HasRoom xs.length t.toInt) :
    ((xs.map ofInt64).foldl Number.add t).toInt = t.toInt + (xs.map Int64.toInt).sum := by
  induction xs generalizing t with
  | nil => simp
  | cons x xs ih =>
    have hx : (Number.add t (ofInt64 x)).toInt = t.toInt + x.toInt := by
      have hs := toInt_ofInt64 x
      have hr : InRange (t.toInt + (ofInt64 x).toInt) := by
        rw [hs]
        exact (h.add x).inRange
      rw [← hs]
      exact toInt_add_of_inRange hr
    have hn := h.add x
    rw [← hx] at hn
    rw [List.map_cons, List.foldl_cons, ih hn, hx, List.map_cons, List.sum_cons, add_assoc]

theorem toInt_total {xs : List Int64} (h : xs.length ≤ 2 ^ 59) :
    (total (xs.map ofInt64)).toInt = (xs.map Int64.toInt).sum := by
  have hs := toInt_foldl_add (t := 0) (hasRoom_zero h)
  rwa [toInt_zero, zero_add] at hs

end Sum

end RoutineCorpus
