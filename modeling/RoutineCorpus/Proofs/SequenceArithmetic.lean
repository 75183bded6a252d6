import Mathlib.Data.List.Induction
import RoutineCorpus.Proofs.Agreement
import RoutineCorpus.Proofs.Widening

/-! # Sequence routines in three arithmetics

The sequence routines run on any numbers, so they can be run on integers of 128
bits whose addition wraps, on the same integers with an addition that gives
nothing on overflow, and on unbounded integers. A map between two kinds of
numbers carries the results over if it respects the doubles and running totals
that come up. For widened integers of 64 bits nothing overflows on the way, and
the three arithmetics agree.
-/

namespace RoutineCorpus

open Number

def SequenceResult.map {α β : Type} (φ : α → β) : SequenceResult α → SequenceResult β
  | .many xs => .many (xs.map φ)
  | .one x => .one (φ x)

/-! ## Maps between numbers -/

section Transfer

variable {α β : Type} [Number α] [Number β] {φ : α → β} {xs : List α}

/-- The map respects all that a sequence routine computes from the list. -/
structure Respects (φ : α → β) (xs : List α) : Prop where
  zero : φ zero = zero
  positive : ∀ x ∈ xs, isPositive (φ x) = isPositive x
  double : ∀ x ∈ xs, double (φ x) = φ (double x)
  total : ∀ ys x, ys ++ [x] <+: xs →
    add (φ (ys.foldl add Number.zero)) (φ x) = φ (add (ys.foldl add Number.zero) x)

theorem FilterDouble.pushDoubles_map (hp : ∀ x ∈ xs, isPositive (φ x) = isPositive x)
    (hd : ∀ x ∈ xs, double (φ x) = φ (double x)) :
    pushDoubles (xs.map φ) = (pushDoubles xs).map φ := by
  induction xs with
  | nil => rfl
  | cons x xs ih =>
    have hx := List.mem_cons_self (a := x) (l := xs)
    have ht := ih (fun y hy => hp y (List.mem_cons_of_mem x hy))
      fun y hy => hd y (List.mem_cons_of_mem x hy)
    rw [List.map_cons, pushDoubles_cons, pushDoubles_cons, hp x hx, hd x hx, ht]
    split <;> rfl

theorem Sum.total_map (hz : φ zero = zero)
    (ht : ∀ ys x, ys ++ [x] <+: xs →
      add (φ (ys.foldl add zero)) (φ x) = φ (add (ys.foldl add zero) x)) :
    total (xs.map φ) = φ (total xs) := by
  -- The running totals are those of the prefixes, so the list grows at its end.
  induction xs using List.reverseRecOn with
  | nil => exact hz.symm
  | append_singleton xs x ih =>
    have h := ih fun ys y hy => ht ys y (hy.trans (List.prefix_append xs [x]))
    unfold total at h ⊢
    rw [List.map_append, List.foldl_append, h, List.foldl_append]
    exact ht xs x (List.prefix_refl _)

/-- A routine gives the mapped result on the mapped list. -/
theorem Respects.onSequence?_map (h : Respects φ xs) (r : Routine) :
    r.onSequence? (xs.map φ) = (r.onSequence? xs).map (SequenceResult.map φ) := by
  cases hf : r.family with
  | filterDouble =>
    rw [Routine.onSequence?_of_filterDouble hf, Routine.onSequence?_of_filterDouble hf,
      FilterDouble.pushDoubles_map h.positive h.double]
    rfl
  | sum =>
    rw [Routine.onSequence?_of_sum hf, Routine.onSequence?_of_sum hf,
      Sum.total_map h.zero h.total]
    rfl
  | _ =>
    have hs : r.shape ≠ .sequence := by simp [Routine.shape, hf, Family.shape]
    rw [Routine.onSequence?_of_shape_ne hs, Routine.onSequence?_of_shape_ne hs]
    rfl

end Transfer

/-! ## Exact and checked integers -/

/-- Unbounded integers. -/
instance : Number ℤ := ⟨0, (· + ·), fun x y => x < y⟩

/-- Integers of 128 bits that are lost once a sum does not fit. -/
instance : Number (Option Int128) where
  zero := some 0
  add x y := x.bind fun x => y.bind x.add?
  lt
    | some x, some y => x.lt y
    | _, _ => false

namespace Int128

/-- No double and no running total of the list overflows. -/
structure Fitting (xs : List Int128) : Prop where
  double : ∀ x ∈ xs, (Number.double x).toInt = x.toInt + x.toInt
  total : ∀ ys x, ys ++ [x] <+: xs →
    (Number.add (ys.foldl Number.add 0) x).toInt = (ys.foldl Number.add 0).toInt + x.toInt

variable {xs : List Int128}

theorem Fitting.respects_toInt (h : Fitting xs) : Respects toInt xs where
  zero := rfl
  positive _ _ := rfl
  double x hx := (h.double x hx).symm
  total ys x hy := (h.total ys x hy).symm

theorem Fitting.respects_some (h : Fitting xs) : Respects some xs where
  zero := rfl
  positive _ _ := rfl
  double x hx := ofInt?_eq_some_iff.mpr (h.double x hx)
  total ys x hy := ofInt?_eq_some_iff.mpr (h.total ys x hy)

theorem toInt_foldl_ofInt64 {xs ys : List Int64} (h : xs.length ≤ 2 ^ 59) (hy : ys <+: xs) :
    ((ys.map ofInt64).foldl Number.add 0).toInt = (ys.map Int64.toInt).sum :=
  Sum.toInt_total (hy.length_le.trans h)

/-- Widened integers of 64 bits always fit. -/
theorem fitting_map_ofInt64 {xs : List Int64} (h : xs.length ≤ 2 ^ 59) :
    Fitting (xs.map ofInt64) where
  double x hx := by
    obtain ⟨n, -, rfl⟩ := List.mem_map.mp hx
    rw [toInt_double_ofInt64, toInt_ofInt64]
    omega
  total ys x hy := by
    obtain ⟨zs, hz, he⟩ := List.prefix_map_iff.mp hy
    obtain ⟨zs, z', rfl, rfl, hz'⟩ := List.map_eq_append_iff.mp he.symm
    obtain ⟨z, rfl, rfl⟩ := List.map_eq_singleton_iff.mp hz'
    have ht := toInt_foldl_ofInt64 h hz
    rw [List.map_append, List.foldl_append, List.map_append, List.sum_append,
      ← toInt_foldl_ofInt64 h ((List.prefix_append zs [z]).trans hz)] at ht
    simpa [toInt_ofInt64] using ht

end Int128

namespace Session

open Int128

/-- On integers of 64 bits the filter-double routines give the exact doubles of the positive ones in
their order and the sum routines the exact sum, after any history. Every double and every running
total is in range, so that wrapping and checked integers give what unbounded ones give. On numbers
of any kind the routines of a family agree. -/
theorem sequence_routines_exact :
    (∀ (limit : UInt32) (calls : List Call) (xs : List Int64), xs.length ≤ 2 ^ 59 →
      (∀ r : Routine, r.family = .filterDouble → ∃ ys,
        ((after limit calls).evaluate r (.sequence xs)).1 = .ok (.sequence ys) ∧
          ys.map toInt = ((xs.map Int64.toInt).filter (0 < ·)).map (2 * ·)) ∧
      (∀ r : Routine, r.family = .sum → ∃ y,
        ((after limit calls).evaluate r (.sequence xs)).1 = .ok (.integer y) ∧
          y.toInt = (xs.map Int64.toInt).sum) ∧
      (∀ x ∈ xs, InRange (2 * x.toInt)) ∧
      (∀ ys, ys <+: xs → InRange (ys.map Int64.toInt).sum) ∧
      ∀ r : Routine,
        r.onSequence? (xs.map Int64.toInt) =
          (r.onSequence? (xs.map ofInt64)).map (SequenceResult.map toInt) ∧
        r.onSequence? (xs.map (some ∘ ofInt64)) =
          (r.onSequence? (xs.map ofInt64)).map (SequenceResult.map some)) ∧
    ∀ (α : Type) [Number α] (xs : List α),
      (∀ r : Routine, r.family = .filterDouble → r.onSequence? xs =
        some (.many ((xs.filter fun x => Number.lt zero x).map fun x => add x x))) ∧
      ∀ r : Routine, r.family = .sum → r.onSequence? xs = some (.one (xs.foldl add zero)) := by
  constructor
  · intro limit calls xs h
    have hfit := fitting_map_ofInt64 h
    have heval := fun r => (tracks_after limit calls).evaluate_fst r (.sequence xs)
    refine ⟨?_, ?_, ?_, ?_, ?_⟩
    · intro r hr
      exact ⟨_, (heval r).trans (answer_filterDouble hr xs), FilterDouble.toInt_pushDoubles xs⟩
    · intro r hr
      exact ⟨_, (heval r).trans (answer_sum hr xs), Sum.toInt_total h⟩
    · intro x _
      rw [← toInt_double_ofInt64]
      exact inRange_toInt _
    · intro ys hy
      rw [← toInt_foldl_ofInt64 h hy]
      exact inRange_toInt _
    · intro r
      have hw : xs.map Int64.toInt = (xs.map ofInt64).map toInt := by
        simp [toInt_ofInt64]
      rw [hw, hfit.respects_toInt.onSequence?_map, ← List.map_map,
        hfit.respects_some.onSequence?_map]
      exact ⟨rfl, rfl⟩
  · intro α _ xs
    constructor
    · intro r hr
      rw [Routine.onSequence?_of_filterDouble hr, FilterDouble.pushDoubles_eq]
      rfl
    · intro r hr
      exact Routine.onSequence?_of_sum hr xs

theorem sequence_routines_exact_instances :
    let extremes : List Int64 := [Int64.maxValue, Int64.minValue, 1]
    (∃ ys, ((after 30 []).evaluate .dataHelperProcess (.sequence extremes)).1 = .ok (.sequence ys) ∧
        ys.map toInt = [18446744073709551614, 2]) ∧
      (∃ y, ((after 30 []).evaluate .dataHelperSum (.sequence extremes)).1 = .ok (.integer y) ∧
        y.toInt = 0) ∧
      Routine.dataHelperSum.onSequence? (extremes.map (some ∘ ofInt64)) =
        (Routine.dataHelperSum.onSequence? (extremes.map ofInt64)).map (SequenceResult.map some) ∧
      Routine.transformData.onSequence? [0.0 / 0.0, 0.5, -1.0, (2.25 : Float)] =
        some (.many [1.0, 4.5]) := by
  intro extremes
  obtain ⟨hx, hg⟩ := sequence_routines_exact
  obtain ⟨hd, hs, -, -, hr⟩ := hx 30 [] extremes (by decide)
  exact ⟨hd .dataHelperProcess rfl, hs .dataHelperSum rfl, (hr .dataHelperSum).2,
    ((hg Float _).1 .transformData rfl).trans (by decide +kernel)⟩

end Session

end RoutineCorpus
