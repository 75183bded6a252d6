import RoutineCorpus.Routine.Sequence

/-! # Agreement of the sequence routines

The loop of the filter-double routines gives the doubled positive elements in
their order, and the sum routines add up from the left. No law of the elements is
used.
-/

namespace RoutineCorpus

variable {α : Type} [Number α]

namespace FilterDouble

open Number

theorem foldl_push_eq (xs : List α) (out : Array α) :
    (xs.foldl (fun out x => if isPositive x then out.push (double x) else out) out).toList =
      out.toList ++ (xs.filter isPositive).map double := by
  induction xs generalizing out with
  | nil => simp
  | cons x xs ih =>
    rw [List.foldl_cons, ih, List.filter_cons]
    split <;> simp

theorem pushDoubles_eq (xs : List α) : pushDoubles xs = (xs.filter isPositive).map double :=
  foldl_push_eq xs #[]

@[simp] theorem pushDoubles_cons (x : α) (xs : List α) : pushDoubles (x :: xs) =
    if isPositive x then double x :: pushDoubles xs else pushDoubles xs := by
  rw [pushDoubles_eq, pushDoubles_eq, List.filter_cons]
  split <;> rfl

end FilterDouble

namespace Routine

variable {r : Routine}

theorem onSequence?_of_filterDouble (h : r.family = .filterDouble) (xs : List α) :
    r.onSequence? xs = some (.many (FilterDouble.pushDoubles xs)) := by
  cases r <;> cases h <;> rfl

theorem onSequence?_of_sum (h : r.family = .sum) (xs : List α) :
    r.onSequence? xs = some (.one (Sum.total xs)) := by
  cases r <;> cases h <;> rfl

theorem onSequence?_of_shape_ne (h : r.shape ≠ .sequence) (xs : List α) :
    r.onSequence? xs = none := by
  cases r <;> first | rfl | exact absurd rfl h

end Routine

end RoutineCorpus
