import RoutineCorpus.Agreement
import RoutineCorpus.Proofs.Prelude

/-! # Inputs, values and reports without doubles

A double is not determined by what is shown of it, so what is said about texts and
documents is said of inputs and values in which none occurs. Only a pair of
doubles leads to a double.
-/

namespace RoutineCorpus

def Input.Discrete : Input → Prop
  | .pair _ _ => False
  | _ => True

def Value.Discrete : Value → Prop
  | .real _ => False
  | _ => True

/-- An evaluation in which no double occurs, on an input that suits the routine. -/
structure Evaluation.Discrete (e : Evaluation) : Prop where
  input : e.input.Discrete
  output : e.output.Discrete
  shape_eq : e.input.shape = e.routine.shape

structure Mismatch.Discrete (m : Mismatch) : Prop where
  input : m.input.Discrete
  expected : m.expected.Discrete
  actual : m.actual.Discrete

def Failure.Discrete (f : Failure) : Prop := f.input.Discrete

structure FamilyCheck.Discrete (c : FamilyCheck) : Prop where
  mismatches : ∀ m ∈ c.mismatches, m.Discrete
  failures : ∀ f ∈ c.failures, f.Discrete

def CheckReport.Discrete (r : CheckReport) : Prop := ∀ c ∈ r.families, c.Discrete

namespace Input

theorem shape_of_read {shape : Shape} {args : List String} {x : Input}
    (h : read shape args = .ok x) : x.shape = shape := by
  unfold read at h
  split at h
  · obtain ⟨xs, -, rfl⟩ := map_eq_ok_iff.mp h
    rfl
  · obtain ⟨n, -, rfl⟩ := map_eq_ok_iff.mp h
    rfl
  · cases h
  · obtain ⟨a, -, h⟩ := bind_eq_ok_iff.mp h
    obtain ⟨b, -, rfl⟩ := map_eq_ok_iff.mp h
    rfl
  · cases h

theorem discrete_of_shape_ne {x : Input} (h : x.shape ≠ .pair) : x.Discrete := by
  cases x with
  | pair a b => exact h rfl
  | _ => trivial

end Input

namespace Session

theorem run_eq_ok_iff {s : Session} {r : Routine} {args : List String} {e : Evaluation} :
    (s.run r args).1 = .ok e ↔ e.routine = r ∧ Input.read r.shape args = .ok e.input ∧
      (s.evaluate r e.input).1 = .ok e.output := by
  unfold run
  split
  · rename_i hx
    simp [hx]
  · rename_i x hx
    obtain ⟨er, ex, ev⟩ := e
    rw [hx]
    constructor
    · intro h
      obtain ⟨v, hv, he⟩ := map_eq_ok_iff.mp h
      cases he
      exact ⟨rfl, rfl, hv⟩
    · rintro ⟨rfl, hx, hv⟩
      cases hx
      exact map_eq_ok_iff.mpr ⟨ev, hv, rfl⟩

/-- Only pairs of doubles lead to a double. -/
theorem discrete_of_evaluate {s : Session} {r : Routine} {x : Input} {v : Value}
    (hx : x.Discrete) (h : (s.evaluate r x).1 = .ok v) : v.Discrete := by
  cases x with
  | sequence xs =>
    simp only [evaluate] at h
    split at h <;> cases h <;> trivial
  | integer n =>
    simp only [evaluate] at h
    split at h
    · cases h
    · split at h
      · rename_i w _ _
        cases w <;> cases h
        trivial
      · cases h
  | pair a b => cases hx

theorem discrete_of_run {s : Session} {r : Routine} {args : List String} {e : Evaluation}
    (hr : r.shape ≠ .pair) (h : (s.run r args).1 = .ok e) : e.Discrete := by
  obtain ⟨rfl, hx, hv⟩ := run_eq_ok_iff.mp h
  have hs := Input.shape_of_read hx
  have hd : e.input.Discrete := Input.discrete_of_shape_ne (hs ▸ hr)
  exact ⟨hd, discrete_of_evaluate hd hv, hs⟩

end Session

end RoutineCorpus
