import Mathlib.Data.List.Nodup
import RoutineCorpus.Proofs.Layering

/-! # Overrides one after another

An override adds its families to a list that grows while it does so. Families
that are there, or that came earlier, are passed over. So overriding twice is
overriding once with both overrides in one, and a repetition has no effect.
-/

namespace RoutineCorpus

/-- Two overrides in one. The later one goes first for the numbers, and the families of both are
added. -/
def Overrides.merge (o₁ o₂ : Overrides) : Overrides where
  fibonacciLimit := o₂.fibonacciLimit.or o₁.fibonacciLimit
  checkMaxN := o₂.checkMaxN.or o₁.checkMaxN
  exclude := o₁.exclude ++ o₂.exclude

namespace Settings

section Families

variable {fs gs : List Family} {f g : Family}

theorem addFamily_of_mem (h : f ∈ fs) : addFamily fs f = fs := if_pos h

theorem mem_foldl_addFamily : f ∈ gs.foldl addFamily fs ↔ f ∈ fs ∨ f ∈ gs := by
  rw [foldl_addFamily, List.mem_append, List.mem_eraseDups, List.mem_filter, decide_eq_true_iff]
  by_cases hf : f ∈ fs <;> simp [hf]

/-- Families that are all there already leave the list as it is. -/
theorem foldl_addFamily_of_subset (h : gs ⊆ fs) : gs.foldl addFamily fs = fs := by
  induction gs with
  | nil => rfl
  | cons g gs ih =>
    rw [List.cons_subset] at h
    rw [List.foldl_cons, addFamily_of_mem h.1, ih h.2]

/-- The first is added before the second if it occurs before it. -/
def Precedes (gs : List Family) (f g : Family) : Prop := gs.idxOf f < gs.idxOf g

theorem pairwise_precedes_cons {added : List Family} (hg : g ∉ added)
    (h : added.Pairwise (Precedes gs)) : added.Pairwise (Precedes (g :: gs)) := by
  refine h.imp_of_mem fun {f f'} hf hf' hlt => ?_
  have hne : ∀ f ∈ added, g ≠ f := by
    rintro f hf rfl
    exact hg hf
  rw [Precedes, List.idxOf_cons_ne gs (hne f hf), List.idxOf_cons_ne gs (hne f' hf')]
  exact Nat.succ_lt_succ hlt

/-- What is left of a list without repetitions is in the order of first occurrences. -/
theorem pairwise_precedes_eraseDups (p : Family → Bool) (gs : List Family) :
    (gs.filter p).eraseDups.Pairwise (Precedes gs) := by
  induction gs generalizing p with
  | nil => simp
  | cons g gs ih =>
    by_cases hp : p g = true
    · rw [List.filter_cons_of_pos hp, List.eraseDups_cons, List.filter_filter, List.pairwise_cons]
      constructor
      · intro f hf
        have hne : g ≠ f := by
          rintro rfl
          simp at hf
        rw [Precedes, List.idxOf_cons_self, List.idxOf_cons_ne gs hne]
        exact Nat.succ_pos _
      · exact pairwise_precedes_cons (by simp) (ih _)
    · rw [List.filter_cons_of_neg hp]
      exact pairwise_precedes_cons (by simp [hp]) (ih p)

end Families

/-- Two overrides, one after the other, are one override with both, and a second time changes
nothing. An override keeps the list of excluded families and adds to its end, each once and in the
order of their first occurrences, those of its families that were missing. -/
theorem overrides_compose (c : Settings) (o₁ o₂ : Overrides) :
    let once := c.applyOverrides o₁
    once.applyOverrides o₂ = c.applyOverrides (o₁.merge o₂) ∧
    once.applyOverrides o₁ = once ∧
    (∃ added, once.exclude = c.exclude ++ added ∧ added.Nodup ∧ c.exclude.Disjoint added ∧
      added.Pairwise fun f g => o₁.exclude.idxOf f < o₁.exclude.idxOf g) ∧
    (∀ f, f ∈ once.exclude ↔ f ∈ c.exclude ∨ f ∈ o₁.exclude) ∧
    once.fibonacciLimit = o₁.fibonacciLimit.getD c.fibonacciLimit ∧
    once.checkMaxN = o₁.checkMaxN.getD c.checkMaxN ∧
    once.checkSequences = c.checkSequences ∧ once.root = c.root := by
  intro once
  refine ⟨?_, ?_, ?_, fun f => mem_foldl_addFamily, rfl, rfl, rfl, rfl⟩
  · simp only [once, applyOverrides, Overrides.merge, Option.getD_or, List.foldl_append]
  · have hsub : o₁.exclude ⊆ once.exclude := fun f hf => mem_foldl_addFamily.mpr (Or.inr hf)
    have hnum : ∀ (o : Option UInt32) (n : UInt32), o.getD (o.getD n) = o.getD n := by
      intro o n
      cases o <;> rfl
    have hex : o₁.exclude.foldl addFamily once.exclude = once.exclude :=
      foldl_addFamily_of_subset hsub
    rw [applyOverrides, hex]
    simp only [once, applyOverrides, hnum]
  · have hord := pairwise_precedes_eraseDups (· ∉ c.exclude) o₁.exclude
    refine ⟨_, foldl_addFamily _ _, ?_, ?_, hord⟩
    · refine hord.imp fun {f g} hlt => ?_
      rintro rfl
      exact Nat.lt_irrefl _ hlt
    · intro f hf hadd
      simp [hf] at hadd

example :
    ({ exclude := [.sum, .sum] } : Settings).applyOverrides
        { checkMaxN := some 5, exclude := [.fibonacci, .sum, .factorial, .fibonacci] } =
      { checkMaxN := 5, exclude := [.sum, .sum, .fibonacci, .factorial] } := by
  decide

end Settings

end RoutineCorpus
