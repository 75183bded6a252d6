import RoutineCorpus.CommandLine.Execute
import RoutineCorpus.Proofs.Agreement
import RoutineCorpus.Proofs.Delivery

/-! # The verdict of a check

Only the two integer families can fail, each above a bound of its own, so the
verdict and the closing line are determined by the settings. Settings that
cannot be loaded end the command before anything is written.
-/

namespace RoutineCorpus

def Sink.EndsWith (s : Sink) (t : String) : Prop := ∃ front, s.written = (front ++ t).toUTF8

theorem flatMap_failuresAt_eq_nil_iff {b k : ℕ} {r : Routine} {rs : List Routine}
    {text : Routine → ℕ → String} :
    (List.Ico b k).flatMap (failuresAt (r :: rs) text) = [] ↔ k ≤ b := by
  rw [← List.Ico.eq_empty_iff, List.flatMap_eq_nil_iff, List.eq_nil_iff_forall_not_mem]
  simp [failuresAt]

namespace Settings

variable (c : Settings)

/-- The factorial routines are checked on a number whose factorial does not fit. -/
def FactorialFails : Prop := .factorial ∉ c.exclude ∧ 33 < c.checkMaxN.toNat

def FibonacciFails : Prop :=
  .fibonacci ∉ c.exclude ∧ min c.fibonacciLimit.toNat 184 < c.checkMaxN.toNat

instance : Decidable c.FactorialFails := inferInstanceAs (Decidable (_ ∧ _))

instance : Decidable c.FibonacciFails := inferInstanceAs (Decidable (_ ∧ _))

def failing : ℕ := (if c.FactorialFails then 1 else 0) + if c.FibonacciFails then 1 else 0

def checked : ℕ := (duplicatedFamilies.filter (· ∉ c.exclude)).length

theorem passed_expectedCheck (f : Family) : (c.expectedCheck f).passed = true ↔
    (f = .factorial → c.checkMaxN.toNat ≤ 33) ∧
      (f = .fibonacci → c.checkMaxN.toNat ≤ min c.fibonacciLimit.toNat 184) := by
  simp only [FamilyCheck.passed, expectedCheck, List.isEmpty_nil, Bool.true_and, List.isEmpty_iff]
  cases f with
  | factorial | fibonacci =>
    rw [expectedFailures, flatMap_failuresAt_eq_nil_iff, Nat.succ_le_succ_iff]
    simp
  | _ => simp [expectedFailures]

/-- The families that are checked and fail. -/
theorem fails_iff (f : Family) : (c.expectedCheck f).passed = false ∧ f ∉ c.exclude ↔
    f = .factorial ∧ c.FactorialFails ∨ f = .fibonacci ∧ c.FibonacciFails := by
  rw [← Bool.not_eq_true, passed_expectedCheck, FactorialFails, FibonacciFails, ← Nat.not_le,
    ← Nat.not_le]
  cases f <;> simp [and_comm]

theorem failedFamilies_verify : c.verify.failedFamilies = c.failing := by
  have h : ∀ f, (!(c.expectedCheck f).passed && decide (f ∉ c.exclude)) =
      decide (f = .factorial ∧ c.FactorialFails ∨ f = .fibonacci ∧ c.FibonacciFails) := by
    intro f
    rw [Bool.eq_iff_iff]
    simpa using c.fails_iff f
  rw [CheckReport.failedFamilies, verify_families, List.countP_map, List.countP_filter]
  simp only [Function.comp_apply, h]
  simp [duplicatedFamilies, List.countP_cons, failing, Nat.add_comm]

theorem length_families_verify : c.verify.families.length = c.checked := by
  rw [verify_families, List.length_map, checked]

theorem failing_eq_zero_iff : c.failing = 0 ↔ ¬ c.FactorialFails ∧ ¬ c.FibonacciFails := by
  simp [failing]

end Settings

theorem CheckReport.passed_iff (r : CheckReport) : r.passed = true ↔ r.failedFamilies = 0 := by
  simp [passed, failedFamilies, List.countP_eq_zero]

/-- How a check with the given settings ends: its verdict, and the last line of what it wrote. -/
structure Concludes (c : Settings) (verdict : Except CommandError Unit) (s : Sink) : Prop where
  ok_iff : verdict = .ok () ↔ ¬ c.FactorialFails ∧ ¬ c.FibonacciFails
  passed : ¬ c.FactorialFails ∧ ¬ c.FibonacciFails →
    exitCode verdict = 0 ∧ s.EndsWith passedLine
  failed : c.FactorialFails ∨ c.FibonacciFails →
    verdict = .error .checkFailed ∧ exitCode verdict = 1 ∧
      s.EndsWith (failedLine c.failing c.checked)

theorem endsWith_check {c : Settings} {t : String} {verdict : Except CommandError Unit}
    (h : Writes .output (Command.conclusion c.verify) [t] verdict) (format : Format) :
    ((Command.check c format).deliver {}).1 = verdict ∧
      ((Command.check c format).deliver {}).2.EndsWith t := by
  rw [(Command.writes_check h format).deliver_unlimited]
  refine ⟨rfl, (format.check c.verify).text, ?_⟩
  simp

theorem concludes_check (c : Settings) (format : Format) :
    Concludes c ((Command.check c format).deliver {}).1
      ((Command.check c format).deliver {}).2 := by
  have hp : c.verify.passed = true ↔ ¬ c.FactorialFails ∧ ¬ c.FibonacciFails := by
    rw [CheckReport.passed_iff, c.failedFamilies_verify, c.failing_eq_zero_iff]
  by_cases h : ¬ c.FactorialFails ∧ ¬ c.FibonacciFails
  · obtain ⟨hv, he⟩ := endsWith_check (Command.writes_conclusion_of_passed (hp.mpr h)) format
    rw [hv]
    exact ⟨⟨fun _ => h, fun _ => rfl⟩, fun _ => ⟨rfl, he⟩, fun hf => by tauto⟩
  · obtain ⟨hv, he⟩ := endsWith_check (Command.writes_conclusion_of_failed (mt hp.mp h)) format
    rw [c.failedFamilies_verify, c.length_families_verify] at he
    rw [hv]
    exact ⟨⟨fun hok => (nomatch hok), fun hn => absurd hn h⟩, fun hn => absurd hn h,
      fun _ => ⟨rfl, rfl, he⟩⟩

open CommandLine

/-- Carried out from a command line, `check` ends as its settings say; without settings it ends
with the error and writes nothing. -/
theorem check_verdict (w : Workspace) :
    (∀ root overrides format c, Settings.loadWith w root overrides = .ok c →
      Concludes c ((Command.check c format).deliver {}).1
        ((Command.check c format).deliver {}).2) ∧
    ∀ args i, Invocation.ofArgs args = .ok i → i.action = .check →
      ∃ output, respond w args = .finished output ∧
        match Settings.loadWith w (i.root w) i.options.overrides with
        | .ok c => Concludes c (output.deliver {}).1 (output.deliver {}).2
        | .error e => (output.deliver {}).1 = .error (.corpus e) ∧
          exitCode (output.deliver {}).1 = 2 ∧ (output.deliver {}).2.written = .empty := by
  refine ⟨fun _ _ format c _ => concludes_check c format, ?_⟩
  intro args i hi hc
  refine ⟨i.execute w, ?_, ?_⟩
  · rw [respond, hi]
  · rw [Invocation.execute, hc, Invocation.settings]
    cases Settings.loadWith w (i.root w) i.options.overrides with
    | ok c => exact concludes_check c i.format
    | error e => exact ⟨rfl, rfl, rfl⟩

theorem check_verdict_instances :
    (Settings.loadWith { current := "/corpus", entry := fun _ => .absent } "/corpus" {} =
        .ok { root := "/corpus" } ∧
      ((Command.check { root := "/corpus" } .json).deliver {}).1 = .ok ()) ∧
    (Invocation.ofArgs ["check", "--max-n", "34", "--fibonacci-limit=40"] =
        .ok ⟨{ maxN := some 34, fibonacciLimit := some 40 }, .check⟩ ∧
      ∃ output,
        respond { current := "/corpus", entry := fun _ => .absent }
            ["check", "--max-n", "34", "--fibonacci-limit=40"] =
          .finished output ∧
        exitCode (output.deliver {}).1 = 1 ∧
        (output.deliver {}).2.EndsWith "\nCheck FAILED: 1 of 4 families disagree\n") ∧
    Invocation.ofArgs ["check"] = .ok ⟨{}, .check⟩ ∧
      ∃ output,
        respond { current := "/corpus", entry := fun _ => .directory } ["check"] =
          .finished output ∧
        exitCode (output.deliver {}).1 = 2 ∧ (output.deliver {}).2.written = .empty := by
  refine ⟨⟨rfl, ?_⟩, ⟨by decide, ?_⟩, by decide, ?_⟩
  · have h := (check_verdict { current := "/corpus", entry := fun _ => .absent }).1 "/corpus" {}
      .json _ rfl
    exact h.ok_iff.mpr (by decide)
  · obtain ⟨output, ho, h⟩ := (check_verdict { current := "/corpus", entry := fun _ => .absent }).2
      ["check", "--max-n", "34", "--fibonacci-limit=40"]
      ⟨{ maxN := some 34, fibonacciLimit := some 40 }, .check⟩ (by decide) rfl
    obtain ⟨-, he, hl⟩ := h.failed (Or.inl (by decide))
    exact ⟨output, ho, he, hl⟩
  · obtain ⟨output, ho, h⟩ := (check_verdict
      { current := "/corpus", entry := fun _ => .directory }).2 ["check"] ⟨{}, .check⟩ (by decide) rfl
    exact ⟨output, ho, h.2⟩

end RoutineCorpus
