import Mathlib.Data.List.Intervals
import RoutineCorpus.Proofs.Fibonacci
import RoutineCorpus.Proofs.History
import RoutineCorpus.Proofs.Sequence

/-! # What a check reports

The members of a duplicated family give the same value on an input of their
shape, or all of them fail on it. Since answers do not depend on what was
evaluated before, the report of a check can be written down from the settings
alone.
-/

namespace RoutineCorpus

namespace Session

variable {s : Session} {limit : UInt32}

/-- The session has the given limit, and what its table holds comes from requests. -/
def Sound (limit : UInt32) (s : Session) : Prop := ∃ Q, s.Tracks limit Q

theorem sound_fresh (limit : UInt32) : Sound limit (fresh limit) := ⟨∅, tracks_fresh limit⟩

theorem Sound.evaluate (h : Sound limit s) (r : Routine) (x : Input) :
    (s.evaluate r x).1 = answer limit r x ∧ Sound limit (s.evaluate r x).2 := by
  obtain ⟨Q, hs⟩ := h
  exact ⟨hs.evaluate_fst r x, _, hs.step (r, x)⟩

/-- Steps that keep a property of the session and whose answers depend on nothing else in it. -/
theorem each_of_invariant {α β : Type} (I : Session → Prop) (step : Session → α → β × Session)
    (g : α → β) (hstep : ∀ s x, I s → (step s x).1 = g x ∧ I (step s x).2) (h : I s) (xs : List α) :
    (each step s xs).1 = xs.map g ∧ I (each step s xs).2 := by
  induction xs generalizing s with
  | nil => exact ⟨rfl, h⟩
  | cons x xs ih =>
    obtain ⟨hx, hs⟩ := hstep s x h
    obtain ⟨hxs, hs'⟩ := ih hs
    rw [each_cons, List.map_cons, hx, hxs]
    exact ⟨rfl, hs'⟩

end Session

open Session

/-- The answers of a family on an input, each from a session of its own. -/
def Family.answers (limit : UInt32) (f : Family) (x : Input) : Answers :=
  ⟨x, f.members.map fun r => (r, answer limit r x)⟩

def Family.check (limit : UInt32) (f : Family) (xs : List Input) : FamilyCheck where
  family := f
  members := f.members
  inputsChecked := xs.length
  mismatches := xs.flatMap fun x => (f.answers limit x).mismatches
  failures := xs.flatMap fun x => (f.answers limit x).failures

namespace Session

variable {s : Session} {limit : UInt32}

theorem Sound.evaluateAll (h : Sound limit s) (f : Family) (x : Input) :
    (s.evaluateAll f.members x).1 = f.answers limit x ∧
      Sound limit (s.evaluateAll f.members x).2 := by
  obtain ⟨ha, hs⟩ := each_of_invariant (Sound limit)
    (fun s r => ((r, (s.evaluate r x).1), (s.evaluate r x).2)) (fun r => (r, answer limit r x))
    (fun s r hs => ⟨congrArg (Prod.mk r) (hs.evaluate r x).1, (hs.evaluate r x).2⟩) h f.members
  exact ⟨congrArg (Answers.mk x) ha, hs⟩

/-- A check does not depend on the history of its session. -/
theorem Sound.verifyFamily (h : Sound limit s) (f : Family) (xs : List Input) :
    (s.verifyFamily f xs).1 = f.check limit xs ∧ Sound limit (s.verifyFamily f xs).2 := by
  obtain ⟨ha, hs⟩ := each_of_invariant (Sound limit) (fun s x => s.evaluateAll f.members x)
    (f.answers limit) (fun s x hs => hs.evaluateAll f x) h xs
  refine ⟨?_, hs⟩
  simp only [Session.verifyFamily, ha, Family.check, List.flatMap_map]

end Session

section Families

variable {limit : UInt32} {f : Family} {r : Routine} {x : Input}

theorem answer_filterDouble (h : r.family = .filterDouble) (xs : List Int64) :
    answer limit r (.sequence xs) =
      .ok (.sequence (FilterDouble.pushDoubles (xs.map Int128.ofInt64))) := by
  simp only [answer, evaluate, Routine.onSequence?_of_filterDouble h]

theorem answer_sum (h : r.family = .sum) (xs : List Int64) :
    answer limit r (.sequence xs) =
      .ok (.integer (Sum.total (xs.map Int128.ofInt64))) := by
  simp only [answer, evaluate, Routine.onSequence?_of_sum h]

/-- The answer of an integer routine, given its value if there is one that fits. -/
def fit (r : Routine) (v : Option Int128) : Except Error Value :=
  (okOr (.overflow r) v).map .integer

theorem answer_factorial (h : r.family = .factorial) (n : Int64) :
    answer limit r (.integer n) = fit r (Factorial.value? n) := by
  cases r <;> cases h
  case calculateFactorial => exact congrArg (Except.map Value.integer) (Factorial.calculate_eq n)
  case mathUtilsFactorial =>
    rw [answer, evaluate_mathUtilsFactorial,
      (Factorial.Table.lookup_spec (tracks_fresh limit).holds).1]
    rfl

theorem answer_fibonacci (h : r.family = .fibonacci) (n : Int64) :
    answer limit r (.integer n) =
      if (limit.toNat : ℤ) < n.toInt then .error (.inputTooLarge r n limit)
      else fit r (Fibonacci.value? n) := by
  have he : (fresh limit).exceeds r n = decide ((limit.toNat : ℤ) < n.toInt) := by
    rw [exceeds, h]
    rfl
  have ho : ∃ t, r.onInteger? (fresh limit).factorials n =
      some (okOr (.overflow r) (Fibonacci.value? n), t) := by
    cases r <;> cases h
    case calculateFibonacci =>
      exact ⟨_, by rw [Routine.onInteger?, Fibonacci.calculateLoop_eq, Fibonacci.calculate,
        Fibonacci.recurse_eq]⟩
    case mathUtilsFibonacci =>
      exact ⟨_, by rw [Routine.onInteger?, Fibonacci.mathUtilsLoop_eq, Fibonacci.mathUtils,
        Fibonacci.recurse_eq]⟩
  obtain ⟨t, ht⟩ := ho
  simp only [answer, evaluate, he, ht, decide_eq_true_eq, fit]
  split <;> rfl

theorem mismatchesFrom_of_ok {v : Value} (hv : v.same v = true)
    {reference : Option Value} (href : reference = none ∨ reference = some v) (rs : List Routine) :
    Answers.mismatchesFrom x reference (rs.map fun r => (r, .ok v)) = [] := by
  induction rs generalizing reference with
  | nil => rfl
  | cons r rs ih =>
    rcases href with rfl | rfl
    · exact ih (Or.inr rfl)
    · rw [List.map_cons, Answers.mismatchesFrom, if_pos hv]
      exact ih (Or.inr rfl)

theorem mismatchesFrom_of_error (e : Routine → Error) (reference : Option Value)
    (rs : List Routine) :
    Answers.mismatchesFrom x reference (rs.map fun r => (r, .error (e r))) = [] := by
  induction rs with
  | nil => rfl
  | cons r rs ih => cases reference <;> exact ih

theorem answers_eq_of_forall {g : Routine → Except Error Value}
    (h : ∀ r ∈ f.members, answer limit r x = g r) :
    f.answers limit x = ⟨x, f.members.map fun r => (r, g r)⟩ := by
  rw [Family.answers, List.map_congr_left fun r hr => congrArg (Prod.mk r) (h r hr)]

/-- Members that all give one value leave no trace in a check. -/
theorem answers_of_ok {v : Value} (hv : v.same v = true)
    (h : ∀ r ∈ f.members, answer limit r x = .ok v) :
    (f.answers limit x).mismatches = [] ∧ (f.answers limit x).failures = [] := by
  rw [answers_eq_of_forall h]
  refine ⟨mismatchesFrom_of_ok hv (Or.inl rfl) _, ?_⟩
  simp [Answers.failures]

/-- Members that all fail are failures one by one. -/
theorem answers_of_error {e : Routine → Error}
    (h : ∀ r ∈ f.members, answer limit r x = .error (e r)) :
    (f.answers limit x).mismatches = [] ∧
      (f.answers limit x).failures = f.members.map fun r => ⟨r, x, (e r).message⟩ := by
  rw [answers_eq_of_forall h]
  refine ⟨mismatchesFrom_of_error e none _, ?_⟩
  simp [Answers.failures, List.filterMap_map]

theorem answers_sequence (hf : f.shape = .sequence) (xs : List Int64) :
    (f.answers limit (.sequence xs)).mismatches = [] ∧
      (f.answers limit (.sequence xs)).failures = [] := by
  cases f <;> cases hf
  · exact answers_of_ok (by simp [Value.same])
      fun r hr => answer_filterDouble (Family.mem_members.mp hr) xs
  · exact answers_of_ok (by simp [Value.same])
      fun r hr => answer_sum (Family.mem_members.mp hr) xs

def failuresAt (rs : List Routine) (text : Routine → ℕ → String) (n : ℕ) : List Failure :=
  rs.map fun r => ⟨r, .integer (.ofNat n), text r n⟩

def overflowText (r : Routine) : String := s!"Arithmetic overflow in {r.name}"

def limitText (limit : ℕ) (r : Routine) (n : ℕ) : String :=
  s!"{r.name}({Numeral.decimal n}) exceeds the configured limit of {Numeral.decimal limit}"

theorem message_inputTooLarge {m : Int64} {n : ℕ} (h : m.toInt = n) (r : Routine) :
    (Error.inputTooLarge r m limit).message = limitText limit.toNat r n := by
  unfold Error.message limitText
  simp only [h]

theorem answers_of_fit {n : ℕ} {v : Option Int128}
    (h : ∀ r ∈ f.members, answer limit r (.integer (.ofNat n)) = fit r v) :
    (f.answers limit (.integer (.ofNat n))).mismatches = [] ∧
      (f.answers limit (.integer (.ofNat n))).failures =
        if v = none then failuresAt f.members (fun r _ => overflowText r) n else [] := by
  cases v with
  | none => exact answers_of_error h
  | some v => exact answers_of_ok (by simp [Value.same]) h

theorem answers_factorial (limit : UInt32) {n : ℕ} (hn : n < 2 ^ 63) :
    (Family.factorial.answers limit (.integer (.ofNat n))).mismatches = [] ∧
      (Family.factorial.answers limit (.integer (.ofNat n))).failures =
        if 34 ≤ n then failuresAt Family.factorial.members (fun r _ => overflowText r) n
        else [] := by
  have hv : Factorial.value? (.ofNat n) = none ↔ 34 ≤ n := by
    rw [Factorial.value?_eq_none_iff, Int64.toInt_ofNat_of_lt hn]
    omega
  simp only [← hv]
  exact answers_of_fit fun r hr => answer_factorial (Family.mem_members.mp hr) _

theorem answers_fibonacci (limit : UInt32) {n : ℕ} (hn : n < 2 ^ 63) :
    (Family.fibonacci.answers limit (.integer (.ofNat n))).mismatches = [] ∧
      (Family.fibonacci.answers limit (.integer (.ofNat n))).failures =
        if min limit.toNat 184 + 1 ≤ n then
          failuresAt Family.fibonacci.members
            (fun r n => if limit.toNat < n then limitText limit.toNat r n else overflowText r) n
        else [] := by
  have hi : (Int64.ofNat n).toInt = n := Int64.toInt_ofNat_of_lt hn
  have ha : ∀ r ∈ Family.fibonacci.members, answer limit r (.integer (.ofNat n)) =
      if limit.toNat < n then .error (.inputTooLarge r (.ofNat n) limit)
      else fit r (Fibonacci.value? (.ofNat n)) := by
    intro r hr
    rw [answer_fibonacci (Family.mem_members.mp hr), hi]
    simp only [Int.ofNat_lt]
  by_cases hl : limit.toNat < n
  · simp only [if_pos hl] at ha
    rw [if_pos (by omega)]
    simpa only [message_inputTooLarge hi, failuresAt, if_pos hl] using answers_of_error ha
  · simp only [if_neg hl] at ha
    have hv : Fibonacci.value? (.ofNat n) = none ↔ min limit.toNat 184 + 1 ≤ n := by
      rw [Fibonacci.value?_eq_none_iff, hi]
      omega
    simpa only [hv, failuresAt, if_neg hl] using answers_of_fit ha

theorem Family.members_factorial :
    Family.factorial.members = [.calculateFactorial, .mathUtilsFactorial] := by
  decide

theorem Family.members_fibonacci :
    Family.fibonacci.members = [.calculateFibonacci, .mathUtilsFibonacci] := by
  decide

theorem Family.check_eq_of {xs : List Input} {k : ℕ} {fs : List Failure} (hk : xs.length = k)
    (h : (f.check limit xs).mismatches = [] ∧ (f.check limit xs).failures = fs) :
    f.check limit xs = ⟨f, f.members, k, [], fs⟩ := by
  obtain ⟨hm, hf⟩ := h
  rw [← hk, ← hm, ← hf]
  rfl

end Families

/-- Numbers below the bound contribute nothing. -/
theorem flatMap_range_eq_Ico {α : Type} (b k : ℕ) (g : ℕ → List α) :
    (List.range k).flatMap (fun n => if b ≤ n then g n else []) = (List.Ico b k).flatMap g := by
  have hf : ∀ l : List ℕ, l.flatMap (fun n => if b ≤ n then g n else []) =
      (l.filter (b ≤ ·)).flatMap g := by
    intro l
    induction l with
    | nil => rfl
    | cons n l ih =>
      rw [List.flatMap_cons, ih, List.filter_cons]
      by_cases hn : b ≤ n <;> simp [hn]
  rw [hf, ← List.Ico.zero_bot, List.Ico.filter_le, Nat.zero_max]

namespace Settings

variable (c : Settings)

def duplicatedFamilies : List Family := [.filterDouble, .sum, .factorial, .fibonacci]

def expectedInputs : Family → ℕ
  | .filterDouble | .sum => c.checkSequences.length
  | .factorial | .fibonacci => c.checkMaxN.toNat + 1
  | .arithmetic => 0

/-- The factorial routines overflow from `34` on. The Fibonacci routines fail above the limit, and
from `185` on in any case. -/
def expectedFailures : Family → List Failure
  | .factorial =>
    (List.Ico 34 (c.checkMaxN.toNat + 1)).flatMap <|
      failuresAt [.calculateFactorial, .mathUtilsFactorial] fun r _ => overflowText r
  | .fibonacci =>
    (List.Ico (min c.fibonacciLimit.toNat 184 + 1) (c.checkMaxN.toNat + 1)).flatMap <|
      failuresAt [.calculateFibonacci, .mathUtilsFibonacci] fun r n =>
        if c.fibonacciLimit.toNat < n then limitText c.fibonacciLimit.toNat r n else overflowText r
  | _ => []

def expectedCheck (f : Family) : FamilyCheck where
  family := f
  members := f.members
  inputsChecked := c.expectedInputs f
  mismatches := []
  failures := c.expectedFailures f

theorem check_sequence {f : Family} (hf : f.shape = .sequence) (limit : UInt32) :
    (f.check limit (c.sampleInputs f)).mismatches = [] ∧
      (f.check limit (c.sampleInputs f)).failures = [] := by
  have hx : c.sampleInputs f = c.checkSequences.map .sequence := by rw [sampleInputs, hf]
  simp only [Family.check, hx, List.flatMap_map, List.flatMap_eq_nil_iff]
  exact ⟨fun xs _ => (answers_sequence hf xs).1, fun xs _ => (answers_sequence hf xs).2⟩

/-- A family of integer routines fails where its answers on the samples do. -/
theorem check_integer {f : Family} (hf : f.shape = .integer) {limit : UInt32} {b : ℕ}
    {g : ℕ → List Failure}
    (h : ∀ n < 2 ^ 63, (f.answers limit (.integer (.ofNat n))).mismatches = [] ∧
      (f.answers limit (.integer (.ofNat n))).failures = if b ≤ n then g n else []) :
    (f.check limit (c.sampleInputs f)).mismatches = [] ∧
      (f.check limit (c.sampleInputs f)).failures =
        (List.Ico b (c.checkMaxN.toNat + 1)).flatMap g := by
  have hx : c.sampleInputs f =
      (List.range (c.checkMaxN.toNat + 1)).map fun n => .integer (.ofNat n) := by
    rw [sampleInputs, hf]
  have hn : ∀ n ∈ List.range (c.checkMaxN.toNat + 1), n < 2 ^ 63 := by
    intro n hn
    have hm := c.checkMaxN.toNat_lt
    have hl := List.mem_range.mp hn
    omega
  simp only [Family.check, hx, List.flatMap_map]
  constructor
  · exact List.flatMap_eq_nil_iff.mpr fun n hr => (h n (hn n hr)).1
  · rw [List.flatMap_congr fun n hr => (h n (hn n hr)).2, flatMap_range_eq_Ico]

theorem length_sampleInputs (f : Family) : (c.sampleInputs f).length = c.expectedInputs f := by
  cases f <;> simp [sampleInputs, expectedInputs, Family.shape]

/-- The check of a duplicated family on its samples. -/
theorem check_eq_expectedCheck {f : Family} (hf : f ∈ duplicatedFamilies) :
    f.check c.fibonacciLimit (c.sampleInputs f) = c.expectedCheck f := by
  apply Family.check_eq_of (c.length_sampleInputs f)
  cases f with
  | filterDouble => exact c.check_sequence rfl _
  | sum => exact c.check_sequence rfl _
  | factorial =>
    have h := c.check_integer (f := .factorial) rfl fun n hn =>
      answers_factorial c.fibonacciLimit hn
    rwa [Family.members_factorial] at h
  | fibonacci =>
    have h := c.check_integer (f := .fibonacci) rfl fun n hn =>
      answers_fibonacci c.fibonacciLimit hn
    rwa [Family.members_fibonacci] at h
  | arithmetic => exact absurd hf (by decide)

theorem verify_skipped : c.verify.skipped = duplicatedFamilies.filter (· ∈ c.exclude) := by
  have h : c.verify.skipped = duplicatedFamilies.filter (c.exclude.contains ·) := by
    simp only [verify, List.partition_eq_filter_filter]
    rfl
  simpa only [List.contains_eq_mem] using h

theorem included_eq : (Family.all.filter (·.duplicated)).filter (not ∘ (c.exclude.contains ·)) =
    duplicatedFamilies.filter (· ∉ c.exclude) := by
  have hd : Family.all.filter (·.duplicated) = duplicatedFamilies := rfl
  rw [hd]
  apply List.filter_congr
  intro f _
  simp

theorem verify_families : c.verify.families =
    (duplicatedFamilies.filter (· ∉ c.exclude)).map c.expectedCheck := by
  obtain ⟨h, -⟩ := each_of_invariant (Sound c.fibonacciLimit)
    (fun s f => s.verifyFamily f (c.sampleInputs f))
    (fun f => f.check c.fibonacciLimit (c.sampleInputs f))
    (fun s f hs => hs.verifyFamily f (c.sampleInputs f)) (sound_fresh c.fibonacciLimit)
    (duplicatedFamilies.filter (· ∉ c.exclude))
  rw [← List.map_congr_left fun f hf => c.check_eq_expectedCheck (List.mem_filter.mp hf).1, ← h]
  simp only [verify, List.partition_eq_filter_filter, included_eq]
  rfl

/-- The report of a check, for all settings. -/
theorem verify_exact : c.verify =
    { families := (duplicatedFamilies.filter (· ∉ c.exclude)).map c.expectedCheck
      skipped := duplicatedFamilies.filter (· ∈ c.exclude) } := by
  rw [← verify_families, ← verify_skipped]

end Settings

end RoutineCorpus
