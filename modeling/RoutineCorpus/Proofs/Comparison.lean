import RoutineCorpus.Proofs.EvaluationFailure

/-! # Comparison with the first member

On each input a check takes the first value it obtains as the reference. This is
always the value of the family's first member, because no member succeeds where
the first one fails. So a check lists exactly the members that fail and those
whose value is not equal to that of the first member, in the order of the inputs
and for one input in the order of the members. Members of a duplicated family
never differ.
-/

namespace RoutineCorpus

/-- Equality of values as numbers: doubles are equal if they compare as equal. -/
inductive Value.Equal : Value → Value → Prop
  | sequence (xs : List Int128) : Equal (.sequence xs) (.sequence xs)
  | integer (n : Int128) : Equal (.integer n) (.integer n)
  | real {x y : Float} (h : (x == y) = true) : Equal (.real x) (.real y)

theorem Value.same_iff {v w : Value} : v.same w = true ↔ v.Equal w := by
  constructor
  · intro h
    cases v <;> cases w <;> simp only [same, beq_iff_eq, Bool.false_eq_true] at h
    case sequence.sequence xs ys =>
      subst h
      exact .sequence xs
    case integer.integer m n =>
      subst h
      exact .integer m
    case real.real x y => exact .real h
  · rintro (xs | n | h)
    · simp [same]
    · simp [same]
    · exact h

instance : DecidableRel Value.Equal := fun _ _ => decidable_of_iff _ Value.same_iff

namespace Session

variable {limit : UInt32} {f : Family} {first r : Routine} {rest : List Routine} {x : Input}

def failure? (limit : UInt32) (x : Input) (r : Routine) : Option Failure :=
  match answer limit r x with
  | .error e => some ⟨r, x, e.message⟩
  | .ok _ => none

/-- The mismatch of a routine with the first one on an input, if both have values in a new session
and these are not equal. -/
def mismatch? (limit : UInt32) (first : Routine) (x : Input) (r : Routine) : Option Mismatch :=
  match answer limit first x, answer limit r x with
  | .ok v, .ok w => if v.Equal w then none else some ⟨r, x, v, w⟩
  | _, _ => none

theorem exists_members_eq_cons (f : Family) :
    ∃ first rest, f.members = first :: rest ∧ first ≠ .calculatorDivide := by
  cases f <;> exact ⟨_, _, rfl, by decide⟩

theorem first_family_eq (hm : f.members = first :: rest) (hr : r ∈ f.members) :
    first.family = r.family := by
  rw [Family.mem_members.mp hr]
  exact Family.mem_members.mp (hm ▸ List.mem_cons_self)

/-- Any routine but division fails only where every routine of its family does. -/
theorem Fails.of_family_eq {e : Error} (h : Fails limit first x e)
    (hd : first ≠ .calculatorDivide) (hf : first.family = r.family) :
    ∃ e', Fails limit r x e' := by
  cases h with
  | shape hs =>
    have hr : first.shape = r.shape := congrArg Family.shape hf
    exact ⟨_, .shape (hr ▸ hs)⟩
  | limit hr hn => exact ⟨_, .limit (hf ▸ hr) hn⟩
  | factorial hr hn => exact ⟨_, .factorial (hf ▸ hr) hn⟩
  | fibonacci hr hn hl => exact ⟨_, .fibonacci (hf ▸ hr) hn hl⟩
  | zero hb => exact absurd rfl hd

theorem exists_answer_eq_error {e : Error} (h : answer limit first x = .error e)
    (hd : first ≠ .calculatorDivide) (hf : first.family = r.family) :
    ∃ e', answer limit r x = .error e' := by
  obtain ⟨e', he⟩ := (answer_eq_error_iff.mp h).of_family_eq hd hf
  exact ⟨e', he.answer_eq⟩

/-- Once there is a reference, it stays. -/
theorem mismatchesFrom_some {v : Value} (hv : answer limit first x = .ok v) (rs : List Routine) :
    Answers.mismatchesFrom x (some v) (rs.map fun r => (r, answer limit r x)) =
      rs.filterMap (mismatch? limit first x) := by
  induction rs with
  | nil => rfl
  | cons r rs ih =>
    rw [List.map_cons, List.filterMap_cons, ← ih, mismatch?, hv]
    cases answer limit r x with
    | error e => rfl
    | ok w =>
      simp only [Answers.mismatchesFrom, Value.same_iff]
      split <;> rfl

theorem mismatches_answers (hm : f.members = first :: rest) (hd : first ≠ .calculatorDivide) :
    (f.answers limit x).mismatches = rest.filterMap (mismatch? limit first x) := by
  cases ha : answer limit first x with
  | ok v =>
    rw [← mismatchesFrom_some ha, Family.answers, Answers.mismatches, hm, List.map_cons, ha]
    rfl
  | error e =>
    have hr : rest.filterMap (mismatch? limit first x) = [] := by
      simp [mismatch?, ha]
    have : Nonempty Error := ⟨e⟩
    have hall : ∀ r ∈ f.members, ∃ e', answer limit r x = .error e' :=
      fun r hr => exists_answer_eq_error ha hd (first_family_eq hm hr)
    choose! e' he using hall
    rw [hr]
    exact (answers_of_error he).1

theorem failures_answers :
    (f.answers limit x).failures = f.members.filterMap (failure? limit x) := by
  rw [Family.answers, Answers.failures, List.filterMap_map]
  apply List.filterMap_congr
  intro r _
  simp only [Function.comp_apply, failure?]
  cases answer limit r x <;> rfl

theorem equal_of_fit {r' : Routine} {o : Option Int128} {v w : Value} (hv : fit r o = .ok v)
    (hw : fit r' o = .ok w) : v.Equal w := by
  cases o with
  | none => cases hv
  | some n =>
    cases hv
    cases hw
    exact .integer n

/-- Two routines of a duplicated family that both have values on an input have equal ones. -/
theorem equal_of_duplicated {r' : Routine} {v w : Value} (hd : r.family.duplicated = true)
    (hr : r'.family = r.family) (hv : answer limit r x = .ok v) (hw : answer limit r' x = .ok w) :
    v.Equal w := by
  have hs : x.shape = r.shape := by
    by_contra hs
    cases hv.symm.trans (answer_of_shape_ne hs)
  cases hf : r.family with
  | filterDouble =>
    obtain ⟨xs, rfl⟩ := Input.exists_sequence (hs.trans (congrArg Family.shape hf))
    cases hv.symm.trans (answer_filterDouble hf xs)
    cases hw.symm.trans (answer_filterDouble (hr.trans hf) xs)
    exact .sequence _
  | sum =>
    obtain ⟨xs, rfl⟩ := Input.exists_sequence (hs.trans (congrArg Family.shape hf))
    cases hv.symm.trans (answer_sum hf xs)
    cases hw.symm.trans (answer_sum (hr.trans hf) xs)
    exact .integer _
  | factorial =>
    obtain ⟨n, rfl⟩ := Input.exists_integer (hs.trans (congrArg Family.shape hf))
    rw [answer_factorial hf] at hv
    rw [answer_factorial (hr.trans hf)] at hw
    exact equal_of_fit hv hw
  | fibonacci =>
    obtain ⟨n, rfl⟩ := Input.exists_integer (hs.trans (congrArg Family.shape hf))
    rw [answer_fibonacci hf] at hv
    rw [answer_fibonacci (hr.trans hf)] at hw
    by_cases hl : (limit.toNat : ℤ) < n.toInt
    · rw [if_pos hl] at hv
      cases hv
    · rw [if_neg hl] at hv hw
      exact equal_of_fit hv hw
  | arithmetic =>
    rw [hf] at hd
    cases hd

theorem mismatch?_of_duplicated (hd : f.duplicated = true) (hm : f.members = first :: rest)
    (hr : r ∈ rest) : mismatch? limit first x r = none := by
  have hmem : r ∈ f.members := hm ▸ List.mem_cons_of_mem first hr
  have hf := first_family_eq hm hmem
  have hdup : first.family.duplicated = true := by rwa [hf, Family.mem_members.mp hmem]
  rw [mismatch?]
  split
  · rename_i v w hv hw
    exact if_pos (equal_of_duplicated hdup hf.symm hv hw)
  · rfl

/-- A check accounts for every member on every input, whatever was done with the session before.
Its failures are the errors of new sessions. Its mismatches are the values of later members that
are not equal to the value of the first member, which has one whenever any member has. -/
theorem verifyFamily_accounts (limit : UInt32) (calls : List Call) (f : Family)
    (xs : List Input) :
    let check := ((after limit calls).verifyFamily f xs).1
    check.inputsChecked = xs.length ∧
    check.failures = xs.flatMap (fun x => f.members.filterMap (failure? limit x)) ∧
    (∃ first rest, f.members = first :: rest ∧
      (∀ x, ∀ r ∈ f.members, (∃ v, answer limit r x = .ok v) → ∃ v, answer limit first x = .ok v) ∧
      check.mismatches = xs.flatMap fun x => rest.filterMap (mismatch? limit first x)) ∧
    (f.duplicated = true → check.mismatches = []) := by
  intro check
  have hc : check = f.check limit xs :=
    (Sound.verifyFamily ⟨_, tracks_after limit calls⟩ f xs).1
  obtain ⟨first, rest, hm, hd⟩ := exists_members_eq_cons f
  have hmismatches : check.mismatches =
      xs.flatMap fun x => rest.filterMap (mismatch? limit first x) := by
    rw [hc]
    simp only [Family.check, mismatches_answers hm hd]
  refine ⟨by rw [hc]; rfl, ?_, ⟨first, rest, hm, ?_, hmismatches⟩, ?_⟩
  · rw [hc]
    simp only [Family.check, failures_answers]
  · rintro x r hr ⟨v, hv⟩
    cases ha : answer limit first x with
    | ok w => exact ⟨w, rfl⟩
    | error e =>
      obtain ⟨e', he⟩ := exists_answer_eq_error ha hd (first_family_eq hm hr)
      cases hv.symm.trans he
  · intro hdup
    rw [hmismatches, List.flatMap_eq_nil_iff]
    intro x _
    rw [List.filterMap_eq_nil_iff]
    exact fun r hr => mismatch?_of_duplicated hdup hm hr

theorem verifyFamily_accounts_instances :
    let s := after 30 [.evaluate .mathUtilsFactorial (.integer 5)]
    let zero := Input.pair 1.0 0.0
    (s.verifyFamily .arithmetic [zero, .integer 7]).1.mismatches =
        [⟨.calculatorMultiply, zero, .real 1.0, .real 0.0⟩] ∧
      (s.verifyFamily .arithmetic [zero, .integer 7]).1.failures.map (·.routine) =
        [.calculatorDivide, .calculatorAdd, .calculatorSubtract, .calculatorMultiply,
          .calculatorDivide] ∧
      (∃ v, answer 30 .calculatorAdd zero = .ok v) ∧
      (s.verifyFamily .factorial [.integer (-3), .integer 40, .sequence [1]]).1.mismatches =
        [] := by
  intro s zero
  obtain ⟨-, hf, ⟨first, rest, hm, hfirst, hmis⟩, -⟩ := verifyFamily_accounts 30
    [.evaluate .mathUtilsFactorial (.integer 5)] .arithmetic [zero, .integer 7]
  obtain ⟨-, -, -, hdup⟩ := verifyFamily_accounts 30
    [.evaluate .mathUtilsFactorial (.integer 5)] .factorial
    [.integer (-3), .integer 40, .sequence [1]]
  cases hm
  refine ⟨hmis.trans (by decide +kernel), ?_,
    hfirst zero .calculatorMultiply (by decide) ⟨_, rfl⟩, hdup rfl⟩
  exact (congrArg (List.map Failure.routine) hf).trans (by decide +kernel)

end Session

end RoutineCorpus
