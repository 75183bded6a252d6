import RoutineCorpus.Proofs.Agreement
import RoutineCorpus.Proofs.RunOutcome

/-! # When an evaluation fails

There are four reasons for an evaluation to fail: an input of another shape than
the routine takes, an index above the limit of the session, a result that does
not fit, and a divisor that is zero. Without one of them there is a value, of the
kind that the family gives. A run reads its input in the shape of its routine, so
the first reason does not arise there.
-/

namespace RoutineCorpus

namespace Routine

variable {r : Routine}

theorem onInteger?_of_shape_ne (h : r.shape ≠ .integer) (t : Factorial.Table) (n : Int64) :
    r.onInteger? t n = none := by
  cases r <;> first | rfl | exact absurd rfl h

theorem onPair?_of_shape_ne (h : r.shape ≠ .pair) (a b : Float) : r.onPair? a b = none := by
  cases r <;> first | rfl | exact absurd rfl h

theorem exists_onPair?_eq (h : r.family = .arithmetic) (hd : r ≠ .calculatorDivide) (a b : Float) :
    ∃ v, r.onPair? a b = some (.ok v) := by
  cases r <;> cases h
  case calculatorDivide => exact absurd rfl hd
  all_goals exact ⟨_, rfl⟩

theorem onPair?_divide (a b : Float) : calculatorDivide.onPair? a b =
    some (if b == 0.0 then .error .divisionByZero else .ok (a / b)) := by
  simp only [onPair?, bne, Bool.not_eq_true', ← Bool.not_eq_true, ite_not]

end Routine

/-! ## The two zeros -/

section Zeros

open Float.Model

theorem fields_of_unpack_eq_zero {v : BitVec 64} {s : UnpackedFloat.Sign}
    (h : UnpackedFloat.unpack .binary64 v = .zero s) :
    @UnpackedFloat.unpackExponent .binary64 v = 0#11 ∧
      @UnpackedFloat.unpackMantissa .binary64 v = 0#52 := by
  by_cases hn : @UnpackedFloat.unpackExponent .binary64 v = -1#11
  · have hs := h.symm.trans (if_pos hn)
    by_cases hm : @UnpackedFloat.unpackMantissa .binary64 v = 0#52
    · cases hs.trans (if_pos hm)
    · cases hs.trans (if_neg hm)
  · have hs := h.symm.trans (if_neg hn)
    by_cases he : @UnpackedFloat.unpackExponent .binary64 v = 0#11
    · refine ⟨he, ?_⟩
      by_contra hm
      cases (hs.trans (if_pos he)).trans (dif_neg hm)
    · cases hs.trans (if_neg he)

theorem toNat_of_unpack_eq_zero {v : BitVec 64} {s : UnpackedFloat.Sign}
    (h : UnpackedFloat.unpack .binary64 v = .zero s) : v.toNat = 0 ∨ v.toNat = 2 ^ 63 := by
  obtain ⟨he, hm⟩ := fields_of_unpack_eq_zero h
  rw [BitVec.toNat_eq] at he hm
  have hv := v.isLt
  simp [UnpackedFloat.unpackExponent, UnpackedFloat.unpackMantissa, Nat.shiftRight_eq_div_pow,
    Format.binary64, Format.numBits] at he hm
  omega

theorem exists_eq_zero_of_beq {x : UnpackedFloat} {s : UnpackedFloat.Sign}
    (h : x.beq (.zero s) = true) : ∃ s, x = .zero s := by
  cases x with
  | zero s => exact ⟨s, rfl⟩
  | notANumber => cases h
  | infinity s => cases s <;> cases h
  | finite s m e hm => cases s <;> cases h

theorem float_eq_of_toNat_eq {a b : Float}
    (h : a.toModel.toBits.toNat = b.toModel.toBits.toNat) : a = b := by
  obtain ⟨⟨u, hu⟩⟩ := a
  obtain ⟨⟨v, hv⟩⟩ := b
  obtain rfl : u = v := UInt64.toNat_inj.mp h
  rfl

/-- A double equals zero if it is one of the two zeros. -/
theorem float_beq_zero_iff {b : Float} : (b == 0.0) = true ↔ b = 0.0 ∨ b = -0.0 := by
  constructor
  · intro h
    obtain ⟨s, hs⟩ := exists_eq_zero_of_beq (x := b.toModel.unpack) (s := .positive) h
    rcases toNat_of_unpack_eq_zero hs with hb | hb
    · exact Or.inl (float_eq_of_toNat_eq (hb.trans (by decide)))
    · exact Or.inr (float_eq_of_toNat_eq (hb.trans (by decide)))
  · rintro (rfl | rfl) <;> decide

end Zeros

/-! ## Answers -/

namespace Input

variable {x : Input}

theorem exists_sequence (h : x.shape = .sequence) : ∃ xs, x = .sequence xs := by
  cases x <;> cases h
  exact ⟨_, rfl⟩

theorem exists_integer (h : x.shape = .integer) : ∃ n, x = .integer n := by
  cases x <;> cases h
  exact ⟨_, rfl⟩

theorem exists_pair (h : x.shape = .pair) : ∃ a b, x = .pair a b := by
  cases x <;> cases h
  exact ⟨_, _, rfl⟩

end Input

inductive Family.Gives : Family → Value → Prop
  | filterDouble (ys : List Int128) : Gives .filterDouble (.sequence ys)
  | sum (n : Int128) : Gives .sum (.integer n)
  | factorial (n : Int128) : Gives .factorial (.integer n)
  | fibonacci (n : Int128) : Gives .fibonacci (.integer n)
  | arithmetic (x : Float) : Gives .arithmetic (.real x)

namespace Session

variable {limit : UInt32} {r : Routine} {x : Input} {e : Error}

theorem answer_of_shape_ne (h : x.shape ≠ r.shape) :
    answer limit r x = .error (.invalidInput r (.wrongShape r.shape x.shape)) := by
  cases x with
  | sequence xs =>
    simp only [answer, evaluate, Routine.onSequence?_of_shape_ne h.symm]
  | integer n =>
    have he : (fresh limit).exceeds r n = false := by
      have hf : r.family ≠ .fibonacci := fun hf => h (congrArg Family.shape hf).symm
      simp [exceeds, hf]
    simp only [answer, evaluate, he, Routine.onInteger?_of_shape_ne h.symm]
    rfl
  | pair a b =>
    simp only [answer, evaluate, Routine.onPair?_of_shape_ne h.symm]

theorem answer_arithmetic (h : r.family = .arithmetic) (hd : r ≠ .calculatorDivide) (a b : Float) :
    ∃ v, answer limit r (.pair a b) = .ok (.real v) := by
  obtain ⟨v, hv⟩ := Routine.exists_onPair?_eq h hd a b
  exact ⟨v, by simp only [answer, evaluate, hv, Except.map]⟩

theorem answer_divide (a b : Float) : answer limit .calculatorDivide (.pair a b) =
    if b == 0.0 then .error .divisionByZero else .ok (.real (a / b)) := by
  simp only [answer, evaluate, Routine.onPair?_divide]
  split <;> rfl

/-- The reasons for which an evaluation fails in a session with the given limit, and the error of
each of them. -/
inductive Fails (limit : UInt32) : Routine → Input → Error → Prop
  | shape {r : Routine} {x : Input} (h : x.shape ≠ r.shape) :
      Fails limit r x (.invalidInput r (.wrongShape r.shape x.shape))
  | limit {r : Routine} {n : Int64} (hr : r.family = .fibonacci)
      (h : (limit.toNat : ℤ) < n.toInt) : Fails limit r (.integer n) (.inputTooLarge r n limit)
  | factorial {r : Routine} {n : Int64} (hr : r.family = .factorial) (h : 33 < n.toInt) :
      Fails limit r (.integer n) (.overflow r)
  | fibonacci {r : Routine} {n : Int64} (hr : r.family = .fibonacci) (h : 184 < n.toInt)
      (hl : n.toInt ≤ limit.toNat) : Fails limit r (.integer n) (.overflow r)
  | zero {a b : Float} (h : b = 0.0 ∨ b = -0.0) :
      Fails limit .calculatorDivide (.pair a b) .divisionByZero

theorem Fails.answer_eq (h : Fails limit r x e) : answer limit r x = .error e := by
  cases h with
  | shape h => exact answer_of_shape_ne h
  | limit hr h => rw [answer_fibonacci hr, if_pos h]
  | factorial hr h =>
    rw [answer_factorial hr, Factorial.value?_eq_none_iff.mpr h]
    rfl
  | fibonacci hr h hl =>
    rw [answer_fibonacci hr, if_neg (Int.not_lt.mpr hl),
      Fibonacci.value?_eq_none_iff.mpr h]
    rfl
  | zero h => rw [answer_divide, if_pos (float_beq_zero_iff.mpr h)]

/-- Where the guard lets a number through, there is a value. -/
theorem fit_eq_ok {v : Option Int128} (h : v ≠ none) : ∃ n, fit r v = .ok (.integer n) := by
  obtain ⟨n, rfl⟩ := Option.ne_none_iff_exists'.mp h
  exact ⟨n, rfl⟩

/-- An input of the right shape leads to a failure or to a value. -/
theorem exists_fails_or_gives_of_shape (hs : x.shape = r.shape) :
    (∃ e, Fails limit r x e) ∨ ∃ v, answer limit r x = .ok v ∧ r.family.Gives v := by
  cases hf : r.family with
  | filterDouble =>
    obtain ⟨xs, rfl⟩ := Input.exists_sequence (hs.trans (congrArg Family.shape hf))
    exact Or.inr ⟨_, answer_filterDouble hf xs, .filterDouble _⟩
  | sum =>
    obtain ⟨xs, rfl⟩ := Input.exists_sequence (hs.trans (congrArg Family.shape hf))
    exact Or.inr ⟨_, answer_sum hf xs, .sum _⟩
  | factorial =>
    obtain ⟨n, rfl⟩ := Input.exists_integer (hs.trans (congrArg Family.shape hf))
    by_cases hn : 33 < n.toInt
    · exact Or.inl ⟨_, .factorial hf hn⟩
    · obtain ⟨v, hv⟩ := fit_eq_ok (r := r) (mt Factorial.value?_eq_none_iff.mp hn)
      exact Or.inr ⟨_, (answer_factorial hf n).trans hv, .factorial v⟩
  | fibonacci =>
    obtain ⟨n, rfl⟩ := Input.exists_integer (hs.trans (congrArg Family.shape hf))
    by_cases hl : (limit.toNat : ℤ) < n.toInt
    · exact Or.inl ⟨_, .limit hf hl⟩
    · by_cases hn : 184 < n.toInt
      · exact Or.inl ⟨_, .fibonacci hf hn (Int.not_lt.mp hl)⟩
      · obtain ⟨v, hv⟩ := fit_eq_ok (r := r) (mt Fibonacci.value?_eq_none_iff.mp hn)
        exact Or.inr ⟨_, ((answer_fibonacci hf n).trans (if_neg hl)).trans hv, .fibonacci v⟩
  | arithmetic =>
    obtain ⟨a, b, rfl⟩ := Input.exists_pair (hs.trans (congrArg Family.shape hf))
    by_cases hd : r = .calculatorDivide
    · subst hd
      by_cases hb : (b == 0.0) = true
      · exact Or.inl ⟨_, .zero (float_beq_zero_iff.mp hb)⟩
      · exact Or.inr ⟨_, (answer_divide a b).trans (if_neg hb), .arithmetic _⟩
    · obtain ⟨v, hv⟩ := answer_arithmetic hf hd a b
      exact Or.inr ⟨_, hv, .arithmetic v⟩

theorem exists_fails_or_gives (limit : UInt32) (r : Routine) (x : Input) :
    (∃ e, Fails limit r x e) ∨ ∃ v, answer limit r x = .ok v ∧ r.family.Gives v := by
  by_cases hs : x.shape = r.shape
  · exact exists_fails_or_gives_of_shape hs
  · exact Or.inl ⟨_, .shape hs⟩

theorem answer_eq_error_iff : answer limit r x = .error e ↔ Fails limit r x e := by
  refine ⟨fun h => ?_, Fails.answer_eq⟩
  rcases exists_fails_or_gives limit r x with ⟨e', he⟩ | ⟨v, hv, -⟩
  · cases h.symm.trans he.answer_eq
    exact he
  · cases h.symm.trans hv

section Kinds

variable {r' : Routine}

theorem fails_invalidInput_iff {fault : InputFault} : Fails limit r x (.invalidInput r' fault) ↔
    x.shape ≠ r.shape ∧ r' = r ∧ fault = .wrongShape r.shape x.shape := by
  constructor
  · rintro ⟨h⟩
    exact ⟨h, rfl, rfl⟩
  · rintro ⟨h, rfl, rfl⟩
    exact .shape h

theorem fails_inputTooLarge_iff {n : Int64} {k : UInt32} :
    Fails limit r x (.inputTooLarge r' n k) ↔
      r.family = .fibonacci ∧ x = .integer n ∧ (limit.toNat : ℤ) < n.toInt ∧
        r' = r ∧ k = limit := by
  constructor
  · intro h
    cases h with
    | limit hr hn => exact ⟨hr, rfl, hn, rfl, rfl⟩
  · rintro ⟨hr, rfl, hn, rfl, rfl⟩
    exact .limit hr hn

theorem fails_overflow_iff : Fails limit r x (.overflow r') ↔
    r' = r ∧ ∃ n, x = .integer n ∧ (r.family = .factorial ∧ 33 < n.toInt ∨
      r.family = .fibonacci ∧ 184 < n.toInt ∧ n.toInt ≤ limit.toNat) := by
  constructor
  · intro h
    cases h with
    | factorial hr hn => exact ⟨rfl, _, rfl, Or.inl ⟨hr, hn⟩⟩
    | fibonacci hr hn hl => exact ⟨rfl, _, rfl, Or.inr ⟨hr, hn, hl⟩⟩
  · rintro ⟨rfl, n, rfl, ⟨hr, hn⟩ | ⟨hr, hn, hl⟩⟩
    · exact .factorial hr hn
    · exact .fibonacci hr hn hl

theorem fails_divisionByZero_iff : Fails limit r x .divisionByZero ↔
    r = .calculatorDivide ∧ ∃ a b, x = .pair a b ∧ (b = 0.0 ∨ b = -0.0) := by
  constructor
  · intro h
    cases h with
    | zero hb => exact ⟨rfl, _, _, rfl, hb⟩
  · rintro ⟨rfl, a, b, rfl, hb⟩
    exact .zero hb

end Kinds

end Session

/-! ## Faults of arguments -/

namespace InputFault

theorem not_prefix_message_wrongShape (expected actual : Shape) :
    ¬ "'".toList <+: (wrongShape expected actual).message.toList ∧
      ¬ "expected exactly".toList <+: (wrongShape expected actual).message.toList := by
  cases expected <;> cases actual <;> decide

variable {fault : InputFault}

theorem prefix_message_of_ne (h : ∀ expected actual, fault ≠ .wrongShape expected actual) :
    "'".toList <+: fault.message.toList ∨ "expected exactly".toList <+: fault.message.toList := by
  cases fault with
  | notAnInteger s e =>
    left
    exact prefix_toList_append (prefix_toList_append (prefix_toList_append (by decide) s) _) _
  | notANumber s e =>
    left
    exact prefix_toList_append (prefix_toList_append (prefix_toList_append (by decide) s) _) _
  | expectedOne k =>
    right
    exact prefix_toList_append (prefix_toList_append (by decide) _) _
  | expectedTwo k =>
    right
    exact prefix_toList_append (prefix_toList_append (by decide) _) _
  | wrongShape expected actual => exact absurd rfl (h expected actual)

/-- No other fault is told in the words of a wrong shape. -/
theorem message_ne_wrongShape (h : ∀ expected actual, fault ≠ .wrongShape expected actual)
    (expected actual : Shape) : fault.message ≠ (wrongShape expected actual).message := by
  intro he
  obtain ⟨hq, hx⟩ := not_prefix_message_wrongShape expected actual
  rw [← he] at hq hx
  rcases prefix_message_of_ne h with hp | hp
  · exact hq hp
  · exact hx hp

end InputFault

namespace Input

variable {expected actual : Shape}

theorem readInteger_ne_wrongShape (s : String) :
    readInteger s ≠ .error (.wrongShape expected actual) := by
  rw [readInteger]
  cases Numeral.readInt64 s <;> simp [Except.mapError]

theorem readReal_ne_wrongShape (s : String) :
    readReal s ≠ .error (.wrongShape expected actual) := by
  rw [readReal]
  cases Numeral.readReal s <;> simp [Except.mapError]

/-- Arguments are never blamed for their shape. -/
theorem read_ne_wrongShape (shape : Shape) (args : List String) :
    read shape args ≠ .error (.wrongShape expected actual) := by
  intro h
  unfold read at h
  split at h
  · obtain ⟨_, s, _, -, -, hs⟩ := mapM_eq_error_iff.mp (map_eq_error_iff.mp h)
    exact readInteger_ne_wrongShape s hs
  · exact readInteger_ne_wrongShape _ (map_eq_error_iff.mp h)
  · cases h
  · rcases bind_eq_error_iff.mp h with hs | ⟨a, -, h⟩
    · exact readReal_ne_wrongShape _ hs
    · exact readReal_ne_wrongShape _ (map_eq_error_iff.mp h)
  · cases h

end Input

namespace Session

variable {limit : UInt32} {calls : List Call} {r : Routine} {args : List String}

/-- What is wrong with the input of a run is wrong with its arguments. -/
theorem read_of_run_eq_invalidInput {r' : Routine} {fault : InputFault}
    (h : ((after limit calls).run r args).1 = .error (.invalidInput r' fault)) :
    Input.read r.shape args = .error fault := by
  rcases run_eq_error_iff.mp h with ⟨fault', hx, he⟩ | ⟨x, hx, hv⟩
  · cases he
    exact hx
  · rw [(tracks_after limit calls).evaluate_fst, answer_eq_error_iff, fails_invalidInput_iff] at hv
    exact absurd (Input.shape_of_read hx) hv.1

/-- An evaluation fails for exactly four reasons, after any history: its input has the wrong shape,
its index is above the limit, its result does not fit, or it divides by one of the two zeros. Each
has its own error. Without a reason there is a value of the kind that the family gives. A run is
never told that its input has the wrong shape. -/
theorem evaluate_fails_exactly (limit : UInt32) (calls : List Call) (r : Routine) :
    (∀ x : Input,
      let outcome := ((after limit calls).evaluate r x).1
      (∀ r' fault, outcome = .error (.invalidInput r' fault) ↔
        x.shape ≠ r.shape ∧ r' = r ∧ fault = .wrongShape r.shape x.shape) ∧
      (∀ r' n k, outcome = .error (.inputTooLarge r' n k) ↔
        r.family = .fibonacci ∧ x = .integer n ∧ (limit.toNat : ℤ) < n.toInt ∧ r' = r ∧ k = limit) ∧
      (∀ r', outcome = .error (.overflow r') ↔
        r' = r ∧ ∃ n, x = .integer n ∧ (r.family = .factorial ∧ 33 < n.toInt ∨
          r.family = .fibonacci ∧ 184 < n.toInt ∧ n.toInt ≤ limit.toNat)) ∧
      (outcome = .error .divisionByZero ↔
        r = .calculatorDivide ∧ ∃ a b, x = .pair a b ∧ (b = 0.0 ∨ b = -0.0)) ∧
      ((∃ v, outcome = .ok v ∧ r.family.Gives v) ∨ ∃ e, outcome = .error e ∧ Fails limit r x e)) ∧
    ∀ args r' fault expected actual,
      ((after limit calls).run r args).1 = .error (.invalidInput r' fault) →
        fault.message ≠ (InputFault.wrongShape expected actual).message := by
  constructor
  · intro x outcome
    have ho : outcome = answer limit r x := (tracks_after limit calls).evaluate_fst r x
    rw [ho]
    simp only [answer_eq_error_iff]
    refine ⟨fun r' fault => fails_invalidInput_iff, fun r' n k => fails_inputTooLarge_iff,
      fun r' => fails_overflow_iff, fails_divisionByZero_iff, ?_⟩
    rcases exists_fails_or_gives limit r x with ⟨e, he⟩ | hv
    · exact Or.inr ⟨e, he, he⟩
    · exact Or.inl hv
  · intro args r' fault expected actual h
    apply InputFault.message_ne_wrongShape
    rintro expected actual rfl
    exact Input.read_ne_wrongShape _ _ (read_of_run_eq_invalidInput h)

theorem evaluate_fails_exactly_instances :
    let s := after 200 [.evaluate .mathUtilsFactorial (.integer 34)]
    (s.evaluate .calculateSum (.integer 3)).1 =
        .error (.invalidInput .calculateSum (.wrongShape .sequence .integer)) ∧
      (s.evaluate .mathUtilsFibonacci (.integer 201)).1 =
        .error (.inputTooLarge .mathUtilsFibonacci 201 200) ∧
      (s.evaluate .mathUtilsFibonacci (.integer 185)).1 = .error (.overflow .mathUtilsFibonacci) ∧
      (s.evaluate .calculatorDivide (.pair 1.0 (-0.0))).1 = .error .divisionByZero ∧
      (s.evaluate .calculatorDivide (.pair 1.0 (0.0 / 0.0))).1 ≠ .error .divisionByZero ∧
      (s.run .calculateSum ["x"]).1 =
        .error (.invalidInput .calculateSum (.notAnInteger "x" .invalidDigit)) ∧
      (InputFault.notAnInteger "x" .invalidDigit).message ≠
        (InputFault.wrongShape .sequence .integer).message := by
  intro s
  obtain ⟨hs, hr⟩ := evaluate_fails_exactly 200
    [.evaluate .mathUtilsFactorial (.integer 34)] .calculateSum
  obtain ⟨hf, -⟩ := evaluate_fails_exactly 200
    [.evaluate .mathUtilsFactorial (.integer 34)] .mathUtilsFibonacci
  obtain ⟨hd, -⟩ := evaluate_fails_exactly 200
    [.evaluate .mathUtilsFactorial (.integer 34)] .calculatorDivide
  have hx : (s.run .calculateSum ["x"]).1 =
      .error (.invalidInput .calculateSum (.notAnInteger "x" .invalidDigit)) :=
    run_eq_error_iff.mpr (Or.inl ⟨_, by decide +kernel, rfl⟩)
  refine ⟨((hs _).1 _ _).mpr ⟨by decide, rfl, rfl⟩,
    ((hf _).2.1 _ _ _).mpr ⟨rfl, rfl, by decide, rfl, rfl⟩,
    ((hf _).2.2.1 _).mpr ⟨rfl, _, rfl, Or.inr ⟨rfl, by decide, by decide⟩⟩,
    (hd _).2.2.2.1.mpr ⟨rfl, _, _, rfl, Or.inr rfl⟩, ?_, hx, hr _ _ _ _ _ hx⟩
  rw [Ne, (hd _).2.2.2.1]
  rintro ⟨-, a, b, hab, hb⟩
  cases hab
  exact absurd hb (by decide)

end Session

end RoutineCorpus
