import RoutineCorpus.Numeral.Integer

/-! # Decimal text read back

Reading digits gives the number they write, as long as it stays in range. The
canonical text of an integer is made of digits, after a hyphen for a negative
one, so reading it gives the integer again, and no two integers share a text.
-/

namespace RoutineCorpus.Numeral

variable {n v : Nat} {z lo hi : Int} {c : Char} {ds : List Char}

theorem isDigit_of_mem_digits (h : c ∈ digits n) : c.isDigit = true :=
  Nat.isDigit_of_mem_toDigits (by decide) (by decide) h

theorem digits_ne_nil (n : Nat) : digits n ≠ [] := Nat.toDigits_ne_nil

theorem exists_digits_eq_cons (n : Nat) :
    ∃ c cs, digits n = c :: cs ∧ c.isDigit = true := by
  cases h : digits n with
  | nil => exact absurd h (digits_ne_nil n)
  | cons c cs => exact ⟨c, cs, rfl, isDigit_of_mem_digits (by rw [h]; exact List.mem_cons_self)⟩

theorem ne_of_isDigit {d : Char} (h : c.isDigit = true) (hd : d.isDigit = false) : c ≠ d := by
  rintro rfl
  rw [h] at hd
  cases hd

theorem toList_decimal_ofNat (n : Nat) : (decimal n).toList = digits n :=
  String.toList_ofList

theorem toList_decimal_negSucc (n : Nat) :
    (decimal (.negSucc n)).toList = '-' :: digits (n + 1) :=
  String.toList_ofList

section Reading

theorem le_ofDigitChars (ds : List Char) (v : Nat) : v ≤ Nat.ofDigitChars 10 ds v := by
  induction ds generalizing v with
  | nil => simp
  | cons c ds ih =>
    rw [Nat.ofDigitChars_cons]
    exact Nat.le_trans (by omega) (ih _)

theorem readUp_eq_ok_iff (hv : v ≤ hi) : readUp hi v ds = .ok z ↔
    (∀ c ∈ ds, c.isDigit = true) ∧ z = Nat.ofDigitChars 10 ds v ∧ z ≤ hi := by
  -- The bound is checked at every digit; it suffices at the last one, since the value only grows.
  induction ds generalizing v with
  | nil =>
    simp only [readUp, Except.ok.injEq, List.not_mem_nil, false_implies, implies_true, true_and,
      Nat.ofDigitChars_nil]
    omega
  | cons c ds ih =>
    have hw : (v : Int) * 10 + digitValue c = (10 * v + digitValue c : Nat) := by omega
    have hc : Nat.ofDigitChars 10 (c :: ds) v = Nat.ofDigitChars 10 ds (10 * v + digitValue c) :=
      Nat.ofDigitChars_cons
    simp only [readUp, hw, List.forall_mem_cons, hc]
    by_cases hd : c.isDigit = true
    · by_cases hb : ((10 * v + digitValue c : Nat) : Int) ≤ hi
      · rw [if_pos hd, if_pos hb, ih hb]
        simp [hd]
      · have hl := le_ofDigitChars ds (10 * v + digitValue c)
        rw [if_pos hd, if_neg hb]
        simp only [reduceCtorEq, false_iff]
        omega
    · rw [if_neg hd]
      simp [hd]

theorem readDown_eq_ok_iff (hv : lo ≤ -v) : readDown lo (-v) ds = .ok z ↔
    (∀ c ∈ ds, c.isDigit = true) ∧ z = -Nat.ofDigitChars 10 ds v ∧ lo ≤ z := by
  induction ds generalizing v with
  | nil =>
    simp only [readDown, Except.ok.injEq, List.not_mem_nil, false_implies, implies_true, true_and,
      Nat.ofDigitChars_nil]
    omega
  | cons c ds ih =>
    have hw : -(v : Int) * 10 - digitValue c = -(10 * v + digitValue c : Nat) := by omega
    have hc : Nat.ofDigitChars 10 (c :: ds) v = Nat.ofDigitChars 10 ds (10 * v + digitValue c) :=
      Nat.ofDigitChars_cons
    simp only [readDown, hw, List.forall_mem_cons, hc]
    by_cases hd : c.isDigit = true
    · by_cases hb : lo ≤ -((10 * v + digitValue c : Nat) : Int)
      · rw [if_pos hd, if_pos hb, ih hb]
        simp [hd]
      · have hl := le_ofDigitChars ds (10 * v + digitValue c)
        rw [if_pos hd, if_neg hb]
        simp only [reduceCtorEq, false_iff]
        omega
    · rw [if_neg hd]
      simp [hd]

theorem readInteger_cons_of_isDigit (h : c.isDigit = true) (ds : List Char) :
    readInteger lo hi (c :: ds) = readUp hi 0 (c :: ds) := by
  have hp : c ≠ '+' := ne_of_isDigit h rfl
  have hm : c ≠ '-' := ne_of_isDigit h rfl
  unfold readInteger
  split <;> simp_all

theorem readInteger_hyphen (h : ds ≠ []) : readInteger lo hi ('-' :: ds) = readDown lo 0 ds := by
  cases ds with
  | nil => exact absurd rfl h
  | cons c ds => rfl

/-- The canonical text of an integer in range is read as that integer. -/
theorem readInteger_decimal (hlo : lo ≤ z) (hhi : z ≤ hi) (h₀ : lo ≤ 0) (h₁ : 0 ≤ hi) :
    readInteger lo hi (decimal z).toList = .ok z := by
  cases z with
  | ofNat n =>
    rw [Int.ofNat_eq_natCast, toList_decimal_ofNat]
    obtain ⟨c, cs, hd, hc⟩ := exists_digits_eq_cons n
    rw [hd, readInteger_cons_of_isDigit hc, ← hd]
    refine (readUp_eq_ok_iff (v := 0) h₁).mpr ⟨fun c => isDigit_of_mem_digits, ?_, hhi⟩
    rw [digits, Nat.ofDigitChars_ten_toDigits]
  | negSucc n =>
    rw [toList_decimal_negSucc, readInteger_hyphen (digits_ne_nil _)]
    refine (readDown_eq_ok_iff (v := 0) h₀).mpr ⟨fun c => isDigit_of_mem_digits, ?_, hlo⟩
    rw [digits, Nat.ofDigitChars_ten_toDigits]
    rfl

theorem readInt64_decimal (n : Int64) : readInt64 (decimal n.toInt) = .ok n := by
  have hlo : Int64.minValue.toInt ≤ n.toInt := Int64.le_toInt n
  have hhi : n.toInt ≤ Int64.maxValue.toInt := Int64.toInt_le n
  rw [readInt64, readInteger_decimal hlo hhi (by decide) (by decide)]
  exact congrArg Except.ok (Int64.ofInt_toInt n)

end Reading

theorem decimal_injective {y : Int} (h : decimal y = decimal z) : y = z := by
  have hy : readInteger (min 0 (min y z)) (max 0 (max y z)) (decimal y).toList = .ok y :=
    readInteger_decimal (by omega) (by omega) (by omega) (by omega)
  have hz : readInteger (min 0 (min y z)) (max 0 (max y z)) (decimal z).toList = .ok z :=
    readInteger_decimal (by omega) (by omega) (by omega) (by omega)
  rw [h, hz] at hy
  exact (Except.ok.inj hy).symm

def isNumeral (c : Char) : Bool := c.isDigit || c == '-'

theorem isNumeral_of_mem_decimal (h : c ∈ (decimal z).toList) : isNumeral c = true := by
  cases z with
  | ofNat n =>
    rw [Int.ofNat_eq_natCast, toList_decimal_ofNat] at h
    simp [isNumeral, isDigit_of_mem_digits h]
  | negSucc n =>
    rw [toList_decimal_negSucc, List.mem_cons] at h
    rcases h with rfl | h
    · rfl
    · simp [isNumeral, isDigit_of_mem_digits h]

theorem notMem_decimal (h : isNumeral c = false) (z : Int) : c ∉ (decimal z).toList := by
  intro hc
  rw [isNumeral_of_mem_decimal hc] at h
  cases h

theorem decimal_ne_nil (z : Int) : (decimal z).toList ≠ [] := by
  cases z with
  | ofNat n =>
    rw [Int.ofNat_eq_natCast, toList_decimal_ofNat]
    exact digits_ne_nil n
  | negSucc n =>
    rw [toList_decimal_negSucc]
    exact List.cons_ne_nil _ _

end RoutineCorpus.Numeral
