import RoutineCorpus.Proofs.EvaluationFailure
import RoutineCorpus.Proofs.NumberGrammar

/-! # The arguments that a routine takes

A routine takes the texts of integers or of two doubles, by its shape. From any
other arguments no input is read. A wrong number of arguments is then told
before their texts are looked at, and else the first argument that is not the
text of a number is quoted.
-/

namespace RoutineCorpus

namespace Input

def IsInteger (s : String) : Prop :=
  ∃ z : Int, Numeral.IntegerText s.toList z ∧ -2 ^ 63 ≤ z ∧ z ≤ 2 ^ 63 - 1

def IsReal (s : String) : Prop := ∃ x, Numeral.RealText s.toList x

/-- The arguments are the texts of the numbers of the input, in their order. -/
inductive Spells : Shape → List String → Input → Prop
  | sequence {args : List String} {xs : List Int64}
      (h : List.Forall₂ (fun s n => Numeral.IntegerText s.toList n.toInt) args xs) :
      Spells .sequence args (.sequence xs)
  | integer {s : String} {n : Int64} (h : Numeral.IntegerText s.toList n.toInt) :
      Spells .integer [s] (.integer n)
  | pair {s t : String} {a b : Float} (hs : Numeral.RealText s.toList a)
      (ht : Numeral.RealText t.toList b) : Spells .pair [s, t] (.pair a b)

/-- What is wrong with arguments, in the words in which it is told. The words after a quoted
argument are about this argument alone. -/
inductive Complaint : Shape → List String → String → Prop
  | element {before after : List String} {s : String} {e : Numeral.IntegerFault}
      (hb : ∀ t ∈ before, IsInteger t) (hs : ¬ IsInteger s) (he : Numeral.readInt64 s = .error e) :
      Complaint .sequence (before ++ s :: after) ("'" ++ s ++ "' is not an integer: " ++ e.message)
  | integer {s : String} {e : Numeral.IntegerFault} (hs : ¬ IsInteger s)
      (he : Numeral.readInt64 s = .error e) :
      Complaint .integer [s] ("'" ++ s ++ "' is not an integer: " ++ e.message)
  | left {s t : String} {e : Numeral.RealFault} (hs : ¬ IsReal s)
      (he : Numeral.readReal s = .error e) :
      Complaint .pair [s, t] ("'" ++ s ++ "' is not a number: " ++ e.message)
  | right {s t : String} {e : Numeral.RealFault} (hs : IsReal s) (ht : ¬ IsReal t)
      (he : Numeral.readReal t = .error e) :
      Complaint .pair [s, t] ("'" ++ t ++ "' is not a number: " ++ e.message)
  | expectedOne {args : List String} (h : args.length ≠ 1) :
      Complaint .integer args
        ("expected exactly one integer, got " ++ Numeral.decimal args.length ++ " arguments")
  | expectedTwo {args : List String} (h : args.length ≠ 2) :
      Complaint .pair args
        ("expected exactly two numbers, got " ++ Numeral.decimal args.length ++ " arguments")

/-! ## Single arguments -/

section Arguments

variable {s : String} {n : Int64} {x : Float} {fault : InputFault}

theorem readInteger_eq_ok_iff : readInteger s = .ok n ↔ Numeral.IntegerText s.toList n.toInt :=
  mapError_eq_ok_iff.trans Numeral.readInt64_eq_ok_iff

theorem readReal_eq_ok_iff : readReal s = .ok x ↔ Numeral.RealText s.toList x :=
  mapError_eq_ok_iff.trans Numeral.readReal_eq_ok_iff

theorem isInteger_iff : IsInteger s ↔ ∃ n, readInteger s = .ok n := by
  simp only [readInteger_eq_ok_iff]
  constructor
  · rintro ⟨z, hz, hl, hu⟩
    refine ⟨Int64.ofInt z, ?_⟩
    rwa [Int64.toInt_ofInt_of_le hl (by omega)]
  · rintro ⟨n, hn⟩
    exact ⟨n.toInt, hn, Int64.minValue_le_toInt n, Int64.toInt_le n⟩

theorem isReal_iff : IsReal s ↔ ∃ x, readReal s = .ok x := by
  simp only [readReal_eq_ok_iff]
  rfl

theorem readInteger_eq_error_iff : readInteger s = .error fault ↔
    ¬ IsInteger s ∧ ∃ e, Numeral.readInt64 s = .error e ∧ fault = .notAnInteger s e := by
  rw [readInteger, mapError_eq_error_iff, iff_and_self]
  rintro ⟨e, he, -⟩ hs
  obtain ⟨n, hn⟩ := isInteger_iff.mp hs
  rw [readInteger, he] at hn
  cases hn

theorem readReal_eq_error_iff : readReal s = .error fault ↔
    ¬ IsReal s ∧ ∃ e, Numeral.readReal s = .error e ∧ fault = .notANumber s e := by
  rw [readReal, mapError_eq_error_iff, iff_and_self]
  rintro ⟨e, he, -⟩ hs
  obtain ⟨x, hx⟩ := isReal_iff.mp hs
  rw [readReal, he] at hx
  cases hx

end Arguments

/-! ## Lists of arguments -/

section Lists

variable {args : List String} {x : Input} {fault : InputFault}

theorem read_integer_of_length_ne (h : args.length ≠ 1) :
    read .integer args = .error (.expectedOne args.length) := by
  unfold read
  split <;> simp_all

theorem read_pair_of_length_ne (h : args.length ≠ 2) :
    read .pair args = .error (.expectedTwo args.length) := by
  unfold read
  split <;> simp_all

theorem read_pair_eq_ok_iff {s t : String} : read .pair [s, t] = .ok x ↔
    ∃ a b, readReal s = .ok a ∧ readReal t = .ok b ∧ x = .pair a b := by
  rw [read, bind_eq_ok_iff]
  simp [bind_eq_ok_iff, pure, Except.pure, eq_comm (a := x)]

theorem read_pair_eq_error_iff {s t : String} : read .pair [s, t] = .error fault ↔
    readReal s = .error fault ∨ IsReal s ∧ readReal t = .error fault := by
  rw [read, bind_eq_error_iff, isReal_iff]
  simp [bind_eq_error_iff, pure, Except.pure]

/-- The inputs that are read are those that the arguments spell. -/
theorem read_eq_ok_iff {shape : Shape} : read shape args = .ok x ↔ Spells shape args x := by
  cases shape with
  | sequence =>
    rw [read, map_eq_ok_iff]
    simp only [mapM_eq_ok_iff, readInteger_eq_ok_iff]
    constructor
    · rintro ⟨xs, h, rfl⟩
      exact .sequence h
    · rintro ⟨h⟩
      exact ⟨_, h, rfl⟩
  | integer =>
    constructor
    · intro h
      by_cases hl : args.length = 1
      · obtain ⟨s, rfl⟩ := List.length_eq_one_iff.mp hl
        obtain ⟨n, hn, rfl⟩ := map_eq_ok_iff.mp h
        exact .integer (readInteger_eq_ok_iff.mp hn)
      · rw [read_integer_of_length_ne hl] at h
        cases h
    · intro h
      cases h with
      | integer hn => exact map_eq_ok_iff.mpr ⟨_, readInteger_eq_ok_iff.mpr hn, rfl⟩
  | pair =>
    constructor
    · intro h
      by_cases hl : args.length = 2
      · obtain ⟨s, t, rfl⟩ := List.length_eq_two.mp hl
        obtain ⟨a, b, ha, hb, rfl⟩ := read_pair_eq_ok_iff.mp h
        exact .pair (readReal_eq_ok_iff.mp ha) (readReal_eq_ok_iff.mp hb)
      · rw [read_pair_of_length_ne hl] at h
        cases h
    · intro h
      cases h with
      | pair ha hb =>
        exact read_pair_eq_ok_iff.mpr
          ⟨_, _, readReal_eq_ok_iff.mpr ha, readReal_eq_ok_iff.mpr hb, rfl⟩

theorem complaint_of_read_eq_error {shape : Shape} (h : read shape args = .error fault) :
    Complaint shape args fault.message := by
  cases shape with
  | sequence =>
    obtain ⟨before, s, after, rfl, hb, h⟩ := mapM_eq_error_iff.mp (map_eq_error_iff.mp h)
    obtain ⟨hs, e, he, rfl⟩ := readInteger_eq_error_iff.mp h
    exact .element (fun t ht => isInteger_iff.mpr (hb t ht)) hs he
  | integer =>
    by_cases hl : args.length = 1
    · obtain ⟨s, rfl⟩ := List.length_eq_one_iff.mp hl
      obtain ⟨hs, e, he, rfl⟩ := readInteger_eq_error_iff.mp (map_eq_error_iff.mp h)
      exact .integer hs he
    · rw [read_integer_of_length_ne hl] at h
      cases h
      exact .expectedOne hl
  | pair =>
    by_cases hl : args.length = 2
    · obtain ⟨s, t, rfl⟩ := List.length_eq_two.mp hl
      rcases read_pair_eq_error_iff.mp h with h | ⟨hs, h⟩
      · obtain ⟨hs, e, he, rfl⟩ := readReal_eq_error_iff.mp h
        exact .left hs he
      · obtain ⟨ht, e, he, rfl⟩ := readReal_eq_error_iff.mp h
        exact .right hs ht he
    · rw [read_pair_of_length_ne hl] at h
      cases h
      exact .expectedTwo hl

theorem Complaint.exists_fault {shape : Shape} {m : String} (h : Complaint shape args m) :
    ∃ fault, read shape args = .error fault ∧ fault.message = m := by
  cases h with
  | @element before after s e hb hs he =>
    refine ⟨.notAnInteger s e, map_eq_error_iff.mpr (mapM_eq_error_iff.mpr ?_), rfl⟩
    exact ⟨before, s, after, rfl, fun t ht => isInteger_iff.mp (hb t ht),
      readInteger_eq_error_iff.mpr ⟨hs, e, he, rfl⟩⟩
  | @integer s e hs he =>
    refine ⟨.notAnInteger s e, map_eq_error_iff.mpr ?_, rfl⟩
    exact readInteger_eq_error_iff.mpr ⟨hs, e, he, rfl⟩
  | @left s t e hs he =>
    refine ⟨.notANumber s e, read_pair_eq_error_iff.mpr (.inl ?_), rfl⟩
    exact readReal_eq_error_iff.mpr ⟨hs, e, he, rfl⟩
  | @right s t e hs ht he =>
    refine ⟨.notANumber t e, read_pair_eq_error_iff.mpr (.inr ⟨hs, ?_⟩), rfl⟩
    exact readReal_eq_error_iff.mpr ⟨ht, e, he, rfl⟩
  | expectedOne hl => exact ⟨_, read_integer_of_length_ne hl, rfl⟩
  | expectedTwo hl => exact ⟨_, read_pair_of_length_ne hl, rfl⟩

end Lists

/-- Arguments are read if and only if they spell an input of the routine's shape, and that input
is read. Otherwise the run fails with an error that names the routine and tells what is wrong,
and the session stays as it was. -/
theorem read_accepts_exactly (r : Routine) (args : List String) :
    (∀ x, read r.shape args = .ok x ↔ Spells r.shape args x) ∧
    (∀ text, (∃ fault, read r.shape args = .error fault ∧
        (Error.invalidInput r fault).message = text) ↔
      ∃ m, Complaint r.shape args m ∧ text = "Invalid input for " ++ r.name ++ ": " ++ m) ∧
    ∀ (s : Session) (fault : InputFault), read r.shape args = .error fault →
      s.run r args = (.error (.invalidInput r fault), s) := by
  refine ⟨fun x => read_eq_ok_iff, fun text => ⟨?_, ?_⟩, ?_⟩
  · rintro ⟨fault, h, rfl⟩
    exact ⟨fault.message, complaint_of_read_eq_error h, rfl⟩
  · rintro ⟨m, hm, rfl⟩
    obtain ⟨fault, h, rfl⟩ := hm.exists_fault
    exact ⟨fault, h, rfl⟩
  · intro s fault h
    simp only [Session.run, h]

-- A lone sign is no integer, and neither is a digit of another script.
example : read .sequence ["-007", "+9223372036854775807", "-", "x"] =
    .error (.notAnInteger "-" .invalidDigit) := by decide

example : read .sequence ["-9223372036854775808", "٣"] =
    .error (.notAnInteger "٣" .invalidDigit) := by decide

example : read .pair ["+.5e-1", "1.e"] = .error (.notANumber "1.e" .malformed) := by decide

end Input

end RoutineCorpus
