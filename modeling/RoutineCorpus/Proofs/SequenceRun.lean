import Mathlib.Data.List.TakeWhile
import RoutineCorpus.CommandLine.Execute
import RoutineCorpus.Proofs.Agreement
import RoutineCorpus.Proofs.Delivery
import RoutineCorpus.Proofs.Rerun
import RoutineCorpus.Proofs.Widening

/-! # Running a sequence routine from the command line

Numbers after `run` and a routine are words, the negative ones among them too,
although they start as options do. They are read as the integers they stand for,
and the line that comes out shows the exact result.
-/

namespace RoutineCorpus

namespace CommandLine

open Numeral

/-! ## Numbers among the arguments -/

section Tokens

variable {s : String} {c : Char} {cs : List Char}

theorem Token.ofString_of_ne (hs : s.toList = c :: cs) (hc : c ≠ '-') :
    Token.ofString s = .plain s := by
  unfold Token.ofString
  rw [hs]
  split
  case h_4 => rfl
  all_goals
    rename_i heq
    exact absurd (List.head_eq_of_cons_eq heq) hc

theorem Token.ofString_hyphen (hs : s.toList = '-' :: c :: cs) (hc : c ≠ '-') :
    Token.ofString s = .short (c :: cs) := by
  unfold Token.ofString
  rw [hs]
  split
  · rename_i heq
    cases heq
    exact absurd rfl hc
  · rename_i heq
    cases heq
    exact absurd rfl hc
  · rename_i heq
    cases heq
    rfl
  · rename_i hn
    exact absurd rfl (hn c cs)

theorem Token.ofString_decimal_ofNat (n : Nat) :
    Token.ofString (decimal n) = .plain (decimal n) := by
  obtain ⟨c, cs, hd, hc⟩ := exists_digits_eq_cons n
  exact Token.ofString_of_ne ((toList_decimal_ofNat n).trans hd) (ne_of_isDigit hc rfl)

theorem Token.ofString_decimal_negSucc (n : Nat) :
    Token.ofString (decimal (.negSucc n)) = .short (digits (n + 1)) := by
  obtain ⟨c, cs, hd, hc⟩ := exists_digits_eq_cons (n + 1)
  have hs := toList_decimal_negSucc n
  rw [hd] at hs ⊢
  exact Token.ofString_hyphen hs (ne_of_isDigit hc rfl)

theorem Token.ofString_name (r : Routine) : Token.ofString r.name = .plain r.name := by
  cases r <;> rfl

theorem looksNumeric_digits (n : Nat) : looksNumeric (digits n) = true := by
  have hs : (digits n).span Char.isDigit = (digits n, []) := by
    rw [List.span_eq_takeWhile_dropWhile,
      List.takeWhile_eq_self_iff.mpr fun c hc => isDigit_of_mem_digits hc,
      List.dropWhile_eq_nil_iff.mpr fun c hc => isDigit_of_mem_digits hc]
  have he : (digits n).isEmpty = false := by
    rw [List.isEmpty_eq_false_iff]
    exact digits_ne_nil n
  simp only [looksNumeric, hs, he]
  rfl

end Tokens

section Words

variable {o p : Options} {s : String} {rest words : List String}

theorem takeWords_of_plain {routine : Bool} (h : Token.ofString s = .plain s)
    (hrest : takeWords .run ⟨o, none⟩ true rest = .ok (p, words)) :
    takeWords .run ⟨o, none⟩ routine (s :: rest) = .ok (p, s :: words) := by
  unfold takeWords
  simp only [h, hrest]
  rfl

/-- Once the routine is named, what looks like a negative number is no option. -/
theorem takeWords_of_numeric {cs : List Char} (h : Token.ofString s = .short cs)
    (hcs : looksNumeric cs = true)
    (hrest : takeWords .run ⟨o, none⟩ true rest = .ok (p, words)) :
    takeWords .run ⟨o, none⟩ true (s :: rest) = .ok (p, s :: words) := by
  unfold takeWords
  simp only [h, hcs, hrest]
  rfl

theorem takeWords_decimals {α : Type} (value : α → Int) (o : Options) (xs : List α) :
    takeWords .run ⟨o, none⟩ true (xs.map fun x => decimal (value x)) =
      .ok (o, xs.map fun x => decimal (value x)) := by
  induction xs with
  | nil => rw [List.map_nil, takeWords]
  | cons x xs ih =>
    rw [List.map_cons]
    cases value x with
    | ofNat n => exact takeWords_of_plain (Token.ofString_decimal_ofNat n) ih
    | negSucc n =>
      exact takeWords_of_numeric (Token.ofString_decimal_negSucc n) (looksNumeric_digits _) ih

theorem ofArgs_run (r : Routine) (h : takeWords .run ⟨{}, none⟩ true words = .ok ({}, words)) :
    Invocation.ofArgs ("run" :: r.name :: words) = .ok ⟨{}, .run r.name words⟩ := by
  have hr : takeWords .run ⟨{}, none⟩ false (r.name :: words) = .ok ({}, r.name :: words) :=
    takeWords_of_plain (Token.ofString_name r) h
  have hc : Token.ofString "run" = .plain "run" := rfl
  unfold Invocation.ofArgs takeCommand
  simp only [hc, Verb.ofName?, hr]
  rfl

end Words

/-! ## From the arguments to the output -/

/-- Carrying out the arguments succeeds and writes exactly the text. -/
def Prints (w : Workspace) (args : List String) (text : String) : Prop :=
  ∃ output, respond w args = .finished output ∧ exitCode (output.deliver {}).1 = 0 ∧
    (output.deliver {}).2.written = text.toUTF8

/-- A routine that succeeds on the words in any new session is run, whatever the settings say. -/
theorem prints_run {w : Workspace} {c : Settings} (hc : Settings.load w w.current = .ok c)
    {words : List String} (hw : takeWords .run ⟨{}, none⟩ true words = .ok ({}, words))
    {e : Evaluation} (he : ∀ limit, ((Session.fresh limit).run e.routine words).1 = .ok e) :
    Prints w ("run" :: e.routine.name :: words)
      (e.routine.name ++ "(" ++ e.input.text ++ ") = " ++ e.output.text ++ "\n") := by
  have hl : ({ options := {}, action := .run e.routine.name words } : Invocation).settings w =
      .ok (c.applyOverrides ({} : Options).overrides) := by
    simp only [Invocation.settings, Invocation.root, Settings.loadWith, Option.getD_none, hc]
    rfl
  have hr : Command.run (c.applyOverrides ({} : Options).overrides) .text e.routine.name words =
      Command.attempted .text (.ok e) := by
    have hs := he (c.applyOverrides ({} : Options).overrides).fibonacciLimit
    rw [Command.run_eq_attempted, Routine.ofName?_name, ← hs]
    rfl
  have hw' := Command.writes_attempted_ok .text e
  refine ⟨Command.attempted .text (.ok e), ?_, ?_, ?_⟩
  · simp only [respond, ofArgs_run e.routine hw, ← hr, Invocation.execute, hl]
    rfl
  · rw [hw'.deliver_unlimited]
    rfl
  · rw [hw'.deliver_unlimited, text_evaluation]
    simp

theorem prints_run_sequence {w : Workspace} {c : Settings}
    (hc : Settings.load w w.current = .ok c) {r : Routine} (hr : r.shape = .sequence)
    {xs : List Int64} {v : Value} (hv : ∀ limit, Session.answer limit r (.sequence xs) = .ok v) :
    Prints w ("run" :: r.name :: xs.map fun x => decimal x.toInt)
      (r.name ++ "(" ++ ", ".intercalate (xs.map fun x => decimal x.toInt) ++ ") = " ++ v.text ++
        "\n") := by
  refine prints_run (e := ⟨r, .sequence xs, v⟩) hc (takeWords_decimals _ _ xs) ?_
  intro limit
  refine Session.run_eq_ok_iff.mpr ⟨rfl, ?_, hv limit⟩
  rw [hr, Input.read, Input.mapM_readInteger_decimals]
  rfl

/-- Wherever the settings can be loaded, a routine on sequences can be run on any integers. The
filter-double routines show the doubles of the positive ones in their order, and the sum routines
show the sum, both without overflow. -/
theorem run_sequence_routine (w : Workspace) (c : Settings)
    (hc : Settings.load w w.current = .ok c) (xs : List Int64) :
    let words := xs.map fun x => decimal x.toInt
    let line := fun (r : Routine) (v : String) =>
      r.name ++ "(" ++ ", ".intercalate words ++ ") = " ++ v ++ "\n"
    (∀ r : Routine, r.family = .filterDouble → Prints w ("run" :: r.name :: words)
      (line r ("[" ++ ", ".intercalate
        (((xs.map Int64.toInt).filter (0 < ·)).map fun z => decimal (2 * z)) ++ "]"))) ∧
    ∀ r : Routine, r.family = .sum → xs.length ≤ 2 ^ 59 → Prints w ("run" :: r.name :: words)
      (line r (decimal (xs.map Int64.toInt).sum)) := by
  intro words line
  constructor
  · intro r hr
    have hs : r.shape = .sequence := congrArg Family.shape hr
    have hd : ∀ ys : List Int128, (ys.map fun y => decimal y.toInt) =
        (ys.map Int128.toInt).map decimal := by
      simp
    have h := prints_run_sequence hc hs fun limit => answer_filterDouble hr xs
    rw [Value.text, hd, FilterDouble.toInt_pushDoubles, List.map_map] at h
    exact h
  · intro r hr hk
    have hs : r.shape = .sequence := congrArg Family.shape hr
    have h := prints_run_sequence hc hs fun limit => answer_sum hr xs
    rw [Value.text, Sum.toInt_total hk] at h
    exact h

theorem run_sequence_routine_at_limits :
    let w : Workspace := { current := "/corpus", entry := fun _ => .absent }
    Prints w ["run", "process_data", "-9223372036854775808", "0", "9223372036854775807"]
        "process_data(-9223372036854775808, 0, 9223372036854775807) = [18446744073709551614]\n" ∧
      Prints w ["run", "calculate_sum", "-9223372036854775808", "-9223372036854775808"]
        "calculate_sum(-9223372036854775808, -9223372036854775808) = -18446744073709551616\n" := by
  intro w
  have hc : Settings.load w w.current = .ok { root := "/corpus" } := rfl
  constructor
  · exact (run_sequence_routine w _ hc [Int64.minValue, 0, Int64.maxValue]).1 .processData rfl
  · exact (run_sequence_routine w _ hc [Int64.minValue, Int64.minValue]).2 .calculateSum rfl
      (by decide)

end CommandLine

end RoutineCorpus
