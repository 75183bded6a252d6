import RoutineCorpus.Proofs.Decimal
import RoutineCorpus.Proofs.Delivery
import RoutineCorpus.Proofs.Discrete
import RoutineCorpus.Proofs.History

/-! # Printed evaluations

The line of an evaluation shows the input in canonical spelling, whatever
spelling the arguments had. Cut at its commas the input gives arguments again,
and running the routine on them gives the same evaluation in any session with
the same limit. A line is shown by one evaluation only.
-/

namespace RoutineCorpus

/-! ## Arguments out of an input -/

/-- Cut at every comma that a blank follows. -/
def cut : List Char → List (List Char)
  | [] => [[]]
  | ',' :: ' ' :: cs => [] :: cut cs
  | c :: cs => (cut cs).modifyHead (c :: ·)

/-- The arguments that an input is shown with. The empty text shows none. -/
def arguments (s : String) : List String :=
  if s = "" then [] else (cut s.toList).map String.ofList

section Cut

variable {cs : List Char}

theorem cut_cons_of_ne {c : Char} (h : c ≠ ',') (cs : List Char) :
    cut (c :: cs) = (cut cs).modifyHead (c :: ·) := by
  rw [cut]
  rintro ds rfl
  exact absurd rfl h

theorem cut_of_notMem (h : ',' ∉ cs) : cut cs = [cs] := by
  induction cs with
  | nil => rfl
  | cons c cs ih =>
    rw [List.mem_cons, not_or] at h
    rw [cut_cons_of_ne (Ne.symm h.1), ih h.2]
    rfl

theorem cut_append (h : ',' ∉ cs) (ds : List Char) :
    cut (cs ++ ',' :: ' ' :: ds) = cs :: cut ds := by
  induction cs with
  | nil => rfl
  | cons c cs ih =>
    rw [List.mem_cons, not_or] at h
    rw [List.cons_append, cut_cons_of_ne (Ne.symm h.1), ih h.2]
    rfl

theorem cut_intercalate {ts : List (List Char)} (h : ∀ t ∈ ts, ',' ∉ t) (hts : ts ≠ []) :
    cut ([',', ' '].intercalate ts) = ts := by
  induction ts with
  | nil => exact absurd rfl hts
  | cons t ts ih =>
    cases ts with
    | nil =>
      rw [List.intercalate_singleton]
      exact cut_of_notMem (h t List.mem_cons_self)
    | cons u ts =>
      rw [List.intercalate_cons_cons, List.append_assoc]
      have hc := cut_append (h t List.mem_cons_self) ([',', ' '].intercalate (u :: ts))
      have hu := ih (fun t' ht' => h t' (.tail t ht')) (List.cons_ne_nil u ts)
      rw [hu] at hc
      exact hc

/-- The texts joined, if none of them is empty or holds a comma, are the arguments again. -/
theorem arguments_intercalate {ts : List String} (h : ∀ t ∈ ts, t ≠ "" ∧ ',' ∉ t.toList) :
    arguments (", ".intercalate ts) = ts := by
  cases ts with
  | nil => rfl
  | cons t ts =>
    have hc : cut (", ".intercalate (t :: ts)).toList = (t :: ts).map String.toList := by
      rw [String.toList_intercalate]
      apply cut_intercalate
      · intro l hl
        obtain ⟨u, hu, rfl⟩ := List.mem_map.mp hl
        exact (h u hu).2
      · exact List.cons_ne_nil _ _
    have hne : ", ".intercalate (t :: ts) ≠ "" := by
      intro he
      rw [he] at hc
      exact (h t List.mem_cons_self).1 (String.toList_inj.mp (List.head_eq_of_cons_eq hc).symm)
    rw [arguments, if_neg hne, hc, List.map_map]
    simp

end Cut

theorem notMem_intercalate {c : Char} {sep : String} (hs : c ∉ sep.toList) {ts : List String}
    (h : ∀ t ∈ ts, c ∉ t.toList) : c ∉ (sep.intercalate ts).toList := by
  induction ts with
  | nil => exact List.not_mem_nil
  | cons t ts ih =>
    rw [List.forall_mem_cons] at h
    cases ts with
    | nil => simpa using h.1
    | cons u ts =>
      rw [String.intercalate_cons_cons, String.toList_append, String.toList_append,
        List.mem_append, List.mem_append, not_or, not_or]
      exact ⟨⟨h.1, hs⟩, ih h.2⟩

section Numerals

variable {α : Type} (value : α → Int)

theorem arguments_decimals (xs : List α) :
    arguments (", ".intercalate (xs.map fun x => Numeral.decimal (value x))) =
      xs.map fun x => Numeral.decimal (value x) := by
  apply arguments_intercalate
  intro t ht
  obtain ⟨x, -, rfl⟩ := List.mem_map.mp ht
  refine ⟨?_, Numeral.notMem_decimal rfl _⟩
  intro he
  exact Numeral.decimal_ne_nil _ (congrArg String.toList he)

theorem arguments_decimal (z : Int) : arguments (Numeral.decimal z) = [Numeral.decimal z] := by
  simpa using arguments_decimals id [z]

theorem decimals_injective {value : α → Int} (hv : ∀ x y, value x = value y → x = y)
    {xs ys : List α}
    (h : ", ".intercalate (xs.map fun x => Numeral.decimal (value x)) =
      ", ".intercalate (ys.map fun y => Numeral.decimal (value y))) : xs = ys := by
  have ha := congrArg arguments h
  rw [arguments_decimals, arguments_decimals] at ha
  exact eq_of_map_eq (fun x _ y _ he => hv x y (Numeral.decimal_injective he)) ha

theorem notMem_decimals {c : Char} (hn : Numeral.isNumeral c = false) (hc : c ∉ [',', ' '])
    (xs : List α) :
    c ∉ (", ".intercalate (xs.map fun x => Numeral.decimal (value x))).toList := by
  refine notMem_intercalate hc ?_
  intro t ht
  obtain ⟨x, -, rfl⟩ := List.mem_map.mp ht
  exact Numeral.notMem_decimal hn _

end Numerals

/-! ## Inputs read back -/

namespace Input

theorem readInteger_decimal (n : Int64) : readInteger (Numeral.decimal n.toInt) = .ok n := by
  rw [readInteger, Numeral.readInt64_decimal]
  rfl

theorem mapM_readInteger_decimals (xs : List Int64) :
    (xs.map fun x => Numeral.decimal x.toInt).mapM readInteger = .ok xs := by
  induction xs with
  | nil => rfl
  | cons x xs ih =>
    rw [List.map_cons, List.mapM_cons, readInteger_decimal, ih]
    rfl

/-- What is shown of an input is read as that input. -/
theorem Discrete.read_arguments {x : Input} (h : x.Discrete) :
    read x.shape (arguments x.text) = .ok x := by
  cases x with
  | sequence xs =>
    rw [text, arguments_decimals, shape, read, mapM_readInteger_decimals]
    rfl
  | integer n =>
    rw [text, arguments_decimal, shape, read, readInteger_decimal]
    rfl
  | pair a b => cases h

theorem Discrete.paren_notMem_text {x : Input} (h : x.Discrete) : ')' ∉ x.text.toList := by
  cases x with
  | sequence xs => exact notMem_decimals _ rfl (by decide) xs
  | integer n => exact Numeral.notMem_decimal rfl _
  | pair a b => cases h

end Input

theorem Value.eq_of_text_eq {v w : Value} (hv : v.Discrete) (hw : w.Discrete)
    (h : v.text = w.text) : v = w := by
  have hb : ∀ (xs : List Int128) (n : Int128), (sequence xs).text ≠ (integer n).text := by
    intro xs n he
    have hm : '[' ∈ (sequence xs).text.toList := by
      simp [text]
    rw [he] at hm
    exact Numeral.notMem_decimal rfl _ hm
  cases v with
  | real x => cases hv
  | sequence xs =>
    cases w with
    | real x => cases hw
    | integer n => exact absurd h (hb xs n)
    | sequence ys =>
      simp only [text, String.append_left_inj, String.append_right_inj] at h
      rw [decimals_injective (fun _ _ => Int128.toInt_injective) h]
  | integer m =>
    cases w with
    | real x => cases hw
    | sequence ys => exact absurd h.symm (hb ys m)
    | integer n => rw [Int128.toInt_injective (Numeral.decimal_injective h)]

/-! ## Lines -/

theorem Routine.paren_notMem_name (r : Routine) : '(' ∉ r.name.toList := by
  cases r <;> decide

/-- The line that shows an evaluation. -/
theorem text_evaluation (e : Evaluation) : (Format.text.evaluation e).text =
    e.routine.name ++ "(" ++ e.input.text ++ ") = " ++ e.output.text ++ "\n" := by
  rw [Format.evaluation, (Report.Text.writes_evaluation e).text_eq, String.join_cons,
    String.join_nil, String.append_empty]
  rfl

theorem toList_text_evaluation (e : Evaluation) :
    (Format.text.evaluation e).text.toList = e.routine.name.toList ++ '(' ::
      (e.input.text.toList ++ ')' :: ([' ', '=', ' '] ++ (e.output.text.toList ++ ['\n']))) := by
  rw [text_evaluation]
  simp

/-- A line shows one evaluation only. -/
theorem Evaluation.Discrete.eq_of_line_eq {e₁ e₂ : Evaluation} (h₁ : e₁.Discrete)
    (h₂ : e₂.Discrete)
    (h : (Format.text.evaluation e₁).text = (Format.text.evaluation e₂).text) :
    e₁ = e₂ := by
  have hl := congrArg String.toList h
  rw [toList_text_evaluation, toList_text_evaluation] at hl
  obtain ⟨hn, hl⟩ := eq_of_append_cons_eq (Routine.paren_notMem_name _)
    (Routine.paren_notMem_name _) hl
  obtain ⟨hi, hl⟩ := eq_of_append_cons_eq h₁.input.paren_notMem_text h₂.input.paren_notMem_text hl
  have hr : e₁.routine = e₂.routine := Routine.eq_of_name_eq (String.toList_inj.mp hn)
  -- A sequence of one element is shown as an integer is; the routine tells which of them it was.
  have hx : e₁.input = e₂.input := by
    have h₁r := h₁.input.read_arguments
    have h₂r := h₂.input.read_arguments
    rw [h₁.shape_eq, hr, ← h₂.shape_eq, String.toList_inj.mp hi, h₂r] at h₁r
    exact (Except.ok.inj h₁r).symm
  have hv : e₁.output = e₂.output := by
    apply Value.eq_of_text_eq h₁.output h₂.output
    exact String.toList_inj.mp (List.append_cancel_right (List.append_cancel_left hl))
  cases e₁
  cases e₂
  congr

namespace Session

/-- The line of an evaluation shows arguments that lead to it again, in any session with the same
limit, and no other evaluation has the same line. -/
theorem printed_evaluation_reruns :
    (∀ (limit : UInt32) (calls : List Call) (r : Routine) (args : List String) (e : Evaluation),
      r.shape ≠ .pair → ((after limit calls).run r args).1 = .ok e →
      (Format.text.evaluation e).text =
        r.name ++ "(" ++ e.input.text ++ ") = " ++ e.output.text ++ "\n" ∧
      ∀ calls', ((after limit calls').run r (arguments e.input.text)).1 = .ok e) ∧
    ∀ (s₁ s₂ : Session) (r₁ r₂ : Routine) (args₁ args₂ : List String) (e₁ e₂ : Evaluation),
      r₁.shape ≠ .pair → r₂.shape ≠ .pair →
      (s₁.run r₁ args₁).1 = .ok e₁ → (s₂.run r₂ args₂).1 = .ok e₂ →
      (Format.text.evaluation e₁).text = (Format.text.evaluation e₂).text →
      e₁ = e₂ := by
  constructor
  · intro limit calls r args e hr h
    have hd := discrete_of_run hr h
    obtain ⟨rfl, -, hv⟩ := run_eq_ok_iff.mp h
    refine ⟨text_evaluation e, fun calls' => run_eq_ok_iff.mpr ⟨rfl, ?_, ?_⟩⟩
    · rw [← hd.shape_eq]
      exact hd.input.read_arguments
    · rw [(tracks_after limit calls').evaluate_fst, ← (tracks_after limit calls).evaluate_fst]
      exact hv
  · intro s₁ s₂ r₁ r₂ args₁ args₂ e₁ e₂ hr₁ hr₂ h₁ h₂ h
    exact (discrete_of_run hr₁ h₁).eq_of_line_eq (discrete_of_run hr₂ h₂) h

theorem printed_evaluation_reruns_instances :
    let s := after 40 [.evaluate .mathUtilsFactorial (.integer 5)]
    let e : Evaluation := ⟨.dataHelperProcess, .sequence [5, 0, 7], .sequence [10, 14]⟩
    ((s.run .dataHelperProcess ["+05", "-0", "007"]).1 = .ok e ∧
      (Format.text.evaluation e).text = "DataHelper::process(5, 0, 7) = [10, 14]\n" ∧
      (s.run .dataHelperProcess ["5", "0", "7"]).1 = .ok e) ∧
    (∃ e₁ e₂, (s.run .calculateFibonacci ["05"]).1 = .ok e₁ ∧
      ((fresh 7).run .calculateFibonacci ["+5"]).1 = .ok e₂ ∧
      (Format.text.evaluation e₁).text = (Format.text.evaluation e₂).text ∧
      e₁ = e₂) := by
  intro s e
  obtain ⟨hrun, hinj⟩ := printed_evaluation_reruns
  have he : (s.run .dataHelperProcess ["+05", "-0", "007"]).1 = .ok e := rfl
  have ha : arguments e.input.text = ["5", "0", "7"] := by decide
  obtain ⟨hline, hagain⟩ := hrun _ _ _ _ e (by decide) he
  rw [ha] at hagain
  have h₁ : (s.run .calculateFibonacci ["05"]).1 =
      .ok ⟨.calculateFibonacci, .integer 5, .integer 5⟩ := rfl
  have h₂ : ((fresh 7).run .calculateFibonacci ["+5"]).1 =
      .ok ⟨.calculateFibonacci, .integer 5, .integer 5⟩ := rfl
  exact ⟨⟨he, hline.trans rfl, hagain _⟩, _, _, h₁, h₂, rfl,
    hinj _ _ _ _ _ _ _ _ (by decide) (by decide) h₁ h₂ rfl⟩

end Session

end RoutineCorpus
