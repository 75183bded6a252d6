import Mathlib.Data.List.DropRight
import RoutineCorpus.Proofs.Discrete
import RoutineCorpus.Proofs.UniqueReading
import RoutineCorpus.Proofs.Verdict

/-! # The JSON document of a check

Inputs and values are written without their form, and texts of errors are
arbitrary. Still a report without doubles is determined by its document. The
document ends with the last closing brace of all that a check writes.
-/

namespace RoutineCorpus

section Discrete

theorem Json.discrete_map {α : Type} {f : α → Json} {xs : List α} (h : ∀ x ∈ xs, (f x).Discrete) :
    (Json.array (xs.map f)).Discrete := by
  apply Json.Discrete.array
  intro j hj
  obtain ⟨x, hx, rfl⟩ := List.mem_map.mp hj
  exact h x hx

theorem Input.Discrete.json {x : Input} (h : x.Discrete) : x.json.Discrete := by
  cases x with
  | sequence xs => exact Json.discrete_map fun _ _ => .integer _
  | integer n => exact .integer _
  | pair a b => cases h

theorem Value.Discrete.json {v : Value} (h : v.Discrete) : v.json.Discrete := by
  cases v with
  | sequence xs => exact Json.discrete_map fun _ _ => .integer _
  | integer n => exact .integer _
  | real x => cases h

theorem Mismatch.Discrete.json {m : Mismatch} (h : m.Discrete) : m.json.Discrete := by
  apply Json.Discrete.object
  simp only [List.forall_mem_cons]
  exact ⟨.string _, h.input.json, h.expected.json, h.actual.json, by simp⟩

theorem Failure.Discrete.json {f : Failure} (h : f.Discrete) : f.json.Discrete := by
  apply Json.Discrete.object
  simp only [List.forall_mem_cons]
  exact ⟨.string _, Input.Discrete.json h, .string _, by simp⟩

theorem FamilyCheck.Discrete.json {c : FamilyCheck} (h : c.Discrete) : c.json.Discrete := by
  apply Json.Discrete.object
  simp only [List.forall_mem_cons]
  exact ⟨.string _, Json.discrete_map fun _ _ => .string _, .integer _,
    Json.discrete_map fun m hm => (h.mismatches m hm).json,
    Json.discrete_map fun f hf => (h.failures f hf).json, by simp⟩

theorem CheckReport.Discrete.json {r : CheckReport} (h : r.Discrete) : r.json.Discrete := by
  apply Json.Discrete.object
  simp only [List.forall_mem_cons]
  exact ⟨.bool _, Json.discrete_map fun c hc => (h c hc).json,
    Json.discrete_map fun _ _ => .string _, by simp⟩

end Discrete

/-! ## Back from JSON -/

section Injective

theorem Input.eq_of_json_eq {x y : Input} (hx : x.Discrete) (hy : y.Discrete)
    (h : x.json = y.json) : x = y := by
  cases x with
  | pair a b => cases hx
  | sequence xs =>
    cases y with
    | pair a b => cases hy
    | integer n => cases h
    | sequence ys =>
      rw [eq_of_map_eq (fun _ _ _ _ he => Int64.toInt_inj.mp (Json.integer.inj he))
        (Json.array.inj h)]
  | integer m =>
    cases y with
    | pair a b => cases hy
    | sequence ys => cases h
    | integer n => rw [Int64.toInt_inj.mp (Json.integer.inj h)]

theorem Value.eq_of_json_eq {v w : Value} (hv : v.Discrete) (hw : w.Discrete)
    (h : v.json = w.json) : v = w := by
  cases v with
  | real x => cases hv
  | sequence xs =>
    cases w with
    | real x => cases hw
    | integer n => cases h
    | sequence ys =>
      rw [eq_of_map_eq (fun _ _ _ _ he => Int128.toInt_injective (Json.integer.inj he))
        (Json.array.inj h)]
  | integer m =>
    cases w with
    | real x => cases hw
    | sequence ys => cases h
    | integer n => rw [Int128.toInt_injective (Json.integer.inj h)]

theorem Mismatch.eq_of_json_eq {m n : Mismatch} (hm : m.Discrete) (hn : n.Discrete)
    (h : m.json = n.json) : m = n := by
  simp only [Mismatch.json, Json.object.injEq, List.cons.injEq, Prod.mk.injEq, Json.string.injEq,
    true_and, and_true] at h
  obtain ⟨hr, hi, he, ha⟩ := h
  cases m
  cases n
  congr
  · exact Routine.eq_of_name_eq hr
  · exact Input.eq_of_json_eq hm.input hn.input hi
  · exact Value.eq_of_json_eq hm.expected hn.expected he
  · exact Value.eq_of_json_eq hm.actual hn.actual ha

theorem Failure.eq_of_json_eq {f g : Failure} (hf : f.Discrete) (hg : g.Discrete)
    (h : f.json = g.json) : f = g := by
  simp only [Failure.json, Json.object.injEq, List.cons.injEq, Prod.mk.injEq, Json.string.injEq,
    true_and, and_true] at h
  obtain ⟨hr, hi, he⟩ := h
  cases f
  cases g
  congr
  · exact Routine.eq_of_name_eq hr
  · exact Input.eq_of_json_eq hf hg hi

theorem FamilyCheck.eq_of_json_eq {c d : FamilyCheck} (hc : c.Discrete) (hd : d.Discrete)
    (h : c.json = d.json) : c = d := by
  simp only [FamilyCheck.json, Json.object.injEq, List.cons.injEq, Prod.mk.injEq,
    Json.string.injEq, Json.array.injEq, Json.integer.injEq, Int.natCast_inj, true_and,
    and_true] at h
  obtain ⟨hn, hr, hk, hm, hf⟩ := h
  cases c
  cases d
  congr
  · exact Family.eq_of_name_eq hn
  · exact eq_of_map_eq (fun _ _ _ _ he => Routine.eq_of_name_eq (Json.string.inj he)) hr
  · exact eq_of_map_eq
      (fun m hm n hn => Mismatch.eq_of_json_eq (hc.mismatches m hm) (hd.mismatches n hn)) hm
  · exact eq_of_map_eq
      (fun f hf g hg => Failure.eq_of_json_eq (hc.failures f hf) (hd.failures g hg)) hf

theorem CheckReport.eq_of_json_eq {r s : CheckReport} (hr : r.Discrete) (hs : s.Discrete)
    (h : r.json = s.json) : r = s := by
  simp only [CheckReport.json, Json.object.injEq, List.cons.injEq, Prod.mk.injEq,
    Json.array.injEq, true_and, and_true] at h
  obtain ⟨-, hf, hk⟩ := h
  cases r
  cases s
  congr
  · exact eq_of_map_eq (fun c hc d hd => FamilyCheck.eq_of_json_eq (hr c hc) (hs d hd)) hf
  · exact eq_of_map_eq (fun _ _ _ _ he => Family.eq_of_name_eq (Json.string.inj he)) hk

end Injective

/-! ## The document in the output -/

section Cutting

/-- The text up to and with the last occurrence of a character. -/
def upToLast (c : Char) (s : String) : String := String.ofList (s.toList.rdropWhile (· ≠ c))

theorem upToLast_append {c : Char} {s t : String} (hs : s.toList.getLast? = some c)
    (ht : c ∉ t.toList) : upToLast c (s ++ t) = s := by
  obtain ⟨front, hf⟩ := List.getLast?_eq_some_iff.mp hs
  have hr : (s.toList ++ t.toList).rdropWhile (· ≠ c) = s.toList := by
    rw [List.rdropWhile, List.reverse_append, List.dropWhile_append_of_pos, hf]
    · simp
    · intro d hd
      rw [List.mem_reverse] at hd
      simpa using fun h : d = c => ht (h ▸ hd)
  rw [upToLast, String.toList_append, hr, String.ofList_toList]

theorem Json.getLast?_prettyChars_object (level : Nat) (k : String) (x : Json)
    (fs : List (String × Json)) :
    (prettyChars level (.object ((k, x) :: fs))).getLast? = some '\x7d' := by
  rw [prettyChars, List.getLast?_append]
  rfl

def IsClosingLine (line : String) : Prop := line = passedLine ∨ ∃ k m, line = failedLine k m

theorem exists_writes_conclusion (r : CheckReport) :
    ∃ line verdict, IsClosingLine line ∧
      Writes .output (Command.conclusion r) [line] verdict := by
  by_cases h : r.passed = true
  · exact ⟨_, _, Or.inl rfl, Command.writes_conclusion_of_passed h⟩
  · exact ⟨_, _, Or.inr ⟨_, _, rfl⟩, Command.writes_conclusion_of_failed h⟩

theorem IsClosingLine.brace_notMem {line : String} (h : IsClosingLine line) :
    '\x7d' ∉ line.toList := by
  rcases h with rfl | ⟨k, m, rfl⟩
  · decide
  · have hd := Numeral.notMem_decimal (c := '\x7d') rfl
    unfold failedLine
    simp only [String.toList_append, List.mem_append, not_or]
    exact ⟨⟨⟨⟨by decide, hd k⟩, by decide⟩, hd m⟩, by decide⟩

theorem text_json_check (r : CheckReport) : (Format.json.check r).text = r.json.pretty ++ "\n" := by
  rw [Format.check, Report.Structured.check, (Report.Structured.writes_document r.json).text_eq]
  simp

/-- The document is cut out of the output by its last closing brace. -/
theorem upToLast_check (r : CheckReport) {line : String} (h : IsClosingLine line) :
    upToLast '\x7d' ((Format.json.check r).text ++ line) = r.json.pretty := by
  have hl : r.json.pretty.toList.getLast? = some '\x7d' := by
    rw [Json.pretty, String.toList_ofList]
    exact Json.getLast?_prettyChars_object 0 _ _ _
  have hd : (Format.json.check r).text ++ line = r.json.pretty ++ ("\n" ++ line) := by
    rw [text_json_check, String.append_assoc]
  have ht : '\x7d' ∉ ("\n" ++ line).toList := by
    simp [h.brace_notMem]
  rw [hd]
  exact upToLast_append hl ht

end Cutting

/-- The document of a check can be cut out of all that the check writes, whichever line closes it,
and tells apart any two reports without doubles. -/
theorem check_document_lossless :
    (∀ (r : CheckReport) (line : String), IsClosingLine line →
      upToLast '\x7d' ((Format.json.check r).text ++ line) = r.json.pretty) ∧
    (∀ c : Settings, upToLast '\x7d' (Command.check c .json).text = c.verify.json.pretty) ∧
    ∀ r₁ r₂ : CheckReport, r₁.Discrete → r₂.Discrete →
      r₁.json.pretty = r₂.json.pretty → r₁ = r₂ := by
  refine ⟨fun r line h => upToLast_check r h, ?_, ?_⟩
  · intro c
    obtain ⟨line, verdict, hl, hw⟩ := exists_writes_conclusion c.verify
    have ht : (Command.check c .json).text = (Format.json.check c.verify).text ++ line := by
      rw [(Command.writes_check hw .json).text_eq]
      simp
    rw [ht]
    exact upToLast_check c.verify hl
  · intro r₁ r₂ h₁ h₂ h
    exact CheckReport.eq_of_json_eq h₁ h₂ (h₁.json.eq_of_pretty_eq h₂.json h)

/-- A report whose texts hold everything that is escaped, and a closing brace. -/
def awkwardReport (x : Input) : CheckReport where
  families := [{
    family := .sum
    members := [.dataHelperSum, .calculateSum]
    inputsChecked := 2
    mismatches := [⟨.dataHelperSum, .sequence [5, -3], .integer 2, .sequence [.ofInt (-7)]⟩]
    failures := [⟨.calculateSum, x, "\"\x7d\\\n\x01é"⟩] }]
  skipped := [.fibonacci, .fibonacci]

theorem discrete_awkwardReport {x : Input} (h : x.Discrete) : (awkwardReport x).Discrete := by
  simp only [CheckReport.Discrete, awkwardReport, List.forall_mem_singleton]
  refine ⟨?_, ?_⟩
  · simp only [List.forall_mem_singleton]
    exact ⟨trivial, trivial, trivial⟩
  · simp only [List.forall_mem_singleton]
    exact h

theorem check_document_lossless_instances :
    (IsClosingLine (failedLine 1 1) ∧
      upToLast '\x7d' ((Format.json.check (awkwardReport (.integer 5))).text ++
        failedLine 1 1) = (awkwardReport (.integer 5)).json.pretty) ∧
    (awkwardReport (.integer 5)).json.pretty ≠ (awkwardReport (.sequence [5])).json.pretty ∧
    ({ exclude := [.fibonacci, .sum, .factorial, .filterDouble] } : Settings).verify =
      ⟨[], [.filterDouble, .sum, .factorial, .fibonacci]⟩ := by
  obtain ⟨hcut, -, hinj⟩ := check_document_lossless
  have hline : IsClosingLine (failedLine 1 1) := Or.inr ⟨1, 1, rfl⟩
  refine ⟨⟨hline, hcut _ _ hline⟩, ?_, ?_⟩
  · intro h
    have he := hinj _ _ (discrete_awkwardReport (x := .integer 5) trivial)
      (discrete_awkwardReport (x := .sequence [5]) trivial) h
    exact absurd he (by decide)
  · exact hinj _ _ (List.forall_mem_nil _) (List.forall_mem_nil _) rfl

end RoutineCorpus
