import RoutineCorpus.Proofs.CheckDocument
import RoutineCorpus.Proofs.Rerun

/-! # The lines of a check report

A report tells the verdict of every family in three ways: as a flag, in the
header of the family and by the entries under the header. Texts of errors are
arbitrary, but as long as they are single lines, the text report can be cut into
its lines, and these tell how many families failed and which entries belong to
which of them.
-/

namespace RoutineCorpus

/-- The lines of a text, of which the last one is what follows the last line end. -/
def lines (s : String) : List String := (s.toList.splitOn '\n').map String.ofList

def SingleLine (s : String) : Prop := '\n' ∉ s.toList

instance (s : String) : Decidable (SingleLine s) := inferInstanceAs (Decidable (_ ∉ _))

def isEntry (l : String) : Bool := "  - ".toList.isPrefixOf l.toList

/-- The line is no entry and ends with the mark. -/
def isMarked (mark l : String) : Bool := !isEntry l && mark.toList.isSuffixOf l.toList

def failedMark : String := " ... FAILED"

def passedMark : String := " ... ok"

/-- Each line that is no entry, with the entries right after it. -/
def groups : List String → List (String × List String)
  | [] => []
  | l :: ls => if isEntry l then groups ls else (l, ls.takeWhile isEntry) :: groups ls

/-! ## Lines put together and cut again -/

theorem toList_join_lines (ls : List String) :
    (String.join (ls.map (· ++ "\n"))).toList =
      ['\n'].intercalate (ls.map String.toList ++ [[]]) := by
  induction ls with
  | nil => rfl
  | cons l ls ih =>
    rw [List.map_cons, String.join_cons, String.toList_append, ih, List.map_cons, List.cons_append]
    cases ls <;> simp [List.intercalate_cons_cons]

/-- Lines without line ends inside are what a text is cut into, with nothing after the last one. -/
theorem lines_join {ls : List String} (h : ∀ l ∈ ls, SingleLine l) :
    lines (String.join (ls.map (· ++ "\n"))) = ls ++ [""] := by
  have hs : (['\n'].intercalate (ls.map String.toList ++ [[]])).splitOn '\n' =
      ls.map String.toList ++ [[]] := by
    refine List.splitOn_intercalate '\n' ?_ (by simp)
    rw [List.forall_mem_append, List.forall_mem_map]
    exact ⟨h, by simp⟩
  rw [lines, toList_join_lines, hs, List.map_append, List.map_map]
  simp

/-! ## Texts on a single line -/

section SingleLine

theorem singleLine_append {s t : String} :
    SingleLine (s ++ t) ↔ SingleLine s ∧ SingleLine t := by
  simp [SingleLine]

theorem singleLine_decimal (z : Int) : SingleLine (Numeral.decimal z) :=
  Numeral.notMem_decimal rfl z

theorem Numeral.Layout.singleLine_place (d : Decimal) (n : Nat) :
    SingleLine (plain.place d (digits n)) := by
  have hd : '\n' ∉ digits n := by
    intro h
    cases isDigit_of_mem_digits h
  have hz : ∀ k, '\n' ∉ zeros k := by
    intro k hk
    cases List.eq_of_mem_replicate hk
  unfold SingleLine place
  dsimp only
  split
  · simp [plain, hd, hz]
  · split
    · simp only [String.toList_ofList, List.mem_append, List.mem_cons, not_or]
      exact ⟨fun h => hd (List.mem_of_mem_take h), by decide, fun h => hd (List.mem_of_mem_drop h)⟩
    · simp [hd, hz]

theorem singleLine_realText (x : Float) : SingleLine (realText x) := by
  have hs : ∀ (b : Prop) [Decidable b], SingleLine (if b then "" else "-") := by
    intro b _
    split <;> decide
  unfold realText
  split
  · decide
  · split
    · split <;> decide
    · unfold Numeral.Layout.write
      dsimp only
      split
      · rw [singleLine_append, singleLine_append]
        exact ⟨⟨hs _, by decide⟩, by decide⟩
      · rw [singleLine_append]
        exact ⟨hs _, Numeral.Layout.singleLine_place _ _⟩

theorem Input.singleLine_text (x : Input) : SingleLine x.text := by
  cases x with
  | sequence xs => exact notMem_decimals _ rfl (by decide) xs
  | integer n => exact singleLine_decimal _
  | pair a b =>
    refine singleLine_append.mpr ⟨singleLine_append.mpr ⟨?_, by decide⟩, ?_⟩
    · exact singleLine_realText a
    · exact singleLine_realText b

theorem Value.singleLine_text (v : Value) : SingleLine v.text := by
  cases v with
  | sequence xs =>
    refine singleLine_append.mpr ⟨singleLine_append.mpr ⟨by decide, ?_⟩, by decide⟩
    exact notMem_decimals _ rfl (by decide) xs
  | integer n => exact singleLine_decimal _
  | real x => exact singleLine_realText x

theorem Routine.singleLine_name (r : Routine) : SingleLine r.name := by
  cases r <;> decide

end SingleLine

/-! ## The lines of a report -/

section Report

def headerLine (c : FamilyCheck) : String :=
  c.family.name ++ ": " ++ Report.Text.counted c.members.length "routine" ++ ", " ++
    Report.Text.counted c.inputsChecked "input" ++ if c.passed then passedMark else failedMark

def mismatchLine (m : Mismatch) : String :=
  "  - " ++ m.routine.name ++ "(" ++ m.input.text ++ "): expected " ++ m.expected.text ++ ", got " ++
    m.actual.text

def failureLine (f : Failure) : String :=
  "  - " ++ f.routine.name ++ "(" ++ f.input.text ++ "): error: " ++ f.error

def entryLines (c : FamilyCheck) : List String :=
  c.mismatches.map mismatchLine ++ c.failures.map failureLine

def familyLines (c : FamilyCheck) : List String := headerLine c :: entryLines c

def titleLines : List String := ["Duplicate Check", "===============", ""]

def closingLines : List Family → List String
  | [] => []
  | fs => ["", "Skipped: " ++ Report.Text.names fs]

def checkLines (r : CheckReport) : List String :=
  titleLines ++ r.families.flatMap familyLines ++ closingLines r.skipped

variable {c : FamilyCheck} {r : CheckReport} {l : String}

theorem map_entryLines (c : FamilyCheck) : (entryLines c).map (· ++ "\n") =
    c.mismatches.map Report.Text.mismatch ++ c.failures.map Report.Text.failure := by
  simp only [entryLines, List.map_append, List.map_map]
  rfl

theorem headerLine_append (c : FamilyCheck) :
    headerLine c ++ "\n" = Report.Text.familyHeader c := by
  have hm : (if c.passed then passedMark else failedMark) =
      " ... " ++ if c.passed then "ok" else "FAILED" := by
    cases c.passed <;> decide
  rw [headerLine, hm, ← String.append_assoc]
  rfl

theorem map_familyLines (c : FamilyCheck) :
    (familyLines c).map (· ++ "\n") = Report.Text.familyPieces c := by
  rw [familyLines, List.map_cons, map_entryLines, headerLine_append]
  rfl

theorem map_checkLines (r : CheckReport) :
    (checkLines r).map (· ++ "\n") = Report.Text.checkPieces r := by
  have ht : titleLines.map (· ++ "\n") = Report.Text.titlePieces "Duplicate Check" := by decide
  have hs : (closingLines r.skipped).map (· ++ "\n") = Report.Text.skippedPieces r.skipped := by
    cases r.skipped <;> rfl
  rw [checkLines, Report.Text.checkPieces, List.map_append, List.map_append, List.map_flatMap, ht,
    hs, List.append_assoc]
  simp only [map_familyLines]

/-! ### Which lines are which -/

theorem isEntry_append (s : String) : isEntry ("  - " ++ s) = true := by
  simp [isEntry]

theorem isEntry_of_mem_entryLines (h : l ∈ entryLines c) : isEntry l = true := by
  rw [entryLines, List.mem_append] at h
  rcases h with h | h
  · obtain ⟨m, -, rfl⟩ := List.mem_map.mp h
    simp only [mismatchLine, String.append_assoc]
    exact isEntry_append _
  · obtain ⟨f, -, rfl⟩ := List.mem_map.mp h
    simp only [failureLine, String.append_assoc]
    exact isEntry_append _

theorem isEntry_of_ne {ch : Char} {cs : List Char} (h : l.toList = ch :: cs) (hc : ch ≠ ' ') :
    isEntry l = false := by
  simp [isEntry, h, List.isPrefixOf, hc.symm]

theorem isEntry_headerLine (c : FamilyCheck) : isEntry (headerLine c) = false := by
  have hf : ∃ ch cs, c.family.name.toList = ch :: cs ∧ ch ≠ ' ' := by
    cases c.family <;> exact ⟨_, _, rfl, by decide⟩
  obtain ⟨ch, cs, hn, hc⟩ := hf
  have hl : ∃ ds, (headerLine c).toList = ch :: ds := by
    simp only [headerLine, String.append_assoc, String.toList_append, hn]
    exact ⟨_, rfl⟩
  obtain ⟨ds, hl⟩ := hl
  exact isEntry_of_ne hl hc

/-- The end of a header tells the verdict. -/
theorem isMarked_headerLine (c : FamilyCheck) :
    isMarked failedMark (headerLine c) = !c.passed ∧
      isMarked passedMark (headerLine c) = c.passed := by
  rw [isMarked, isMarked, isEntry_headerLine, headerLine, String.toList_append]
  cases c.passed with
  | true =>
    constructor
    · exact isSuffixOf_append_of_ne (by decide) (by decide) (by decide) _
    · exact isSuffixOf_append_self _ _
  | false =>
    constructor
    · exact isSuffixOf_append_self _ _
    · exact isSuffixOf_append_of_ne (by decide) (by decide) (by decide) _

/-- A line around the families. It is no entry, and it has no mark, for want of a point. -/
def IsPlain (l : String) : Prop := isEntry l = false ∧ '.' ∉ l.toList

theorem IsPlain.isMarked {mark : String} (h : IsPlain l) (hm : '.' ∈ mark.toList) :
    isMarked mark l = false := by
  rw [RoutineCorpus.isMarked, h.1, Bool.not_false, Bool.true_and, Bool.eq_false_iff, Ne,
    List.isSuffixOf_iff_suffix]
  intro hs
  exact h.2 (hs.subset hm)

theorem isPlain_of_mem_titleLines (h : l ∈ titleLines) : IsPlain l := by
  have ht : ∀ l ∈ titleLines, isEntry l = false ∧ '.' ∉ l.toList := by decide
  exact ht l h

theorem isPlain_empty : IsPlain "" := by
  constructor <;> decide

theorem notMem_names {ch : Char} (hs : ch ∉ (", " : String).toList)
    (h : ∀ f : Family, ch ∉ f.name.toList) (fs : List Family) :
    ch ∉ (Report.Text.names fs).toList := by
  refine notMem_intercalate hs ?_
  intro t ht
  obtain ⟨f, -, rfl⟩ := List.mem_map.mp ht
  exact h f

theorem isPlain_of_mem_closingLines {fs : List Family} (h : l ∈ closingLines fs) : IsPlain l := by
  have hn : '.' ∉ (Report.Text.names fs).toList :=
    notMem_names (by decide) (fun f => by cases f <;> decide) fs
  cases fs with
  | nil => cases h
  | cons f fs =>
    simp only [closingLines, List.mem_cons, List.not_mem_nil, or_false] at h
    rcases h with rfl | rfl
    · exact isPlain_empty
    · constructor
      · exact isEntry_of_ne (by rw [String.toList_append]; rfl) (by decide : 'S' ≠ ' ')
      · rw [String.toList_append, List.mem_append, not_or]
        exact ⟨by decide, hn⟩

theorem singleLine_counted (n : Nat) {noun : String} (h : SingleLine noun) :
    SingleLine (Report.Text.counted n noun) := by
  have hs : SingleLine (if n = 1 then "" else "s") := by
    split <;> decide
  simp only [Report.Text.counted, singleLine_append]
  exact ⟨⟨⟨singleLine_decimal n, by decide⟩, h⟩, hs⟩

theorem singleLine_headerLine (c : FamilyCheck) : SingleLine (headerLine c) := by
  have hf : SingleLine c.family.name := by
    cases c.family <;> decide
  have hm : SingleLine (if c.passed then passedMark else failedMark) := by
    split <;> decide
  simp only [headerLine, singleLine_append]
  exact ⟨⟨⟨⟨⟨hf, by decide⟩, singleLine_counted _ (by decide)⟩, by decide⟩,
    singleLine_counted _ (by decide)⟩, hm⟩

theorem singleLine_mismatchLine (m : Mismatch) : SingleLine (mismatchLine m) := by
  simp only [mismatchLine, singleLine_append]
  exact ⟨⟨⟨⟨⟨⟨⟨by decide, m.routine.singleLine_name⟩, by decide⟩, m.input.singleLine_text⟩,
    by decide⟩, m.expected.singleLine_text⟩, by decide⟩, m.actual.singleLine_text⟩

theorem singleLine_failureLine {f : Failure} (h : SingleLine f.error) :
    SingleLine (failureLine f) := by
  simp only [failureLine, singleLine_append]
  exact ⟨⟨⟨⟨⟨by decide, f.routine.singleLine_name⟩, by decide⟩, f.input.singleLine_text⟩,
    by decide⟩, h⟩

theorem singleLine_of_mem_familyLines (h : ∀ f ∈ c.failures, SingleLine f.error)
    (hl : l ∈ familyLines c) : SingleLine l := by
  rw [familyLines, List.mem_cons, entryLines, List.mem_append, List.mem_map, List.mem_map] at hl
  rcases hl with rfl | ⟨m, -, rfl⟩ | ⟨f, hf, rfl⟩
  · exact singleLine_headerLine c
  · exact singleLine_mismatchLine m
  · exact singleLine_failureLine (h f hf)

theorem singleLine_of_mem_closingLines {fs : List Family} (h : l ∈ closingLines fs) :
    SingleLine l := by
  have hn : SingleLine (Report.Text.names fs) :=
    notMem_names (by decide) (fun f => by cases f <;> decide) fs
  cases fs with
  | nil => cases h
  | cons f fs =>
    simp only [closingLines, List.mem_cons, List.not_mem_nil, or_false] at h
    rcases h with rfl | rfl
    · decide
    · exact singleLine_append.mpr ⟨by decide, hn⟩

/-- A report whose errors are told on single lines is cut into its lines. -/
theorem lines_check (h : ∀ c ∈ r.families, ∀ f ∈ c.failures, SingleLine f.error) :
    lines (Format.text.check r).text = checkLines r ++ [""] := by
  rw [Format.check, (Report.Text.writes_check r).text_eq, ← map_checkLines]
  apply lines_join
  intro l hl
  rw [checkLines, List.mem_append, List.mem_append] at hl
  rcases hl with (hl | hl) | hl
  · have ht : ∀ l ∈ titleLines, SingleLine l := by decide
    exact ht l hl
  · obtain ⟨c, hc, hl⟩ := List.mem_flatMap.mp hl
    exact singleLine_of_mem_familyLines (h c hc) hl
  · exact singleLine_of_mem_closingLines hl

/-! ### Counting headers and collecting entries -/

theorem isPlain_of_mem_closingLines_append {fs : List Family} (h : l ∈ closingLines fs ++ [""]) :
    IsPlain l := by
  rw [List.mem_append, List.mem_singleton] at h
  rcases h with h | rfl
  · exact isPlain_of_mem_closingLines h
  · exact isPlain_empty

theorem countP_flatMap_familyLines (mark : String) (cs : List FamilyCheck) :
    (cs.flatMap familyLines).countP (isMarked mark) =
      cs.countP fun c => isMarked mark (headerLine c) := by
  have he : ∀ c, (entryLines c).countP (isMarked mark) = 0 := by
    intro c
    rw [List.countP_eq_zero]
    intro l hl
    simp [isMarked, isEntry_of_mem_entryLines hl]
  induction cs with
  | nil => rfl
  | cons c cs ih =>
    rw [List.flatMap_cons, List.countP_append, ih, familyLines, List.countP_cons, he,
      List.countP_cons, Nat.zero_add, Nat.add_comm]

/-- Lines with a mark are the headers of the families that have it. -/
theorem countP_checkLines {mark : String} (hm : '.' ∈ mark.toList) (r : CheckReport) :
    (checkLines r ++ [""]).countP (isMarked mark) =
      r.families.countP fun c => isMarked mark (headerLine c) := by
  have hz : ∀ ls : List String, (∀ l ∈ ls, IsPlain l) → ls.countP (isMarked mark) = 0 := by
    intro ls h
    rw [List.countP_eq_zero]
    intro l hl
    simp [(h l hl).isMarked hm]
  rw [checkLines, List.append_assoc, List.append_assoc, List.countP_append, List.countP_append,
    countP_flatMap_familyLines, hz _ fun l => isPlain_of_mem_titleLines,
    hz _ fun l => isPlain_of_mem_closingLines_append, Nat.zero_add, Nat.add_zero]

theorem filter_checkLines (r : CheckReport) :
    (checkLines r ++ [""]).filter isEntry = r.families.flatMap entryLines := by
  have hz : ∀ ls : List String, (∀ l ∈ ls, IsPlain l) → ls.filter isEntry = [] := by
    intro ls h
    rw [List.filter_eq_nil_iff]
    intro l hl
    simp [(h l hl).1]
  have hf : ∀ c, (familyLines c).filter isEntry = entryLines c := by
    intro c
    rw [familyLines, List.filter_cons_of_neg (by simp [isEntry_headerLine]), List.filter_eq_self]
    exact fun l => isEntry_of_mem_entryLines
  rw [checkLines, List.append_assoc, List.append_assoc, List.filter_append, List.filter_append,
    hz _ fun l => isPlain_of_mem_titleLines, hz _ fun l => isPlain_of_mem_closingLines_append,
    List.nil_append, List.append_nil, List.filter_flatMap]
  simp only [hf]

/-! ### Which entries belong to which header -/

def hasVerdict (l : String) : Bool := isMarked failedMark l || isMarked passedMark l

theorem hasVerdict_headerLine (c : FamilyCheck) : hasVerdict (headerLine c) = true := by
  rw [hasVerdict, (isMarked_headerLine c).1, (isMarked_headerLine c).2]
  cases c.passed <;> rfl

theorem IsPlain.hasVerdict (h : IsPlain l) : hasVerdict l = false := by
  rw [RoutineCorpus.hasVerdict, h.isMarked (by decide), h.isMarked (by decide)]
  rfl

theorem groups_append_of_entries {es : List String} (h : ∀ l ∈ es, isEntry l = true)
    (ls : List String) : groups (es ++ ls) = groups ls := by
  induction es with
  | nil => rfl
  | cons l es ih =>
    rw [List.forall_mem_cons] at h
    rw [List.cons_append, groups, if_pos h.1, ih h.2]

theorem groups_append_of_plain {ls : List String} (h : ∀ l ∈ ls, IsPlain l) (rest : List String) :
    (groups (ls ++ rest)).filter (fun g => hasVerdict g.1) =
      (groups rest).filter fun g => hasVerdict g.1 := by
  induction ls with
  | nil => rfl
  | cons l ls ih =>
    rw [List.forall_mem_cons] at h
    rw [List.cons_append, groups, if_neg (by simp [h.1.1]),
      List.filter_cons_of_neg (by simp [h.1.hasVerdict]), ih h.2]

/-- No entry comes first. -/
theorem takeWhile_flatMap_familyLines (cs : List FamilyCheck) {rest : List String}
    (h : ∀ l ∈ rest, IsPlain l) : (cs.flatMap familyLines ++ rest).takeWhile isEntry = [] := by
  cases cs with
  | nil =>
    cases rest with
    | nil => rfl
    | cons l rest => simp [(h l List.mem_cons_self).1]
  | cons c cs => simp [familyLines, isEntry_headerLine]

theorem groups_flatMap_familyLines (cs : List FamilyCheck) {rest : List String}
    (h : ∀ l ∈ rest, IsPlain l) :
    groups (cs.flatMap familyLines ++ rest) =
      (cs.map fun c => (headerLine c, entryLines c)) ++ groups rest := by
  induction cs with
  | nil => rfl
  | cons c cs ih =>
    have he : ∀ l ∈ entryLines c, isEntry l = true := fun l => isEntry_of_mem_entryLines
    rw [List.flatMap_cons, List.append_assoc, familyLines, List.cons_append, groups,
      if_neg (by simp [isEntry_headerLine]), groups_append_of_entries he, ih,
      List.takeWhile_append_of_pos he, takeWhile_flatMap_familyLines cs h, List.append_nil,
      List.map_cons, List.cons_append]

theorem groups_checkLines (r : CheckReport) :
    (groups (checkLines r ++ [""])).filter (fun g => hasVerdict g.1) =
      r.families.map fun c => (headerLine c, entryLines c) := by
  have hp : ∀ l ∈ closingLines r.skipped ++ [""], IsPlain l :=
    fun l => isPlain_of_mem_closingLines_append
  have hc := groups_append_of_plain hp []
  rw [List.append_nil] at hc
  rw [checkLines, List.append_assoc, List.append_assoc,
    groups_append_of_plain fun l => isPlain_of_mem_titleLines, groups_flatMap_familyLines _ hp,
    List.filter_append, hc, List.filter_eq_self.mpr]
  · exact List.append_nil _
  · rw [List.forall_mem_map]
    exact fun c _ => hasVerdict_headerLine c

end Report

/-! ## The three views -/

def Json.field? (key : String) : Json → Option Json
  | .object fields => fields.lookup key
  | _ => none

def passedOpening : String := "\x7b\n  \"passed\": true,\n"

/-- An object that starts with a flag shows it in its second line. -/
theorem Json.exists_pretty_eq_of_flag (key : String) (b : Bool) (f : String × Json)
    (fs : List (String × Json)) : ∃ t, (Json.object ((key, .bool b) :: f :: fs)).pretty.toList =
      '\x7b' :: '\n' :: ' ' :: ' ' ::
        (quote key ++ (':' :: ' ' :: (boolChars b ++ ',' :: '\n' :: t))) := by
  obtain ⟨k, x⟩ := f
  simp only [pretty, String.toList_ofList, prettyChars, prettyFields, newline, List.cons_append,
    List.append_assoc]
  exact ⟨_, rfl⟩

theorem prefix_json_iff (r : CheckReport) :
    passedOpening.toList <+: (Format.json.check r).text.toList ↔ r.passed = true := by
  obtain ⟨t, ht⟩ := Json.exists_pretty_eq_of_flag "passed" r.passed
    ("families", .array (r.families.map (·.json)))
    [("skipped", .array (r.skipped.map fun f => .string f.name))]
  have hq : Json.quote "passed" = ['"', 'p', 'a', 's', 's', 'e', 'd', '"'] := by decide
  rw [text_json_check, String.toList_append, CheckReport.json, ht, hq]
  cases r.passed <;> simp [passedOpening, Json.boolChars]

/-- The verdict of a report is the same wherever it is told: as a flag, by the number of failed
families, at the top of the JSON document, and in the lines of the text report, provided that
errors are told on single lines. These lines also show every entry under its family's header. -/
theorem report_views_agree (r : CheckReport)
    (h : ∀ c ∈ r.families, ∀ f ∈ c.failures, SingleLine f.error) :
    let ls := lines (Format.text.check r).text
    let ended := fun l : String => l ++ "\n"
    let entries := fun c : FamilyCheck =>
      c.mismatches.map Report.Text.mismatch ++ c.failures.map Report.Text.failure
    (r.passed = true ↔ r.failedFamilies = 0) ∧
    (r.passed = true ↔ r.json.field? "passed" = some (.bool true)) ∧
    (r.passed = true ↔ passedOpening.toList <+: (Format.json.check r).text.toList) ∧
    ls.countP (isMarked failedMark) = r.failedFamilies ∧
    ls.countP (isMarked passedMark) = r.families.length - r.failedFamilies ∧
    (ls.filter isEntry).map ended = r.families.flatMap entries ∧
    ((groups ls).filter fun g => hasVerdict g.1).map (Prod.map ended (List.map ended)) =
      r.families.map fun c => (Report.Text.familyHeader c, entries c) := by
  intro ls ended entries
  have hls : ls = checkLines r ++ [""] := lines_check h
  have hfield : r.json.field? "passed" = some (.bool r.passed) := rfl
  refine ⟨r.passed_iff, ?_, (prefix_json_iff r).symm, ?_, ?_, ?_, ?_⟩
  · rw [hfield]
    simp
  · rw [hls, countP_checkLines (by decide), CheckReport.failedFamilies]
    simp only [isMarked_headerLine]
  · rw [hls, countP_checkLines (by decide), CheckReport.failedFamilies,
      List.length_eq_countP_add_countP FamilyCheck.passed]
    simp [isMarked_headerLine]
  · rw [hls, filter_checkLines, List.map_flatMap]
    exact List.flatMap_congr fun c _ => map_entryLines c
  · rw [hls, groups_checkLines, List.map_map]
    apply List.map_congr_left
    intro c _
    exact Prod.ext (headerLine_append c) (map_entryLines c)

/-- A report in which texts look like headers and entries, and a family occurs twice. -/
def misleadingReport : CheckReport where
  families := [
    { family := .sum
      members := [.dataHelperSum, .calculateSum]
      inputsChecked := 1
      mismatches := []
      failures := [⟨.calculateSum, .sequence [5, -3], "sum: 1 routine, 1 input ... ok"⟩] },
    { family := .sum, members := [], inputsChecked := 0, mismatches := [], failures := [] },
    { family := .arithmetic
      members := [.calculatorAdd]
      inputsChecked := 2
      mismatches := [⟨.calculatorAdd, .pair 1.5 (0.0 / 0.0), .real (-0.0), .integer (.ofInt 2)⟩]
      failures := [⟨.calculatorAdd, .pair 1.5 2.0, "  - "⟩] }]
  skipped := [.fibonacci, .fibonacci]

theorem report_views_agree_misleading :
    (∀ c ∈ misleadingReport.families, ∀ f ∈ c.failures, SingleLine f.error) ∧
      misleadingReport.passed = false ∧
      ¬ passedOpening.toList <+: (Format.json.check misleadingReport).text.toList ∧
      (let ls := lines (Format.text.check misleadingReport).text
      ls.countP (isMarked failedMark) = 2 ∧ ls.countP (isMarked passedMark) = 1 ∧
        (ls.filter isEntry).length = 3) := by
  have hs : ∀ c ∈ misleadingReport.families, ∀ f ∈ c.failures, SingleLine f.error := by decide
  obtain ⟨-, -, hjson, hfailed, hpassed, hentries, -⟩ := report_views_agree misleadingReport hs
  refine ⟨hs, rfl, fun hp => ?_, hfailed, hpassed, ?_⟩
  · cases hjson.mpr hp
  · have hl := congrArg List.length hentries
    rw [List.length_map] at hl
    exact hl

end RoutineCorpus
