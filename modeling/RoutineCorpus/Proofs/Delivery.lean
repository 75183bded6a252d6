import RoutineCorpus.Command
import RoutineCorpus.Proofs.Prelude

/-! # Delivery to a sink that fills up

A sink with a limit keeps the bytes up to the limit, wherever in a text it falls,
so writing two texts in turn is the same as writing them together. Every report
and every command is a chain of writes that stops at the first refusal, and
therefore acts like a single write of all its texts: what is written is the
beginning of what an unlimited sink takes, and the verdict is kept exactly if
all of it fits.
-/

namespace RoutineCorpus

/-! ## Single writes -/

namespace Sink

variable {s : Sink} {n : ℕ}

theorem write_of_unlimited (h : s.limit = none) (t : String) :
    s.write t = (true, { s with written := s.written ++ t.toUTF8 }) := by
  simp only [write, h]

theorem write_of_limit (h : s.limit = some n) (t : String) :
    s.write t = (decide (t.toUTF8.size ≤ n - s.written.size),
      { s with written := s.written ++ t.toUTF8.extract 0 (n - s.written.size) }) := by
  simp only [write, h]

theorem refusal_write (s : Sink) (t : String) : (s.write t).2.refusal = s.refusal := by
  unfold write
  split <;> rfl

theorem write_empty (s : Sink) : s.write "" = (true, s) := by
  cases h : s.limit with
  | none => simp [write_of_unlimited h]
  | some n =>
    have he : ("" : String).toUTF8.extract 0 (n - s.written.size) = .empty :=
      extract_zero_of_size_le (Nat.zero_le _)
    rw [write_of_limit h, he, ByteArray.append_empty]
    simp

/-- The second of two texts is written only if the first one fits. -/
theorem write_append (s : Sink) (t u : String) :
    s.write (t ++ u) = if (s.write t).1 then (s.write t).2.write u else s.write t := by
  have hb : (t ++ u).toUTF8 = t.toUTF8 ++ u.toUTF8 := String.toByteArray_append
  cases h : s.limit with
  | none => simp [write, h, ByteArray.append_assoc]
  | some n =>
    rw [write_of_limit h t, write_of_limit h (t ++ u), hb]
    by_cases ht : t.toUTF8.size ≤ n - s.written.size
    · have hl : ({ s with written := s.written ++ t.toUTF8 } : Sink).limit = some n := h
      have hr : n - (s.written ++ t.toUTF8).size = n - s.written.size - t.toUTF8.size := by
        rw [ByteArray.size_append, Nat.sub_sub]
      have hf : (t.toUTF8 ++ u.toUTF8).size ≤ n - s.written.size ↔
          u.toUTF8.size ≤ n - s.written.size - t.toUTF8.size := by
        rw [ByteArray.size_append]
        omega
      rw [if_pos (decide_eq_true ht), ByteArray.extract_append, extract_zero_of_size_le ht,
        write_of_limit hl, hr, Nat.zero_sub, ByteArray.append_assoc, decide_eq_decide.mpr hf]
    · have hf : ¬ (t.toUTF8 ++ u.toUTF8).size ≤ n - s.written.size := by
        rw [ByteArray.size_append]
        omega
      rw [if_neg (by simpa using ht), decide_eq_false ht, decide_eq_false hf,
        extract_zero_append_of_le (by omega)]

end Sink

/-! ## Chains of writes -/

section Chains

variable {ε α β : Type} {refused : String → ε} {w : Writing ε α} {k : α → Writing ε β}
  {ts us : List String}

/-- The computation acts like a single write of the texts put together. If all of them fit it ends
with the result, and otherwise with the refusal of the sink. -/
def Writes (refused : String → ε) (w : Writing ε α) (ts : List String) (r : Except ε α) : Prop :=
  ∀ s : Sink, w.deliver s =
    (if (s.write (String.join ts)).1 then r else .error (refused s.refusal),
      (s.write (String.join ts)).2)

theorem deliver_bind (w : Writing ε α) (k : α → Writing ε β) (s : Sink) :
    (w >>= k).deliver s = match w.deliver s with
      | (.ok a, s) => (k a).deliver s
      | (.error e, s) => (.error e, s) := by
  unfold Writing.deliver
  rw [ExceptT.run_bind, StateT.run_bind]
  rcases StateT.run w.run s with ⟨_ | _, _⟩ <;> rfl

theorem deliver_put (t : String) (s : Sink) : (put t).deliver s =
    (if (s.write t).1 then .ok () else .error (s.write t).2.refusal, (s.write t).2) := by
  have hw : (modifyGet fun s : Sink => s.write t : Writing String Bool).deliver s =
      (.ok (s.write t).1, (s.write t).2) := rfl
  rw [put, deliver_bind, hw]
  cases (s.write t).1 <;> rfl

theorem writes_put (t : String) : Writes id (put t) [t] (.ok ()) := by
  intro s
  rw [deliver_put, Sink.refusal_write, String.join_cons, String.join_nil, String.append_empty]
  rfl

/-- What writes nothing is not refused. -/
theorem writes_of_deliver_eq {r : Except ε α} (h : ∀ s, w.deliver s = (r, s)) :
    Writes refused w [] r := by
  intro s
  rw [h, String.join_nil, Sink.write_empty]
  rfl

theorem writes_pure (a : α) : Writes refused (pure a) [] (.ok a) :=
  writes_of_deliver_eq fun _ => rfl

theorem writes_throw (e : ε) : Writes refused (throw e : Writing ε α) [] (.error e) :=
  writes_of_deliver_eq fun _ => rfl

theorem Writes.bind {a : α} {r : Except ε β} (hw : Writes refused w ts (.ok a))
    (hk : Writes refused (k a) us r) : Writes refused (w >>= k) (ts ++ us) r := by
  intro s
  rw [deliver_bind, hw s, String.join_append, Sink.write_append]
  by_cases h : (s.write (String.join ts)).1 = true
  · rw [if_pos h, if_pos h]
    exact (hk _).trans (by rw [Sink.refusal_write])
  · rw [if_neg h, if_neg h, if_neg h]

/-- What fails does not go on. -/
theorem Writes.bind_of_error {e : ε} (hw : Writes refused w ts (.error e)) :
    Writes refused (w >>= k) ts (.error e) := by
  intro s
  rw [deliver_bind, hw s]
  by_cases h : (s.write (String.join ts)).1 = true
  · rw [if_pos h, if_pos h]
  · rw [if_neg h, if_neg h]

theorem writes_forM {x : α → Writing ε PUnit} {ts : α → List String}
    (h : ∀ a, Writes refused (x a) (ts a) (.ok ())) (as : List α) :
    Writes refused (as.forM x) (as.flatMap ts) (.ok ()) := by
  induction as with
  | nil => exact writes_pure _
  | cons a as ih => exact (h a).bind ih

theorem writes_forM_put (f : α → String) (as : List α) :
    Writes id (as.forM fun a => put (f a)) (as.map f) (.ok ()) := by
  rw [List.map_eq_flatMap]
  exact writes_forM (fun a => writes_put (f a)) as

variable {r : Except ε α}

theorem Writes.deliver_unlimited (h : Writes refused w ts r) :
    w.deliver {} = (r, { written := (String.join ts).toUTF8 }) := by
  rw [h, Sink.write_of_unlimited rfl]
  simp

theorem Writes.deliver_of_limit (h : Writes refused w ts r) (n : ℕ) (refusal : String) :
    w.deliver { limit := some n, refusal := refusal } =
      (if (String.join ts).toUTF8.size ≤ n then r else .error (refused refusal),
        { written := (String.join ts).toUTF8.extract 0 n, limit := some n,
          refusal := refusal }) := by
  rw [h, Sink.write_of_limit rfl]
  simp

theorem Writes.verdict_eq (h : Writes refused w ts r) : w.verdict = r := by
  rw [Writing.verdict, h.deliver_unlimited]

theorem Writes.text_eq (h : Writes refused w ts r) : w.text = String.join ts := by
  rw [Writing.text, h.deliver_unlimited, Sink.text, fromUTF8?_eq_some_iff.mpr rfl]
  rfl

/-- How the texts are divided makes no difference. -/
theorem Writes.whole (h : Writes refused w ts r) : Writes refused w [w.text] r := by
  intro s
  rw [h s, h.text_eq, String.join_cons, String.join_nil, String.append_empty]

end Chains

/-! ## Text reports -/

namespace Report.Text

def titlePieces (t : String) : List String :=
  [s!"{t}\n", String.ofList (List.replicate t.length '=') ++ "\n", "\n"]

def catalogPieces (f : Family) : List String :=
  catalogHeader f :: (f.members.map catalogRoutine ++ ["\n"])

def familyPieces (c : FamilyCheck) : List String :=
  familyHeader c :: (c.mismatches.map mismatch ++ c.failures.map failure)

def skippedPieces : List Family → List String
  | [] => []
  | fs => ["\n", s!"Skipped: {names fs}\n"]

def checkPieces (r : CheckReport) : List String :=
  titlePieces "Duplicate Check" ++ (r.families.flatMap familyPieces ++ skippedPieces r.skipped)

theorem writes_title (t : String) : Writes id (title t) (titlePieces t) (.ok ()) :=
  (writes_put _).bind ((writes_put _).bind (writes_put _))

theorem writes_catalogFamily (f : Family) :
    Writes id (catalogFamily f) (catalogPieces f) (.ok ()) :=
  (writes_put _).bind ((writes_forM_put _ _).bind (writes_put _))

theorem writes_catalog (fs : List Family) :
    Writes id (catalog fs) (titlePieces "Routine Catalog" ++ fs.flatMap catalogPieces) (.ok ()) :=
  (writes_title _).bind (writes_forM writes_catalogFamily fs)

theorem writes_evaluation (e : Evaluation) :
    Writes id (evaluation e) [s!"{e.routine.name}({e.input.text}) = {e.output.text}\n"] (.ok ()) :=
  writes_put _

theorem writes_familyCheck (c : FamilyCheck) :
    Writes id (familyCheck c) (familyPieces c) (.ok ()) :=
  (writes_put _).bind ((writes_forM_put _ _).bind (writes_forM_put _ _))

theorem writes_skipped (fs : List Family) : Writes id (skipped fs) (skippedPieces fs) (.ok ()) := by
  cases fs with
  | nil => exact writes_pure ()
  | cons f fs => exact (writes_put _).bind (writes_put _)

theorem writes_check (r : CheckReport) : Writes id (check r) (checkPieces r) (.ok ()) :=
  (writes_title _).bind ((writes_forM writes_familyCheck _).bind (writes_skipped _))

end Report.Text

/-! ## JSON documents -/

theorem Report.Structured.writes_document (j : Json) :
    Writes id (document j) [j.pretty, "\n"] (.ok ()) :=
  (writes_put _).bind (writes_put _)

namespace Format

variable (f : Format)

theorem writes_catalog (fs : List Family) :
    Writes id (f.catalog fs) [(f.catalog fs).text] (.ok ()) := by
  cases f with
  | text => exact (Report.Text.writes_catalog fs).whole
  | json => exact (Report.Structured.writes_document _).whole

theorem writes_evaluation (e : Evaluation) :
    Writes id (f.evaluation e) [(f.evaluation e).text] (.ok ()) := by
  cases f with
  | text => exact (Report.Text.writes_evaluation e).whole
  | json => exact (Report.Structured.writes_document _).whole

theorem writes_check (r : CheckReport) : Writes id (f.check r) [(f.check r).text] (.ok ()) := by
  cases f with
  | text => exact (Report.Text.writes_check r).whole
  | json => exact (Report.Structured.writes_document _).whole

end Format

/-! ## Commands -/

theorem Writes.report {w : Writing String Unit} {ts : List String} (h : Writes id w ts (.ok ())) :
    Writes .output (Output.report w) ts (.ok ()) := by
  intro s
  have hd : (Output.report w).deliver s = ((w.deliver s).1.mapError .output, (w.deliver s).2) := rfl
  rw [hd, h s]
  split <;> rfl

theorem writes_require {α : Type} (x : Except Error α) :
    Writes .output (Output.require x) [] (x.mapError .corpus) :=
  writes_of_deliver_eq fun _ => rfl

def passedLine : String := "\nCheck passed.\n"

def failedLine (k m : ℕ) : String :=
  s!"\nCheck FAILED: {Numeral.decimal k} of {Numeral.decimal m} families disagree\n"

namespace Command

open Output

theorem writes_list (format : Format) (family : Option Family) :
    Writes .output (list format family)
      [(format.catalog (family.elim Family.all fun f => [f])).text] (.ok ()) :=
  (format.writes_catalog _).report

/-- The report of an evaluation, unless it was not made. -/
def attempted (format : Format) (x : Except Error Evaluation) : Output := do
  report (format.evaluation (← require x))

theorem writes_attempted_error (format : Format) (e : Error) :
    Writes .output (attempted format (.error e)) [] (.error (.corpus e)) :=
  (writes_require _).bind_of_error

theorem writes_attempted_ok (format : Format) (e : Evaluation) :
    Writes .output (attempted format (.ok e)) [(format.evaluation e).text] (.ok ()) :=
  (writes_require (.ok e)).bind (format.writes_evaluation e).report

theorem run_eq_attempted (c : Settings) (format : Format) (name : String) (args : List String) :
    run c format name args = attempted format (do
      let r ← okOr (.unknownRoutine name) (Routine.ofName? name)
      (Session.run { fibonacciLimit := c.fibonacciLimit } r args).1) := by
  unfold run attempted
  cases okOr (.unknownRoutine name) (Routine.ofName? name) <;> rfl

theorem writes_conclusion_of_passed {r : CheckReport} (h : r.passed = true) :
    Writes .output (conclusion r) [passedLine] (.ok ()) := by
  rw [conclusion, if_pos h]
  exact (writes_put _).report

theorem writes_conclusion_of_failed {r : CheckReport} (h : ¬ r.passed = true) :
    Writes .output (conclusion r) [failedLine r.failedFamilies r.families.length]
      (.error .checkFailed) := by
  rw [conclusion, if_neg h]
  exact (writes_put _).report.bind (writes_throw _)

theorem writes_check {c : Settings} {ts : List String} {r : Except CommandError Unit}
    (h : Writes .output (conclusion c.verify) ts r) (format : Format) :
    Writes .output (check c format) ((format.check c.verify).text :: ts) r :=
  (format.writes_check _).report.bind h

end Command

/-! ## Operations -/

/-- Whatever writes output: the reports of both formats, and the commands. -/
inductive Operation where
  | catalog (fs : List Family)
  | evaluation (e : Evaluation)
  | report (r : CheckReport)
  | list (family : Option Family)
  | run (settings : Settings) (name : String) (args : List String)
  | check (settings : Settings)

def Operation.output (format : Format) : Operation → Output
  | .catalog fs => Output.report (format.catalog fs)
  | .evaluation e => Output.report (format.evaluation e)
  | .report r => Output.report (format.check r)
  | .list family => Command.list format family
  | .run settings name args => Command.run settings format name args
  | .check settings => Command.check settings format

theorem Operation.exists_writes (format : Format) (operation : Operation) :
    ∃ ts r, Writes .output (operation.output format) ts r := by
  cases operation with
  | catalog fs => exact ⟨_, _, (format.writes_catalog fs).report⟩
  | evaluation e => exact ⟨_, _, (format.writes_evaluation e).report⟩
  | report r => exact ⟨_, _, (format.writes_check r).report⟩
  | list family => exact ⟨_, _, Command.writes_list format family⟩
  | run c name args =>
    rw [output, Command.run_eq_attempted]
    generalize okOr (.unknownRoutine name) (Routine.ofName? name) >>= _ = x
    cases x with
    | error e => exact ⟨_, _, Command.writes_attempted_error format e⟩
    | ok e => exact ⟨_, _, Command.writes_attempted_ok format e⟩
  | check c =>
    by_cases h : c.verify.passed = true
    · exact ⟨_, _, Command.writes_check (Command.writes_conclusion_of_passed h) format⟩
    · exact ⟨_, _, Command.writes_check (Command.writes_conclusion_of_failed h) format⟩

/-- Cut off at any byte, an operation has written the beginning of its full output. It ends as it
would have ended if nothing is missing, and otherwise with the refusal of the sink, whatever its
verdict would have been. -/
theorem deliver_cut_off (operation : Operation) (format : Format) (n : ℕ) (refusal : String) :
    let full := (operation.output format).deliver {}
    let cut := (operation.output format).deliver { limit := some n, refusal := refusal }
    cut.2.written = full.2.written.extract 0 (min n full.2.written.size) ∧
      cut.1 = (if full.2.written.size ≤ n then full.1 else .error (.output refusal)) ∧
      exitCode cut.1 = if full.2.written.size ≤ n then exitCode full.1 else 2 := by
  intro full cut
  obtain ⟨ts, r, h⟩ := operation.exists_writes format
  have hf : full = _ := h.deliver_unlimited
  have hc : cut = _ := h.deliver_of_limit n refusal
  have hw : cut.2.written = full.2.written.extract 0 n := by rw [hc, hf]
  have hv : cut.1 = if full.2.written.size ≤ n then full.1 else .error (.output refusal) := by
    rw [hc, hf]
  refine ⟨?_, hv, ?_⟩
  · rcases Nat.le_total n full.2.written.size with h | h
    · rw [hw, Nat.min_eq_left h]
    · rw [hw, Nat.min_eq_right h, ByteArray.extract_zero_size, extract_zero_of_size_le h]
  · rw [hv]
    split <;> rfl

/-- Output that goes on after a refusal would lose it. -/
example : ((tryCatch (Output.report (put "ab")) fun _ => pure ()).deliver
    { limit := some 1 }).1 = .ok () := rfl

end RoutineCorpus
