import RoutineCorpus.Proofs.RunOutcome

/-! # What a command can tell of its surroundings

The catalog is shown without a look at the files or at the options that bear on
settings. A run looks at the settings, but all it can tell of them is how loading
them fails and, if a Fibonacci routine is named, the limit. Both are statements
about two command lines, each in a workspace of its own.
-/

namespace RoutineCorpus

namespace Session

variable {r : Routine} {limit limit' : UInt32}

/-- Only the Fibonacci routines have a limit. -/
theorem answer_eq_of_family_ne (h : r.family ≠ .fibonacci) (x : Input) :
    answer limit r x = answer limit' r x := by
  have he : ∀ (s : Session) (n : Int64), s.exceeds r n = false := by
    intro s n
    simp [exceeds, h]
  cases x with
  | sequence xs =>
    simp only [answer, evaluate]
    cases r.onSequence? (xs.map Int128.ofInt64) with
    | none => rfl
    | some y => cases y <;> rfl
  | integer n =>
    simp only [answer, evaluate, he, fresh]
    cases r.onInteger? .empty n <;> rfl
  | pair a b =>
    simp only [answer, evaluate]
    cases r.onPair? a b <;> rfl

end Session

namespace CommandLine

/-! ## Runs -/

/-- A run of the named routine cannot tell the one result of loading settings from the other. -/
inductive Alike (name : String) : Except Error Settings → Except Error Settings → Prop
  | failed (e : Error) : Alike name (.error e) (.error e)
  | loaded {c c' : Settings} (h : c.fibonacciLimit = c'.fibonacciLimit ∨
      ∀ r : Routine, r.name = name → r.family ≠ .fibonacci) : Alike name (.ok c) (.ok c')

theorem attempt_congr {name : String} {loaded loaded' : Except Error Settings}
    (h : Alike name loaded loaded') (words : List String) :
    attempt loaded name words = attempt loaded' name words := by
  cases h with
  | failed e => rfl
  | @loaded c c' h =>
    cases hr : Routine.ofName? name with
    | none =>
      have hn := Routine.ofName?_eq_none_iff.mp hr
      rw [attempt_of_forall_ne c hn, attempt_of_forall_ne c' hn]
    | some r =>
      obtain rfl := Routine.name_of_ofName? hr
      have ha : ∀ x,
          Session.answer c.fibonacciLimit r x = Session.answer c'.fibonacciLimit r x := by
        intro x
        rcases h with hl | hf
        · rw [hl]
        · exact Session.answer_eq_of_family_ne (hf r rfl) x
      simp only [Session.answer] at ha
      rw [attempt_name, attempt_name, Session.run, Session.run]
      cases Input.read r.shape words with
      | error fault => rfl
      | ok x => simp only [ha]

/-! ## Command lines without a command -/

structure Progress.Unselective (p : Progress) : Prop where
  family_eq : p.options.family = none
  pending_ne : p.pending ≠ some .family

/-- An argument names a command and stands where one can stand, after complete options. -/
def NamesCommand (p : Progress) (args : List String) : Prop :=
  ∃ before s after, args = before ++ s :: after ∧ (Verb.ofName? s).isSome ∧
    ∃ i, takeCommand p before = .ok i

section NoCommand

variable {o o' : Options} {n : Name} {s : String} {p : Progress}

theorem Token.eq_of_ofString_eq_plain {t : String} (h : Token.ofString s = .plain t) : t = s := by
  unfold Token.ofString at h
  split at h
  · cases h
  · split at h <;> cases h
  · cases h
  · cases h
    rfl

theorem family_of_set (hn : n ≠ .family) (ho : o.family = none) (h : o.set n s = .ok o') :
    o'.family = none := by
  unfold Options.set at h
  split at h
  · rename_i o'' hs
    cases h
    cases n with
    | family => exact absurd rfl hn
    | _ =>
      simp only [Options.set?, Option.pure_def, Option.bind_eq_bind, Option.bind_eq_some_iff,
        Option.some.injEq] at hs
      obtain ⟨_, _, rfl⟩ := hs
      exact ho
  · cases h

theorem unselective_of_set (hn : n ≠ .family) (ho : o.family = none)
    (h : (do return ⟨← o.set n s, none⟩ : Except Stop Progress) = .ok p) : p.Unselective := by
  obtain ⟨o', hs, h⟩ := bind_eq_ok_iff.mp h
  cases h
  exact ⟨family_of_set hn ho hs, by simp⟩

theorem ofLong?_none_ne (name : String) : Name.ofLong? none name ≠ some .family := by
  unfold Name.ofLong?
  split <;> simp

theorem unselective_of_takeLong {name : String} {value : Option String} (ho : o.family = none)
    (h : takeLong none o name value = .ok p) : p.Unselective := by
  have hn := ofLong?_none_ne name
  unfold takeLong at h
  split at h
  · rename_i n hl
    cases h
    exact ⟨ho, hl ▸ hn⟩
  · rename_i n s hl
    exact unselective_of_set (fun hf => hn (hf ▸ hl)) ho h
  · split at h
    · cases h
      exact ⟨ho, by simp⟩
    · split at h
      · cases h
      · split at h <;> cases h
  · cases h

theorem unselective_of_takeShort {cs : List Char} (ho : o.family = none)
    (h : takeShort none o cs = .ok p) : p.Unselective := by
  fun_induction takeShort none o cs with
  | case1 =>
    cases h
    exact ⟨ho, by simp⟩
  | case2 cs ih => exact ih h
  | case5 =>
    cases h
    exact ⟨ho, by simp⟩
  | case6 cs => exact unselective_of_set (by simp) ho h
  | case7 cs => exact unselective_of_set (by simp) ho h
  | case3 | case4 | case8 => cases h

/-- What comes after an argument that is no command names none either. -/
theorem not_namesCommand_of_step {q : Progress} {rest : List String}
    (hstep : ∀ before, takeCommand p (s :: before) = takeCommand q before)
    (h : ¬ NamesCommand p (s :: rest)) : ¬ NamesCommand q rest := by
  rintro ⟨before, t, after, rfl, ht, i, hi⟩
  exact h ⟨s :: before, t, after, rfl, ht, i, (hstep before).trans hi⟩

theorem list_of_takeCommand {args : List String} (hargs : ¬ NamesCommand p args)
    {i : Invocation} (hp : p.Unselective) (h : takeCommand p args = .ok i) :
    i.action = .list ∧ i.options.family = none := by
  fun_induction takeCommand p args with
  | case1 o =>
    cases h
    exact ⟨rfl, hp.family_eq⟩
  | case3 o s rest t n ht ih =>
    obtain ⟨o', ho, h⟩ := bind_eq_ok_iff.mp h
    have hn : n ≠ .family := fun hf => hp.pending_ne (congrArg some hf)
    refine ih o' (not_namesCommand_of_step ?_ hargs) ⟨family_of_set hn hp.family_eq ho, by simp⟩ h
    intro before
    simp only [takeCommand, ht, ho]
    rfl
  | case6 o s rest t ht verb hv =>
    obtain rfl := Token.eq_of_ofString_eq_plain ht
    exact absurd ⟨[], t, rest, rfl, by simp [hv], ⟨o, .list⟩, by rw [takeCommand]⟩ hargs
  | case7 o s rest =>
    cases h
    exact ⟨rfl, hp.family_eq⟩
  | case9 o s rest name value ht ih =>
    obtain ⟨q, hq, h⟩ := bind_eq_ok_iff.mp h
    refine ih q (not_namesCommand_of_step ?_ hargs) (unselective_of_takeLong hp.family_eq hq) h
    intro before
    simp only [takeCommand, ht, hq]
    rfl
  | case10 o s rest cs ht ih =>
    obtain ⟨q, hq, h⟩ := bind_eq_ok_iff.mp h
    refine ih q (not_namesCommand_of_step ?_ hargs) (unselective_of_takeShort hp.family_eq hq) h
    intro before
    simp only [takeCommand, ht, hq]
    rfl
  | case2 | case4 | case5 | case8 => cases h

end NoCommand

/-! ## Two command lines -/

/-- Whatever the workspaces and the options are, two command lines that list the catalog in the
same format and with the same choice of family have the same response, and a command line without
a command is one of these with no family chosen. Two that run the same routine on the same words
have the same response in the same format unless loading the settings fails for one of them only or
in another way, or the routine has a limit and the limits differ. -/
theorem response_ignores_surroundings :
    (∀ w w' args args' i i', Invocation.ofArgs args = .ok i → Invocation.ofArgs args' = .ok i' →
      i.action = .list → i'.action = .list → i.format = i'.format →
      i.options.family = i'.options.family →
      ∃ output, respond w args = .finished output ∧ respond w' args' = .finished output ∧
        output.verdict = .ok ()) ∧
    (∀ args i, ¬ NamesCommand ⟨{}, none⟩ args → Invocation.ofArgs args = .ok i →
      i.action = .list ∧ i.options.family = none) ∧
    ∀ w w' args args' i i' name words, Invocation.ofArgs args = .ok i →
      Invocation.ofArgs args' = .ok i' → i.action = .run name words → i'.action = .run name words →
      i.format = i'.format → Alike name (i.settings w) (i'.settings w') →
      ∃ output, respond w args = .finished output ∧ respond w' args' = .finished output := by
  refine ⟨?_, ?_, ?_⟩
  · intro w w' args args' i i' hi hi' hl hl' hf hs
    have he : i'.execute w' = i.execute w := by
      simp only [Invocation.execute, hl, hl', hf, hs]
    refine ⟨i.execute w, respond_eq w hi, he ▸ respond_eq w' hi', ?_⟩
    rw [Invocation.execute, hl]
    exact (Command.writes_list i.format i.options.family).verdict_eq
  · intro args i hargs hi
    exact list_of_takeCommand hargs ⟨rfl, by simp⟩ hi
  · intro w w' args args' i i' name words hi hi' hr hr' hf ha
    obtain ⟨o, action⟩ := i
    obtain ⟨o', action'⟩ := i'
    obtain rfl : action = .run name words := hr
    obtain rfl : action' = .run name words := hr'
    have he : Invocation.execute ⟨o', .run name words⟩ w' =
        Invocation.execute ⟨o, .run name words⟩ w := by
      rw [execute_run, execute_run]
      exact congrArg₂ Command.attempted hf.symm (attempt_congr ha words).symm
    exact ⟨_, respond_eq w hi, he ▸ respond_eq w' hi'⟩

theorem response_ignores_surroundings_instances :
    let bare : Workspace := { current := "/corpus", entry := fun _ => .absent }
    let broken : Workspace := { current := "/", entry := fun _ => .directory }
    (∃ output, respond broken ["--max-n", "5", "list", "--path=x", "--family", "sum"] =
        .finished output ∧
      respond bare ["list", "--family=sum"] = .finished output) ∧
    (∃ i, Invocation.ofArgs ["-v", "--path", "list"] = .ok i ∧ i.action = .list ∧
      i.options.family = none) ∧
    (∃ output, respond broken ["run", "calculate_fibonacci", "9"] = .finished output ∧
      respond broken ["run", "--max-n=3", "calculate_fibonacci", "9"] = .finished output) ∧
    ∃ output, respond bare ["run", "calculate_sum", "-1", "--fibonacci-limit", "2", "7"] =
        .finished output ∧
      respond bare ["--exclude=sum", "run", "calculate_sum", "-1", "7"] = .finished output := by
  intro bare broken
  obtain ⟨list, bareLine, run⟩ := response_ignores_surroundings
  refine ⟨?_, ?_, ?_, ?_⟩
  · obtain ⟨output, h, h', -⟩ := list broken bare
      ["--max-n", "5", "list", "--path=x", "--family", "sum"] ["list", "--family=sum"]
      ⟨{ maxN := some 5, path := some "x", family := some .sum }, .list⟩
      ⟨{ family := some .sum }, .list⟩ (by decide +kernel) (by decide +kernel) rfl rfl rfl rfl
    exact ⟨output, h, h'⟩
  · have hi : Invocation.ofArgs ["-v", "--path", "list"] =
        .ok ⟨{ path := some "list" }, .list⟩ := by
      decide +kernel
    have hpath : takeCommand ⟨{}, none⟩ ["-v", "--path"] = .error .usage := by decide +kernel
    refine ⟨_, hi, bareLine _ _ ?_ hi⟩
    rintro ⟨before, s, after, ha, hs, i, hb⟩
    rcases before with _ | ⟨a, _ | ⟨b, _ | ⟨c, before⟩⟩⟩
    · cases ha
      exact absurd hs (by decide)
    · cases ha
      exact absurd hs (by decide)
    · cases ha
      cases hpath.symm.trans hb
    · simp at ha
  · exact run broken broken _ _ ⟨{}, .run "calculate_fibonacci" ["9"]⟩
      ⟨{ maxN := some 3 }, .run "calculate_fibonacci" ["9"]⟩ _ _ (by decide +kernel)
      (by decide +kernel) rfl rfl rfl (.failed _)
  · refine run bare bare _ _
      ⟨{ fibonacciLimit := some 2 }, .run "calculate_sum" ["-1", "7"]⟩
      ⟨{ exclude := [.sum] }, .run "calculate_sum" ["-1", "7"]⟩ _ _ (by decide +kernel)
      (by decide +kernel) rfl rfl rfl (.loaded (Or.inr fun r hr => ?_))
    obtain rfl := Routine.eq_of_name_eq (s := .calculateSum) hr
    decide

end CommandLine

end RoutineCorpus
