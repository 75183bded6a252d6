import RoutineCorpus.CommandLine.Execute
import RoutineCorpus.Proofs.Delivery
import RoutineCorpus.Proofs.Rerun

/-! # How a run ends

Four obstacles can keep a routine from being run: settings that cannot be loaded,
a name that no routine has, arguments that cannot be read, and an input on which
the routine fails. They are looked for in this order. The first one there is
decides, and then nothing is written. Without an obstacle exactly one evaluation
is written.
-/

namespace RoutineCorpus

theorem Routine.ofName?_eq_none_iff {s : String} :
    ofName? s = none ↔ ∀ r : Routine, r.name ≠ s := by
  constructor
  · rintro h r rfl
    rw [ofName?_name] at h
    cases h
  · intro h
    rw [Option.eq_none_iff_forall_ne_some]
    intro r hr
    exact h r (name_of_ofName? hr)

theorem Session.run_eq_error_iff {s : Session} {r : Routine} {args : List String} {err : Error} :
    (s.run r args).1 = .error err ↔
      (∃ fault, Input.read r.shape args = .error fault ∧ err = .invalidInput r fault) ∨
        ∃ x, Input.read r.shape args = .ok x ∧ (s.evaluate r x).1 = .error err := by
  unfold run
  split
  · rename_i fault hx
    simp [hx, eq_comm]
  · rename_i x hx
    cases hv : (s.evaluate r x).1 <;> simp [hx, hv, Except.map]

namespace CommandLine

/-! ## Obstacles -/

/-- What keeps a run from giving a value, by the place at which it is looked for. -/
inductive Obstacle (loaded : Except Error Settings) (name : String) (words : List String) :
    ℕ → Error → Prop
  | settings {e : Error} (h : loaded = .error e) : Obstacle loaded name words 0 e
  | name (h : ∀ r : Routine, r.name ≠ name) :
      Obstacle loaded name words 1 (.unknownRoutine name)
  | input {r : Routine} {fault : InputFault} (hr : r.name = name)
      (h : Input.read r.shape words = .error fault) :
      Obstacle loaded name words 2 (.invalidInput r fault)
  | evaluation {c : Settings} {r : Routine} {x : Input} {e : Error} (hc : loaded = .ok c)
      (hr : r.name = name) (hx : Input.read r.shape words = .ok x)
      (h : Session.answer c.fibonacciLimit r x = .error e) : Obstacle loaded name words 3 e

section Absent

variable {loaded : Except Error Settings} {name : String} {words : List String} {e : Error}

theorem not_obstacle_settings (c : Settings) : ¬ Obstacle (.ok c) name words 0 e := by
  rintro ⟨h⟩
  cases h

theorem not_obstacle_name (r : Routine) : ¬ Obstacle loaded r.name words 1 e := by
  intro h
  cases h with
  | name h => exact h r rfl

theorem not_obstacle_input {r : Routine} {x : Input} (hx : Input.read r.shape words = .ok x) :
    ¬ Obstacle loaded r.name words 2 e := by
  intro h
  cases h with
  | input hr h =>
    obtain rfl := Routine.eq_of_name_eq hr
    cases hx.symm.trans h

end Absent

def attempt (loaded : Except Error Settings) (name : String) (words : List String) :
    Except Error Evaluation :=
  match loaded with
  | .error e => .error e
  | .ok c =>
    match Routine.ofName? name with
    | none => .error (.unknownRoutine name)
    | some r => ((Session.fresh c.fibonacciLimit).run r words).1

section Attempt

variable {loaded : Except Error Settings} {name : String} {words : List String}

theorem attempt_error (e : Error) : attempt (.error e) name words = .error e := rfl

theorem attempt_of_forall_ne (c : Settings) (h : ∀ r : Routine, r.name ≠ name) :
    attempt (.ok c) name words = .error (.unknownRoutine name) := by
  simp only [attempt, Routine.ofName?_eq_none_iff.mpr h]

theorem attempt_name (c : Settings) (r : Routine) :
    attempt (.ok c) r.name words = ((Session.fresh c.fibonacciLimit).run r words).1 := by
  simp only [attempt, Routine.ofName?_name]

/-- What keeps a run from its evaluation is the first obstacle there is. -/
theorem attempt_eq_error_iff {e : Error} : attempt loaded name words = .error e ↔
    ∃ k, Obstacle loaded name words k e ∧
      ∀ j < k, ∀ e', ¬ Obstacle loaded name words j e' := by
  constructor
  · intro h
    cases loaded with
    | error e' =>
      cases h
      exact ⟨0, .settings rfl, fun j hj => absurd hj (Nat.not_lt_zero j)⟩
    | ok c =>
      cases hr : Routine.ofName? name with
      | none =>
        have hn := Routine.ofName?_eq_none_iff.mp hr
        rw [attempt_of_forall_ne c hn] at h
        cases h
        refine ⟨1, .name hn, fun j hj e' => ?_⟩
        obtain rfl : j = 0 := by omega
        exact not_obstacle_settings c
      | some r =>
        obtain rfl := Routine.name_of_ofName? hr
        rw [attempt_name] at h
        rcases Session.run_eq_error_iff.mp h with ⟨fault, hx, rfl⟩ | ⟨x, hx, hv⟩
        · refine ⟨2, .input rfl hx, fun j hj e' => ?_⟩
          obtain rfl | rfl : j = 0 ∨ j = 1 := by omega
          · exact not_obstacle_settings c
          · exact not_obstacle_name r
        · refine ⟨3, .evaluation rfl rfl hx hv, fun j hj e' => ?_⟩
          obtain rfl | rfl | rfl : j = 0 ∨ j = 1 ∨ j = 2 := by omega
          · exact not_obstacle_settings c
          · exact not_obstacle_name r
          · exact not_obstacle_input hx
  · rintro ⟨k, hk, hfirst⟩
    have hok : 0 < k → ∃ c, loaded = .ok c := by
      intro hpos
      cases hl : loaded with
      | error e' => exact absurd (.settings hl) (hfirst 0 hpos e')
      | ok c => exact ⟨c, rfl⟩
    cases hk with
    | settings h => rw [h, attempt_error]
    | name h =>
      obtain ⟨c, rfl⟩ := hok Nat.one_pos
      exact attempt_of_forall_ne c h
    | input hr hf =>
      obtain ⟨c, rfl⟩ := hok Nat.two_pos
      rw [← hr, attempt_name]
      exact Session.run_eq_error_iff.mpr (Or.inl ⟨_, hf, rfl⟩)
    | evaluation hc hr hx hv =>
      rw [hc, ← hr, attempt_name]
      exact Session.run_eq_error_iff.mpr (Or.inr ⟨_, hx, hv⟩)

theorem attempt_eq_ok_iff {e : Evaluation} : attempt loaded name words = .ok e ↔
    ∃ c, loaded = .ok c ∧ e.routine.name = name ∧
      Input.read e.routine.shape words = .ok e.input ∧
      Session.answer c.fibonacciLimit e.routine e.input = .ok e.output := by
  constructor
  · intro h
    cases loaded with
    | error e' => cases h
    | ok c =>
      cases hr : Routine.ofName? name with
      | none =>
        rw [attempt_of_forall_ne c (Routine.ofName?_eq_none_iff.mp hr)] at h
        cases h
      | some r =>
        obtain rfl := Routine.name_of_ofName? hr
        rw [attempt_name] at h
        obtain ⟨rfl, hx, hv⟩ := Session.run_eq_ok_iff.mp h
        exact ⟨c, rfl, rfl, hx, hv⟩
  · rintro ⟨c, rfl, rfl, hx, hv⟩
    rw [attempt_name]
    exact Session.run_eq_ok_iff.mpr ⟨rfl, hx, hv⟩

end Attempt

/-! ## Execution -/

theorem respond_eq (w : Workspace) {args : List String} {i : Invocation}
    (h : Invocation.ofArgs args = .ok i) : respond w args = .finished (i.execute w) := by
  rw [respond, h]

theorem execute_run (w : Workspace) (o : Options) (name : String) (words : List String) :
    (⟨o, .run name words⟩ : Invocation).execute w =
      Command.attempted (o.format.getD .text)
        (attempt (Settings.loadWith w (o.path.getD w.current) o.overrides) name words) := by
  simp only [Invocation.execute, Invocation.settings, Invocation.root, Invocation.format,
    Command.run_eq_attempted]
  cases Settings.loadWith w (o.path.getD w.current) o.overrides with
  | error e => rfl
  | ok c =>
    unfold attempt
    cases Routine.ofName? name <;> rfl

/-- After two hyphens any name and any words can be given. -/
theorem ofArgs_run_escaped (name : String) (words : List String) :
    Invocation.ofArgs ("run" :: "--" :: name :: words) = .ok ⟨{}, .run name words⟩ := by
  have hr : takeWords .run ⟨{}, none⟩ false ("--" :: name :: words) = .ok ({}, name :: words) := by
    have he : Token.ofString "--" = .escape := rfl
    unfold takeWords
    simp only [he]
    rfl
  have hc : Token.ofString "run" = .plain "run" := rfl
  unfold Invocation.ofArgs takeCommand
  simp only [hc, Verb.ofName?, hr]
  rfl

/-- A run ends with the first obstacle there is, and then writes nothing. Without an obstacle it
succeeds and writes its one evaluation. Any name and any words can be given on a command line. -/
theorem run_reports_first_obstacle (w : Workspace) (o : Options) (name : String)
    (words : List String) :
    let run : Invocation := ⟨o, .run name words⟩
    let loaded := Settings.loadWith w (o.path.getD w.current) o.overrides
    let ended := (run.execute w).deliver {}
    (∀ k e, Obstacle loaded name words k e →
      (∀ j < k, ∀ e', ¬ Obstacle loaded name words j e') →
      ended.1 = .error (.corpus e) ∧ exitCode ended.1 = 2 ∧ ended.2.written = .empty ∧
        complaint? ended.1 = some ("Error: " ++ e.message)) ∧
    ((∀ k e, ¬ Obstacle loaded name words k e) →
      ∃ c r x v, loaded = .ok c ∧ r.name = name ∧ Input.read r.shape words = .ok x ∧
        Session.answer c.fibonacciLimit r x = .ok v ∧ ended.1 = .ok () ∧ exitCode ended.1 = 0 ∧
        ended.2.written = (run.format.evaluation ⟨r, x, v⟩).text.toUTF8) ∧
    exitCode ended.1 ≠ 1 ∧
    (∀ args, Invocation.ofArgs args = .ok run → respond w args = .finished (run.execute w)) ∧
    Invocation.ofArgs ("run" :: "--" :: name :: words) = .ok ⟨{}, .run name words⟩ := by
  intro run loaded ended
  have hended : ended = (Command.attempted run.format (attempt loaded name words)).deliver {} :=
    congrArg (Writing.deliver · {}) (execute_run w o name words)
  refine ⟨?_, ?_, ?_, fun args => respond_eq w, ofArgs_run_escaped name words⟩
  · intro k e hk hfirst
    rw [hended, attempt_eq_error_iff.mpr ⟨k, hk, hfirst⟩]
    exact ⟨rfl, rfl, rfl, rfl⟩
  · intro hnone
    cases ha : attempt loaded name words with
    | error e =>
      obtain ⟨k, hk, -⟩ := attempt_eq_error_iff.mp ha
      exact absurd hk (hnone k e)
    | ok e =>
      obtain ⟨c, hc, hr, hx, hv⟩ := attempt_eq_ok_iff.mp ha
      refine ⟨c, e.routine, e.input, e.output, hc, hr, hx, hv, ?_⟩
      rw [hended, ha, (Command.writes_attempted_ok run.format e).deliver_unlimited]
      exact ⟨rfl, rfl, by simp⟩
  · rw [hended]
    cases attempt loaded name words with
    | error e => exact (by decide : (2 : UInt8) ≠ 1)
    | ok e =>
      rw [(Command.writes_attempted_ok run.format e).deliver_unlimited]
      exact (by decide : (0 : UInt8) ≠ 1)

theorem run_reports_first_obstacle_instances :
    let bare : Workspace := { current := "/corpus", entry := fun _ => .absent }
    let broken : Workspace := { current := "/corpus", entry := fun _ => .directory }
    let ended := fun (w : Workspace) (name : String) (words : List String) =>
      (Invocation.execute ⟨{}, .run name words⟩ w).deliver {}
    (ended broken "fibonacci" ["x"]).1 = .error (.corpus (.unreadable .directory)) ∧
      (ended bare "fibonacci" ["x"]).1 = .error (.corpus (.unknownRoutine "fibonacci")) ∧
      (ended bare "calculate_fibonacci" ["31", "x"]).1 =
        .error (.corpus (.invalidInput .calculateFibonacci (.expectedOne 2))) ∧
      (ended bare "calculate_fibonacci" ["31"]).1 =
        .error (.corpus (.inputTooLarge .calculateFibonacci 31 30)) ∧
      (ended bare "calculate_fibonacci" ["30"]).1 = .ok () := by
  intro bare broken ended
  have hended : ∀ (w : Workspace) (name : String) (words : List String) (e : Error),
      attempt (Settings.loadWith w w.current {}) name words = .error e →
        (ended w name words).1 = .error (.corpus e) := by
    intro w name words e h
    obtain ⟨k, hk, hfirst⟩ := attempt_eq_error_iff.mp h
    exact ((run_reports_first_obstacle w {} name words).1 k e hk hfirst).1
  refine ⟨hended _ _ _ _ (by decide +kernel), hended _ _ _ _ (by decide +kernel),
    hended _ _ _ _ (by decide +kernel), hended _ _ _ _ (by decide +kernel), ?_⟩
  have hbare : Settings.loadWith bare bare.current {} = .ok { root := "/corpus" } := rfl
  have hx : Input.read .integer ["30"] = .ok (.integer 30) := by decide +kernel
  have hv : Session.answer 30 .calculateFibonacci (.integer 30) = .ok (.integer 832040) := by
    decide +kernel
  have hnone : ∀ k e, ¬ Obstacle (Settings.loadWith bare bare.current {})
      Routine.calculateFibonacci.name ["30"] k e := by
    intro k e h
    cases h with
    | settings h => cases hbare.symm.trans h
    | name h => exact h _ rfl
    | input hr h =>
      obtain rfl := Routine.eq_of_name_eq hr
      cases hx.symm.trans h
    | evaluation hc hr hx' h =>
      obtain rfl := Routine.eq_of_name_eq hr
      cases hbare.symm.trans hc
      cases hx.symm.trans hx'
      cases hv.symm.trans h
  obtain ⟨c, r, x, v, -, -, -, -, h, -⟩ :=
    (run_reports_first_obstacle bare {} "calculate_fibonacci" ["30"]).2.1 hnone
  exact h

end CommandLine

end RoutineCorpus
