import RoutineCorpus.Agreement
import RoutineCorpus.Proofs.Factorial

/-! # Sessions with a history

A session is used by any number of calls one after another, and what they leave
behind is the table of factorials. The table is determined by the numbers whose
factorials were asked for. Its entries are exact, so no call can tell what was
called before it.
-/

namespace RoutineCorpus

inductive Call where
  | evaluate (r : Routine) (x : Input)
  | run (r : Routine) (args : List String)
  | verifyFamily (f : Family) (xs : List Input)

def Call.evaluations : Call → List (Routine × Input)
  | .evaluate r x => [(r, x)]
  | .run r args =>
    match Input.read r.shape args with
    | .ok x => [(r, x)]
    | .error _ => []
  | .verifyFamily f xs => xs.flatMap fun x => f.members.map fun r => (r, x)

/-- The number whose factorial an evaluation asks the table for. -/
def request? : Routine × Input → Option Int64
  | (.mathUtilsFactorial, .integer n) => some n
  | _ => none

def requested (calls : List Call) : Finset Int64 :=
  ((calls.flatMap Call.evaluations).filterMap request?).toFinset

namespace Session

def fresh (limit : UInt32) : Session := { fibonacciLimit := limit }

/-- What a routine answers on an input in a session that has not been used. -/
def answer (limit : UInt32) (r : Routine) (x : Input) : Except Error Value :=
  ((fresh limit).evaluate r x).1

def step (s : Session) (e : Routine × Input) : Session := (s.evaluate e.1 e.2).2

def perform (s : Session) : Call → Session
  | .evaluate r x => (s.evaluate r x).2
  | .run r args => (s.run r args).2
  | .verifyFamily f xs => (s.verifyFamily f xs).2

def after (limit : UInt32) (calls : List Call) : Session := calls.foldl perform (fresh limit)

section Calls

variable (s : Session)

theorem each_snd {α β : Type} (step : Session → α → β × Session) (xs : List α) :
    (each step s xs).2 = xs.foldl (fun s x => (step s x).2) s := by
  induction xs generalizing s with
  | nil => rfl
  | cons x xs ih => rw [each_cons, List.foldl_cons, ih]

theorem run_snd (r : Routine) (args : List String) :
    (s.run r args).2 = (Call.run r args).evaluations.foldl step s := by
  unfold run Call.evaluations
  split <;> simp_all [step]

theorem evaluateAll_snd (rs : List Routine) (x : Input) :
    (s.evaluateAll rs x).2 = (rs.map fun r => (r, x)).foldl step s := by
  rw [List.foldl_map]
  exact each_snd s _ rs

theorem verifyFamily_snd (f : Family) (xs : List Input) :
    (s.verifyFamily f xs).2 = (Call.verifyFamily f xs).evaluations.foldl step s := by
  rw [Call.evaluations, List.foldl_flatMap]
  simp only [← evaluateAll_snd]
  exact each_snd s _ xs

/-- A call changes the session as its evaluations do. -/
theorem perform_eq (c : Call) : s.perform c = c.evaluations.foldl step s := by
  cases c with
  | evaluate r x => rfl
  | run r args => exact run_snd s r args
  | verifyFamily f xs => exact verifyFamily_snd s f xs

theorem after_eq (limit : UInt32) (calls : List Call) :
    after limit calls = (calls.flatMap Call.evaluations).foldl step (fresh limit) := by
  rw [after, List.foldl_flatMap]
  simp only [← perform_eq]

end Calls

theorem onInteger?_of_ne {r : Routine} (h : r ≠ .mathUtilsFactorial) (t t' : Factorial.Table)
    (n : Int64) : r.onInteger? t n = (r.onInteger? t' n).map fun p => (p.1, t) := by
  cases r <;> first | rfl | exact absurd rfl h

/-- Only a request to the table can change a session or depend on what it holds. -/
theorem evaluate_of_request?_eq_none (s : Session) {r : Routine} {x : Input}
    (h : request? (r, x) = none) : s.evaluate r x = (answer s.fibonacciLimit r x, s) := by
  cases x with
  | sequence xs =>
    simp only [answer, evaluate]
    split <;> rfl
  | integer n =>
    have hr : r ≠ .mathUtilsFactorial := by
      rintro rfl
      cases h
    have hf : (fresh s.fibonacciLimit).exceeds r n = s.exceeds r n := rfl
    simp only [answer, evaluate, hf]
    by_cases he : s.exceeds r n = true
    · rw [if_pos he, if_pos he]
      rfl
    · rw [if_neg he, if_neg he,
        onInteger?_of_ne hr s.factorials (fresh s.fibonacciLimit).factorials]
      cases r.onInteger? (fresh s.fibonacciLimit).factorials n <;> rfl
  | pair a b =>
    simp only [answer, evaluate]
    split <;> rfl

theorem evaluate_mathUtilsFactorial (s : Session) (n : Int64) :
    s.evaluate .mathUtilsFactorial (.integer n) =
      ((s.factorials.lookup n).1.map .integer,
        { s with factorials := (s.factorials.lookup n).2 }) := rfl

/-- A session with the given limit whose table comes from requests for the numbers in the set. -/
structure Tracks (s : Session) (limit : UInt32) (Q : Set Int64) : Prop where
  limit_eq : s.fibonacciLimit = limit
  holds : s.factorials.Holds (Factorial.kept Q)

variable {s : Session} {limit : UInt32} {Q : Set Int64}

theorem tracks_fresh (limit : UInt32) : (fresh limit).Tracks limit ∅ := by
  refine ⟨rfl, ?_⟩
  rw [Factorial.kept_empty]
  exact Factorial.Table.holds_empty

/-- Every evaluation answers as if it were the first. -/
theorem Tracks.evaluate_fst (h : s.Tracks limit Q) (r : Routine) (x : Input) :
    (s.evaluate r x).1 = answer limit r x := by
  obtain ⟨rfl, hs⟩ := h
  cases hr : request? (r, x) with
  | none => rw [evaluate_of_request?_eq_none s hr]
  | some n =>
    cases r <;> cases x <;> cases hr
    have hf := (tracks_fresh s.fibonacciLimit).holds
    rw [answer, evaluate_mathUtilsFactorial, evaluate_mathUtilsFactorial,
      (Factorial.Table.lookup_spec hs).1, (Factorial.Table.lookup_spec hf).1]

theorem Tracks.step (h : s.Tracks limit Q) (e : Routine × Input) :
    (s.step e).Tracks limit (Q ∪ {n | request? e = some n}) := by
  obtain ⟨r, x⟩ := e
  cases hr : request? (r, x) with
  | none =>
    rw [Session.step, evaluate_of_request?_eq_none s hr]
    simpa using h
  | some n =>
    cases r <;> cases x <;> cases hr
    refine ⟨h.limit_eq, ?_⟩
    simpa [Session.step, evaluate_mathUtilsFactorial, eq_comm] using
      (Factorial.Table.lookup_spec (n := n) h.holds).2

theorem Tracks.foldl_step (h : s.Tracks limit Q) (es : List (Routine × Input)) :
    (es.foldl Session.step s).Tracks limit (Q ∪ {n | n ∈ es.filterMap request?}) := by
  induction es generalizing s Q with
  | nil => simpa using h
  | cons e es ih =>
    have hn : {n | n ∈ (e :: es).filterMap request?} =
        {n | request? e = some n} ∪ {n | n ∈ es.filterMap request?} := by
      ext n
      simp
    rw [hn, ← Set.union_assoc]
    exact ih (h.step e)

theorem tracks_after (limit : UInt32) (calls : List Call) :
    (after limit calls).Tracks limit (requested calls) := by
  have h := (tracks_fresh limit).foldl_step (calls.flatMap Call.evaluations)
  rw [← after_eq, Set.empty_union] at h
  simpa [requested] using h

/-- What was done with a session before has no influence on what an evaluation gives. -/
theorem evaluate_after_eq_fresh (limit : UInt32) (calls : List Call) (r : Routine) (x : Input) :
    ((after limit calls).evaluate r x).1 = ((fresh limit).evaluate r x).1 :=
  (tracks_after limit calls).evaluate_fst r x

section Frame

variable {r : Routine} {x : Input} {args : List String}

theorem request?_eq_none_of_ne (h : r ≠ .mathUtilsFactorial) (x : Input) :
    request? (r, x) = none := by
  cases r <;> first | rfl | exact absurd rfl h

theorem evaluate_snd_of_ne (s : Session) (h : r ≠ .mathUtilsFactorial) (x : Input) :
    (s.evaluate r x).2 = s := by
  rw [evaluate_of_request?_eq_none s (request?_eq_none_of_ne h x)]

theorem Tracks.evaluate_snd_of_error (h : s.Tracks limit Q) {e : Error}
    (he : (s.evaluate r x).1 = .error e) : (s.evaluate r x).2 = s := by
  cases hr : request? (r, x) with
  | none => rw [evaluate_of_request?_eq_none s hr]
  | some n =>
    cases r <;> cases x <;> cases hr
    rw [evaluate_mathUtilsFactorial] at he ⊢
    cases hv : (s.factorials.lookup n).1 with
    | error e' => rw [Factorial.Table.lookup_snd_of_eq_error h.holds hv]
    | ok v =>
      rw [hv] at he
      cases he

/-- A run either stops before the evaluation or is one. -/
theorem run_cases (s : Session) (r : Routine) (args : List String) :
    (s.run r args).2 = s ∨ ∃ x, s.run r args =
      ((s.evaluate r x).1.map fun v => ⟨r, x, v⟩, (s.evaluate r x).2) := by
  unfold run
  split
  · exact Or.inl rfl
  · rename_i x _
    exact Or.inr ⟨x, rfl⟩

theorem run_snd_of_ne (s : Session) (h : r ≠ .mathUtilsFactorial) (args : List String) :
    (s.run r args).2 = s := by
  rcases s.run_cases r args with hs | ⟨x, hx⟩
  · exact hs
  · rw [hx]
    exact evaluate_snd_of_ne s h x

theorem Tracks.run_snd_of_error (h : s.Tracks limit Q) {e : Error}
    (he : (s.run r args).1 = .error e) : (s.run r args).2 = s := by
  rcases s.run_cases r args with hs | ⟨x, hx⟩
  · exact hs
  · rw [hx] at he ⊢
    cases hv : (s.evaluate r x).1 with
    | error e' => exact h.evaluate_snd_of_error hv
    | ok v =>
      rw [hv] at he
      cases he

theorem foldl_step_eq_self {es : List (Routine × Input)} (h : ∀ e ∈ es, s.step e = s) :
    es.foldl Session.step s = s := by
  induction es with
  | nil => rfl
  | cons e es ih =>
    rw [List.foldl_cons, h e (by simp)]
    exact ih fun e' he' => h e' (List.mem_cons_of_mem e he')

theorem verifyFamily_snd_of_ne (s : Session) {f : Family} (h : f ≠ .factorial) (xs : List Input) :
    (s.verifyFamily f xs).2 = s := by
  rw [verifyFamily_snd]
  apply foldl_step_eq_self
  intro e he
  simp only [Call.evaluations, List.mem_flatMap, List.mem_map] at he
  obtain ⟨x, -, r, hr, rfl⟩ := he
  apply evaluate_snd_of_ne
  rintro rfl
  exact h (Family.mem_members.mp hr).symm

end Frame

/-- The table after a history holds exactly the factorials of the requests that are not positive
and of everything from `1` up to the highest request that fits. A call that fails, and a call of
anything but the routine with the table, leaves the session as it was. -/
theorem factorials_after (limit : UInt32) (calls : List Call) :
    (∀ k, ((after limit calls).factorials.get? k).isSome ↔
      k ≤ 0 ∧ k ∈ requested calls ∨
        1 ≤ k.toInt ∧ k.toInt ≤ Factorial.highest (requested calls)) ∧
    (∀ k v, (after limit calls).factorials.get? k = some v →
      v.toInt = if k ≤ 1 then 1 else (Nat.factorial k.toInt.toNat : ℤ)) ∧
    (after limit calls).cached =
      ((requested calls).filter (· ≤ 0)).card + Factorial.highest (requested calls) ∧
    (∀ r x, (∃ e, ((after limit calls).evaluate r x).1 = .error e) ∨ r ≠ .mathUtilsFactorial →
      ((after limit calls).evaluate r x).2 = after limit calls) ∧
    (∀ r args, (∃ e, ((after limit calls).run r args).1 = .error e) ∨ r ≠ .mathUtilsFactorial →
      ((after limit calls).run r args).2 = after limit calls) ∧
    ∀ f xs, f ≠ .factorial → ((after limit calls).verifyFamily f xs).2 = after limit calls := by
  have h := tracks_after limit calls
  refine ⟨?_, ?_, h.holds.size_of_kept, ?_, ?_, ?_⟩
  · intro k
    rw [Option.isSome_iff_exists, ← Factorial.mem_kept_iff_le_highest]
    exact ⟨fun ⟨v, hv⟩ => ((h.holds k v).mp hv).1, fun hk => ⟨_, h.holds.get?_of_mem hk⟩⟩
  · intro k v hv
    obtain ⟨hk, rfl⟩ := (h.holds k v).mp hv
    split
    · rename_i h1
      rw [Factorial.value_of_le_one h1]
      decide
    · exact Factorial.toInt_value (Factorial.le_largest_of_mem_kept hk)
  · rintro r x (⟨e, he⟩ | hr)
    · exact h.evaluate_snd_of_error he
    · exact evaluate_snd_of_ne _ hr x
  · rintro r args (⟨e, he⟩ | hr)
    · exact h.run_snd_of_error he
    · exact run_snd_of_ne _ hr args
  · intro f xs hf
    exact verifyFamily_snd_of_ne _ hf xs

theorem factorials_after_mixed_calls :
    let s := after 40 [.evaluate .mathUtilsFactorial (.integer 5), .run .mathUtilsFactorial ["-3"],
      .evaluate .calculateFactorial (.integer 7), .verifyFamily .factorial [.integer 40]]
    s.cached = 6 ∧
      (s.evaluate .mathUtilsFactorial (.integer 34)).1 = .error (.overflow .mathUtilsFactorial) ∧
      (s.evaluate .mathUtilsFactorial (.integer 34)).2 = s ∧
      (s.run .calculateFibonacci ["9"]).2 = s ∧
      (s.verifyFamily .sum [.sequence [1, 2]]).2 = s := by
  intro s
  obtain ⟨-, -, hc, he, hr, hv⟩ := factorials_after 40
    [.evaluate .mathUtilsFactorial (.integer 5), .run .mathUtilsFactorial ["-3"],
      .evaluate .calculateFactorial (.integer 7), .verifyFamily .factorial [.integer 40]]
  have ho : (s.evaluate .mathUtilsFactorial (.integer 34)).1 =
      .error (.overflow .mathUtilsFactorial) := by
    rw [evaluate_mathUtilsFactorial, (Factorial.Table.lookup_spec (tracks_after _ _).holds).1,
      Factorial.value?_eq_none_iff.mpr (by decide)]
    rfl
  exact ⟨hc.trans (by decide), ho, he _ _ (Or.inl ⟨_, ho⟩), hr _ _ (Or.inr (by decide)),
    hv _ _ (by decide)⟩

end Session

end RoutineCorpus
