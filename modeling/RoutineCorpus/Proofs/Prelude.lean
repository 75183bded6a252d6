import Mathlib.Data.List.Forall2

/-! # Results, lists and texts

General facts on computations that can fail, on lists, on lists of keys with their
values, and on the characters and bytes of a text.
-/

namespace RoutineCorpus

section Except

variable {ε ε' α β : Type} {e : ε}

theorem map_eq_ok_iff {f : α → β} {x : Except ε α} {b : β} :
    f <$> x = .ok b ↔ ∃ a, x = .ok a ∧ f a = b := by
  cases x <;> simp

theorem map_eq_error_iff {f : α → β} {x : Except ε α} : f <$> x = .error e ↔ x = .error e := by
  cases x <;> simp [Functor.map, Except.map]

theorem mapError_eq_ok_iff {f : ε → ε'} {x : Except ε α} {a : α} :
    x.mapError f = .ok a ↔ x = .ok a := by
  cases x <;> simp [Except.mapError]

theorem mapError_eq_error_iff {f : ε → ε'} {x : Except ε α} {e' : ε'} :
    x.mapError f = .error e' ↔ ∃ e, x = .error e ∧ e' = f e := by
  cases x <;> simp [Except.mapError, eq_comm]

theorem bind_eq_ok_iff {x : Except ε α} {f : α → Except ε β} {b : β} :
    x >>= f = .ok b ↔ ∃ a, x = .ok a ∧ f a = .ok b := by
  cases x <;> simp [bind, Except.bind]

theorem bind_eq_error_iff {x : Except ε α} {f : α → Except ε β} :
    x >>= f = .error e ↔ x = .error e ∨ ∃ a, x = .ok a ∧ f a = .error e := by
  cases x <;> simp [bind, Except.bind]

theorem mapM_eq_ok_iff {f : α → Except ε β} {as : List α} {bs : List β} :
    as.mapM f = .ok bs ↔ List.Forall₂ (fun a b => f a = .ok b) as bs := by
  induction as generalizing bs with
  | nil => cases bs <;> simp [pure, Except.pure]
  | cons a as ih =>
    have hstep : (a :: as).mapM f = .ok bs ↔
        ∃ b bs', f a = .ok b ∧ as.mapM f = .ok bs' ∧ bs = b :: bs' := by
      rw [List.mapM_cons, bind_eq_ok_iff]
      simp [bind_eq_ok_iff, pure, Except.pure, eq_comm (a := bs)]
    rw [hstep, List.forall₂_cons_left_iff]
    simp only [ih]

/-- Going through a list stops at the first element that fails. -/
theorem mapM_eq_error_iff {f : α → Except ε β} {as : List α} :
    as.mapM f = .error e ↔ ∃ before a after, as = before ++ a :: after ∧
      (∀ b ∈ before, ∃ y, f b = .ok y) ∧ f a = .error e := by
  induction as with
  | nil => simp [pure, Except.pure]
  | cons a as ih =>
    have hstep : (a :: as).mapM f = .error e ↔
        f a = .error e ∨ (∃ y, f a = .ok y) ∧ as.mapM f = .error e := by
      rw [List.mapM_cons, bind_eq_error_iff]
      simp [bind_eq_error_iff, pure, Except.pure]
    rw [hstep, ih]
    constructor
    · rintro (h | ⟨hy, before, a', after, rfl, hb, h⟩)
      · exact ⟨[], a, as, rfl, by simp, h⟩
      · exact ⟨a :: before, a', after, rfl, List.forall_mem_cons.mpr ⟨hy, hb⟩, h⟩
    · rintro ⟨before, a', after, heq, hb, h⟩
      cases before with
      | nil =>
        obtain ⟨rfl, rfl⟩ := List.cons.inj heq
        exact .inl h
      | cons b before =>
        obtain ⟨rfl, rfl⟩ := List.cons.inj heq
        rw [List.forall_mem_cons] at hb
        exact .inr ⟨hb.1, before, a', after, rfl, hb.2, h⟩

end Except

section Option

variable {α β : Type} {g : α → Option β}

theorem mapM_eq_some_iff {xs : List α} {ys : List β} :
    xs.mapM g = some ys ↔ List.Forall₂ (fun x y => g x = some y) xs ys := by
  induction xs generalizing ys with
  | nil => cases ys <;> simp
  | cons x xs ih =>
    rw [List.mapM_cons]
    cases ys with
    | nil => simp [Option.bind_eq_some_iff]
    | cons y ys => simp [Option.bind_eq_some_iff, ih]

theorem isSome_mapM_iff {xs : List α} :
    (xs.mapM g).isSome = true ↔ ∀ x ∈ xs, (g x).isSome = true := by
  induction xs with
  | nil => simp
  | cons x xs ih =>
    rw [List.mapM_cons, List.forall_mem_cons, ← ih]
    cases g x <;> cases xs.mapM g <;> simp

theorem optionMapM_eq_some_iff {x : Option α} {y : Option β} :
    x.mapM g = some y ↔ Option.Rel (fun x y => g x = some y) x y := by
  cases x <;> cases y <;> simp

end Option

section List

variable {α β : Type}

/-- Lists are equal if their images are and the function tells their elements apart. -/
theorem eq_of_map_eq {f : α → β} {xs ys : List α} (hf : ∀ x ∈ xs, ∀ y ∈ ys, f x = f y → x = y)
    (h : xs.map f = ys.map f) : xs = ys := by
  induction xs generalizing ys with
  | nil => exact (List.map_eq_nil_iff.mp h.symm).symm
  | cons x xs ih =>
    cases ys with
    | nil => cases h
    | cons y ys =>
      rw [List.map_cons, List.map_cons] at h
      obtain ⟨hx, hxs⟩ := List.cons.inj h
      rw [hf x List.mem_cons_self y List.mem_cons_self hx,
        ih (fun a ha b hb => hf a (.tail x ha) b (.tail y hb)) hxs]

/-- The first occurrence of an element cuts a list in one way. -/
theorem eq_of_append_cons_eq {c : α} {xs ys us vs : List α} (hx : c ∉ xs) (hy : c ∉ ys)
    (h : xs ++ c :: us = ys ++ c :: vs) : xs = ys ∧ us = vs := by
  induction xs generalizing ys with
  | nil =>
    cases ys with
    | nil => exact ⟨rfl, List.tail_eq_of_cons_eq h⟩
    | cons y ys => exact absurd (List.head_eq_of_cons_eq h ▸ List.mem_cons_self) hy
  | cons x xs ih =>
    rw [List.mem_cons, not_or] at hx
    cases ys with
    | nil => exact absurd (List.head_eq_of_cons_eq h).symm hx.1
    | cons y ys =>
      rw [List.mem_cons, not_or] at hy
      obtain ⟨hs, hu⟩ := ih hx.2 hy.2 (List.tail_eq_of_cons_eq h)
      exact ⟨by rw [List.head_eq_of_cons_eq h, hs], hu⟩

/-- What every step keeps is kept by all of them. -/
theorem foldlM_keeps {σ : Type} {P : σ → Prop} {step : σ → α → Option σ} {xs : List α}
    (hstep : ∀ x ∈ xs, ∀ s s', P s → step s x = some s' → P s') {s s' : σ} (h : P s)
    (hf : xs.foldlM step s = some s') : P s' := by
  induction xs generalizing s with
  | nil =>
    cases hf
    exact h
  | cons x xs ih =>
    rw [List.forall_mem_cons] at hstep
    rw [List.foldlM_cons] at hf
    obtain ⟨t, ht, hf⟩ := Option.bind_eq_some_iff.mp hf
    exact ih hstep.2 (hstep.1 s t h ht) hf

end List

section Lookup

variable {α : Type} {es : List (String × α)} {k : String} {x : α}

theorem lookup_eq_none_iff_notMem : es.lookup k = none ↔ k ∉ es.map Prod.fst := by
  rw [List.lookup_eq_none_iff]
  constructor
  · intro h hk
    obtain ⟨e, he, rfl⟩ := List.mem_map.mp hk
    simpa using h e he
  · intro h e he
    rw [bne_iff_ne]
    rintro rfl
    exact h (List.mem_map_of_mem he)

theorem mem_of_lookup_eq_some (h : es.lookup k = some x) : (k, x) ∈ es := by
  obtain ⟨front, back, rfl, -⟩ := List.lookup_eq_some_iff.mp h
  simp

end Lookup

section Text

theorem isSuffixOf_append_self (s t : List Char) : t.isSuffixOf (s ++ t) = true :=
  List.isSuffixOf_iff_suffix.mpr (List.suffix_append s t)

theorem isSuffixOf_append_of_ne {s t : List Char} (hs : s ≠ []) (ht : t ≠ [])
    (h : s.getLast? ≠ t.getLast?) (u : List Char) : s.isSuffixOf (u ++ t) = false := by
  rw [Bool.eq_false_iff, Ne, List.isSuffixOf_iff_suffix]
  rintro ⟨v, hv⟩
  have hl := congrArg List.getLast? hv
  rw [List.getLast?_append_of_ne_nil _ hs, List.getLast?_append_of_ne_nil _ ht] at hl
  exact h hl

theorem prefix_toList_append {p s : String} (h : p.toList <+: s.toList) (t : String) :
    p.toList <+: (s ++ t).toList := by
  rw [String.toList_append]
  exact h.trans (List.prefix_append _ _)

end Text

section Bytes

variable {a b : ByteArray} {n : Nat}

theorem fromUTF8?_eq_some_iff {s : String} : String.fromUTF8? a = some s ↔ a = s.toUTF8 := by
  unfold String.fromUTF8?
  constructor
  · intro h
    split at h
    · cases h
      rfl
    · cases h
  · rintro rfl
    exact dif_pos s.isValidUTF8

theorem extract_zero_of_size_le (h : a.size ≤ n) : a.extract 0 n = a := by
  rw [← Nat.max_eq_left h]
  exact ByteArray.extract_zero_max_size

theorem extract_zero_append_of_le (h : n ≤ a.size) :
    (a ++ b).extract 0 n = a.extract 0 n := by
  rw [ByteArray.extract_append, Nat.sub_eq_zero_of_le h, Nat.zero_sub, ByteArray.extract_same,
    ByteArray.append_empty]

end Bytes

end RoutineCorpus
