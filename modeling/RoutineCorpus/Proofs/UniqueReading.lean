import RoutineCorpus.Json
import RoutineCorpus.Proofs.Decimal

/-! # Pretty JSON can be read in one way only

The first character of a printed value tells its form, a string ends at its first
quote that is not escaped, and a number ends where a comma or a new line follows.
So values without doubles are told apart by their text, also when other text
comes after it.
-/

namespace RoutineCorpus.Json

inductive Discrete : Json → Prop
  | null : Discrete .null
  | bool (b : Bool) : Discrete (.bool b)
  | integer (n : Int) : Discrete (.integer n)
  | string (s : String) : Discrete (.string s)
  | array {xs : List Json} : (∀ x ∈ xs, Discrete x) → Discrete (.array xs)
  | object {fs : List (String × Json)} : (∀ f ∈ fs, Discrete f.2) → Discrete (.object fs)

section Strings

variable {s r : String} {t u : List Char}

def hexValue (c : Char) : Nat :=
  if c.isDigit then c.toNat - '0'.toNat else c.toNat - 'a'.toNat + 10

theorem hexValue_hexDigit : ∀ n < 16, hexValue (hexDigit n) = n := by decide

/-- The first character inside a string and the text after it, unless the string ends here. -/
def unescape? : List Char → Option (Char × List Char)
  | [] => none
  | '"' :: _ => none
  | '\\' :: 'n' :: cs => some ('\n', cs)
  | '\\' :: 't' :: cs => some ('\t', cs)
  | '\\' :: 'r' :: cs => some ('\r', cs)
  | '\\' :: 'b' :: cs => some ('\x08', cs)
  | '\\' :: 'f' :: cs => some ('\x0c', cs)
  | '\\' :: 'u' :: '0' :: '0' :: a :: b :: cs =>
    some (.ofNat (16 * hexValue a + hexValue b), cs)
  | '\\' :: c :: cs => some (c, cs)
  | c :: cs => some (c, cs)

theorem unescape?_escape (c : Char) (t : List Char) :
    unescape? (escape c ++ t) = some (c, t) := by
  unfold escape
  split
  case h_8 hq hb _ _ _ _ _ =>
    split
    · rename_i hc
      have hh : 16 * hexValue (hexDigit (c.toNat / 16)) + hexValue (hexDigit (c.toNat % 16)) =
          c.toNat := by
        rw [hexValue_hexDigit _ (by omega), hexValue_hexDigit _ (by omega)]
        omega
      simp only [List.cons_append, List.nil_append, unescape?, hh, Char.ofNat_toNat]
    · simp only [List.cons_append, List.nil_append]
      unfold unescape?
      split <;> simp_all
  all_goals rfl

theorem flatMap_escape_append_inj {cs ds : List Char}
    (h : cs.flatMap escape ++ '"' :: t = ds.flatMap escape ++ '"' :: u) : cs = ds ∧ t = u := by
  induction cs generalizing ds with
  | nil =>
    cases ds with
    | nil => exact ⟨rfl, List.tail_eq_of_cons_eq h⟩
    | cons d ds =>
      have hd := congrArg unescape? h
      rw [List.flatMap_cons, List.append_assoc, unescape?_escape] at hd
      cases hd
  | cons c cs ih =>
    have hc := congrArg unescape? h
    rw [List.flatMap_cons, List.append_assoc, unescape?_escape] at hc
    cases ds with
    | nil => cases hc
    | cons d ds =>
      rw [List.flatMap_cons, List.append_assoc, unescape?_escape] at hc
      obtain ⟨rfl, hr⟩ := Prod.mk.inj (Option.some.inj hc)
      obtain ⟨rfl, rfl⟩ := ih hr
      exact ⟨rfl, rfl⟩

theorem quote_append_inj (h : quote s ++ t = quote r ++ u) : s = r ∧ t = u := by
  have h' : s.toList.flatMap escape ++ '"' :: t = r.toList.flatMap escape ++ '"' :: u := by
    simpa [quote] using h
  obtain ⟨hs, rfl⟩ := flatMap_escape_append_inj h'
  exact ⟨String.toList_inj.mp hs, rfl⟩

end Strings

section Numbers

variable {m n : Int} {t u : List Char}

/-- The text does not start with something that could belong to a number before it. -/
def Ends (t : List Char) : Prop := ∀ c ∈ t.head?, Numeral.isNumeral c = false

theorem takeWhile_decimal_append (n : Int) (h : Ends t) :
    ((Numeral.decimal n).toList ++ t).takeWhile Numeral.isNumeral = (Numeral.decimal n).toList := by
  rw [List.takeWhile_append_of_pos fun c hc => Numeral.isNumeral_of_mem_decimal hc]
  cases t with
  | nil => simp
  | cons c t => simp [h c rfl]

theorem decimal_append_inj (ht : Ends t) (hu : Ends u)
    (h : (Numeral.decimal m).toList ++ t = (Numeral.decimal n).toList ++ u) : m = n ∧ t = u := by
  have hw := congrArg (List.takeWhile Numeral.isNumeral) h
  rw [takeWhile_decimal_append m ht, takeWhile_decimal_append n hu] at hw
  obtain rfl := Numeral.decimal_injective (String.toList_inj.mp hw)
  exact ⟨rfl, List.append_cancel_left h⟩

end Numbers

section Leads

/-- The forms of values that can be told by the first character. -/
inductive Lead where
  | null
  | bool
  | number
  | string
  | array
  | object

def Lead.ofChar : Char → Lead
  | 'n' => .null
  | 't' | 'f' => .bool
  | '"' => .string
  | '[' => .array
  | '\x7b' => .object
  | _ => .number

def lead : Json → Lead
  | .null => .null
  | .bool _ => .bool
  | .integer _ | .real _ => .number
  | .string _ => .string
  | .array _ => .array
  | .object _ => .object

theorem Lead.ofChar_of_isNumeral {c : Char} (h : Numeral.isNumeral c = true) :
    Lead.ofChar c = .number := by
  unfold Lead.ofChar
  split
  case h_7 => rfl
  all_goals cases h

theorem exists_prettyChars_eq_cons {j : Json} (h : Discrete j) (level : Nat) :
    ∃ c cs, prettyChars level j = c :: cs ∧ Lead.ofChar c = j.lead := by
  cases h with
  | null => exact ⟨_, _, rfl, rfl⟩
  | bool b => cases b <;> exact ⟨_, _, rfl, rfl⟩
  | integer n =>
    cases hd : (Numeral.decimal n).toList with
    | nil => exact absurd hd (Numeral.decimal_ne_nil n)
    | cons c cs =>
      refine ⟨c, cs, hd, Lead.ofChar_of_isNumeral ?_⟩
      exact Numeral.isNumeral_of_mem_decimal (hd ▸ List.mem_cons_self)
  | string s => exact ⟨_, _, rfl, rfl⟩
  | @array xs _ => cases xs <;> exact ⟨_, _, rfl, rfl⟩
  | @object fs _ => rcases fs with _ | ⟨⟨k, x⟩, fs⟩ <;> exact ⟨_, _, rfl, rfl⟩

theorem lead_eq_of_append_eq {j k : Json} (hj : Discrete j) (hk : Discrete k) {level : Nat}
    {t u : List Char} (h : prettyChars level j ++ t = prettyChars level k ++ u) :
    j.lead = k.lead := by
  obtain ⟨c, cs, hc, hcj⟩ := exists_prettyChars_eq_cons hj level
  obtain ⟨d, ds, hd, hdk⟩ := exists_prettyChars_eq_cons hk level
  rw [hc, hd] at h
  rw [← hcj, ← hdk, List.head_eq_of_cons_eq h]

end Leads

section Values

variable {level : Nat} {t u : List Char}

/-- Another value and other text after it never print to the same text as this value. -/
def Readable (j : Json) : Prop :=
  ∀ {level : Nat} {k : Json} {t u : List Char}, Discrete k → Ends t → Ends u →
    prettyChars level j ++ t = prettyChars level k ++ u → j = k ∧ t = u

theorem ends_prettyElements (xs : List Json) : Ends (prettyElements level xs ++ '\n' :: t) := by
  cases xs <;> rintro c ⟨⟩ <;> rfl

theorem ends_prettyFields (fs : List (String × Json)) :
    Ends (prettyFields level fs ++ '\n' :: t) := by
  rcases fs with _ | ⟨⟨k, x⟩, fs⟩ <;> rintro c ⟨⟩ <;> rfl

theorem prettyElements_append_inj {xs ys : List Json} (hx : ∀ x ∈ xs, Readable x)
    (hy : ∀ y ∈ ys, Discrete y)
    (h : prettyElements level xs ++ '\n' :: t = prettyElements level ys ++ '\n' :: u) :
    xs = ys ∧ t = u := by
  induction xs generalizing ys with
  | nil =>
    cases ys with
    | nil => exact ⟨rfl, List.tail_eq_of_cons_eq h⟩
    | cons y ys => cases List.head_eq_of_cons_eq h
  | cons x xs ih =>
    cases ys with
    | nil => cases List.head_eq_of_cons_eq h
    | cons y ys =>
      rw [List.forall_mem_cons] at hx hy
      have h' : prettyChars level x ++ (prettyElements level xs ++ '\n' :: t) =
          prettyChars level y ++ (prettyElements level ys ++ '\n' :: u) := by
        simpa [prettyElements] using h
      obtain ⟨rfl, hr⟩ := hx.1 hy.1 (ends_prettyElements xs) (ends_prettyElements ys) h'
      obtain ⟨rfl, rfl⟩ := ih hx.2 hy.2 hr
      exact ⟨rfl, rfl⟩

theorem prettyFields_append_inj {fs gs : List (String × Json)} (hf : ∀ f ∈ fs, Readable f.2)
    (hg : ∀ g ∈ gs, Discrete g.2)
    (h : prettyFields level fs ++ '\n' :: t = prettyFields level gs ++ '\n' :: u) :
    fs = gs ∧ t = u := by
  induction fs generalizing gs with
  | nil =>
    rcases gs with _ | ⟨⟨l, y⟩, gs⟩
    · exact ⟨rfl, List.tail_eq_of_cons_eq h⟩
    · cases List.head_eq_of_cons_eq h
  | cons f fs ih =>
    obtain ⟨k, x⟩ := f
    rcases gs with _ | ⟨⟨l, y⟩, gs⟩
    · cases List.head_eq_of_cons_eq h
    · rw [List.forall_mem_cons] at hf hg
      have h' : quote k ++ ':' :: ' ' ::
            (prettyChars level x ++ (prettyFields level fs ++ '\n' :: t)) =
          quote l ++ ':' :: ' ' ::
            (prettyChars level y ++ (prettyFields level gs ++ '\n' :: u)) := by
        simpa [prettyFields] using h
      obtain ⟨rfl, hv⟩ := quote_append_inj h'
      have hv' := List.tail_eq_of_cons_eq (List.tail_eq_of_cons_eq hv)
      obtain ⟨rfl, hr⟩ := hf.1 hg.1 (ends_prettyFields fs) (ends_prettyFields gs) hv'
      obtain ⟨rfl, rfl⟩ := ih hf.2 hg.2 hr
      exact ⟨rfl, rfl⟩

theorem array_readable {xs : List Json} (hx : ∀ x ∈ xs, Readable x) (hd : ∀ x ∈ xs, Discrete x) :
    Readable (.array xs) := by
  intro level k t u hk _ _ h
  have hl := lead_eq_of_append_eq (.array hd) hk h
  cases hk <;> cases hl
  rename_i ys hy
  rcases xs with _ | ⟨x, xs⟩ <;> rcases ys with _ | ⟨y, ys⟩
  · exact ⟨rfl, List.append_cancel_left h⟩
  · cases List.head_eq_of_cons_eq (List.tail_eq_of_cons_eq h)
  · cases List.head_eq_of_cons_eq (List.tail_eq_of_cons_eq h)
  · have h' : prettyElements (level + 1) (x :: xs) ++
          '\n' :: (List.replicate (2 * level) ' ' ++ ']' :: t) =
        prettyElements (level + 1) (y :: ys) ++
          '\n' :: (List.replicate (2 * level) ' ' ++ ']' :: u) := by
      simpa [prettyChars, prettyElements, newline] using h
    obtain ⟨he, hr⟩ := prettyElements_append_inj hx hy h'
    exact ⟨congrArg Json.array he, List.tail_eq_of_cons_eq (List.append_cancel_left hr)⟩

theorem object_readable {fs : List (String × Json)} (hf : ∀ f ∈ fs, Readable f.2)
    (hd : ∀ f ∈ fs, Discrete f.2) : Readable (.object fs) := by
  intro level k t u hk _ _ h
  have hl := lead_eq_of_append_eq (.object hd) hk h
  cases hk <;> cases hl
  rename_i gs hg
  rcases fs with _ | ⟨⟨k, x⟩, fs⟩ <;> rcases gs with _ | ⟨⟨l, y⟩, gs⟩
  · exact ⟨rfl, List.append_cancel_left h⟩
  · cases List.head_eq_of_cons_eq (List.tail_eq_of_cons_eq h)
  · cases List.head_eq_of_cons_eq (List.tail_eq_of_cons_eq h)
  · have h' : prettyFields (level + 1) ((k, x) :: fs) ++
          '\n' :: (List.replicate (2 * level) ' ' ++ '\x7d' :: t) =
        prettyFields (level + 1) ((l, y) :: gs) ++
          '\n' :: (List.replicate (2 * level) ' ' ++ '\x7d' :: u) := by
      simpa [prettyChars, prettyFields, newline] using h
    obtain ⟨he, hr⟩ := prettyFields_append_inj hf hg h'
    exact ⟨congrArg Json.object he, List.tail_eq_of_cons_eq (List.append_cancel_left hr)⟩

theorem Discrete.readable {j : Json} (h : Discrete j) : Readable j := by
  induction h with
  | null =>
    intro level k t u hk _ _ h
    have hl := lead_eq_of_append_eq .null hk h
    cases hk <;> cases hl
    exact ⟨rfl, List.append_cancel_left h⟩
  | bool b =>
    intro level k t u hk _ _ h
    have hl := lead_eq_of_append_eq (.bool b) hk h
    cases hk <;> cases hl
    rename_i c
    cases b <;> cases c
    · exact ⟨rfl, List.append_cancel_left h⟩
    · cases List.head_eq_of_cons_eq h
    · cases List.head_eq_of_cons_eq h
    · exact ⟨rfl, List.append_cancel_left h⟩
  | integer m =>
    intro level k t u hk ht hu h
    have hl := lead_eq_of_append_eq (.integer m) hk h
    cases hk <;> cases hl
    obtain ⟨rfl, rfl⟩ := decimal_append_inj ht hu h
    exact ⟨rfl, rfl⟩
  | string s =>
    intro level k t u hk _ _ h
    have hl := lead_eq_of_append_eq (.string s) hk h
    cases hk <;> cases hl
    obtain ⟨rfl, rfl⟩ := quote_append_inj h
    exact ⟨rfl, rfl⟩
  | array hd ih => exact array_readable ih hd
  | object hd ih => exact object_readable ih hd

/-- Values without doubles are told apart by their pretty text. -/
theorem Discrete.eq_of_pretty_eq {j k : Json} (hj : Discrete j) (hk : Discrete k)
    (h : j.pretty = k.pretty) : j = k := by
  have hc : prettyChars 0 j ++ [] = prettyChars 0 k ++ [] := by
    simpa [pretty] using congrArg String.toList h
  exact (hj.readable hk (by rintro c ⟨⟩) (by rintro c ⟨⟩) hc).1

end Values

end RoutineCorpus.Json
