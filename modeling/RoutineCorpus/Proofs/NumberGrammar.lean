import Mathlib.Data.List.Induction
import Mathlib.Data.List.TakeDrop
import RoutineCorpus.Numeral.Real
import RoutineCorpus.Proofs.Decimal

/-! # The texts of numbers

An integer is written as digits after an optional sign. A double is written as a
word or as digits after an optional sign, where a point can stand among the
digits and an exponent after them. Reading accepts these texts and no others,
and gives the number that is written.
-/

namespace RoutineCorpus.Numeral

/-- One digit or more, and the number that they write. -/
inductive Digits : List Char → Nat → Prop
  | single {d : Nat} (hd : d < 10) : Digits [d.digitChar] d
  | concat {ds : List Char} {n d : Nat} (h : Digits ds n) (hd : d < 10) :
      Digits (ds ++ [d.digitChar]) (10 * n + d)

inductive Sign : List Char → Bool → Prop
  | absent : Sign [] false
  | plus : Sign ['+'] false
  | minus : Sign ['-'] true

inductive IntegerText : List Char → Int → Prop
  | mk {sign ds : List Char} {negative : Bool} {n : Nat} (hs : Sign sign negative)
      (hd : Digits ds n) : IntegerText (sign ++ ds) (if negative then -n else n)

inductive Exponent : List Char → Int → Prop
  | absent : Exponent [] 0
  | present {m : Char} {cs : List Char} {z : Int} (hm : m = 'e' ∨ m = 'E')
      (h : IntegerText cs z) : Exponent (m :: cs) z

/-- Digits with an optional point, the number that they write without it, and how many of them
stand after it. -/
inductive Mantissa : List Char → Nat → Nat → Prop
  | whole {ds : List Char} {n : Nat} (h : Digits ds n) : Mantissa ds n 0
  | pointed {ds es : List Char} {n : Nat} (h : Digits (ds ++ es) n) :
      Mantissa (ds ++ '.' :: es) n es.length

/-- The text of a double without its sign. Words are in any case. -/
inductive LiteralText : List Char → Literal → Prop
  | infinite {cs : List Char}
      (h : cs.map Char.toLower = "inf".toList ∨ cs.map Char.toLower = "infinity".toList) :
      LiteralText cs .infinite
  | nan {cs : List Char} (h : cs.map Char.toLower = "nan".toList) : LiteralText cs .nan
  | number {cs es : List Char} {n k : Nat} {e : Int} (hm : Mantissa cs n k) (he : Exponent es e) :
      LiteralText (cs ++ es) (.number n (e - k))

inductive RealText : List Char → Float → Prop
  | mk {sign cs : List Char} {negative : Bool} {l : Literal} (hs : Sign sign negative)
      (hl : LiteralText cs l) :
      RealText (sign ++ cs) (if negative then -l.toFloat else l.toFloat)

/-! ## Digits -/

section Digits

variable {c : Char} {ds : List Char} {n : Nat}

theorem isDigit_iff : c.isDigit = true ↔ ∃ d < 10, c = Nat.digitChar d := by
  constructor
  · intro h
    have hc : 48 ≤ c.toNat ∧ c.toNat ≤ 57 := Char.isDigit_iff_toNat.mp h
    have hd : c.toNat - 48 < 10 := by omega
    refine ⟨c.toNat - 48, hd, Char.toNat_inj.mp ?_⟩
    rw [Nat.toNat_digitChar_of_lt_ten hd]
    omega
  · rintro ⟨d, hd, rfl⟩
    rw [Nat.isDigit_digitChar, decide_eq_true hd]

theorem digitValue_digitChar {d : Nat} (hd : d < 10) : digitValue d.digitChar = d :=
  Nat.toNat_digitChar_sub_48_of_lt_ten hd

theorem ofDigits_concat (ds : List Char) (c : Char) :
    ofDigits (ds ++ [c]) = 10 * ofDigits ds + digitValue c := by
  simp [ofDigits]

theorem digits_of_forall_isDigit (hne : ds ≠ []) (h : ∀ c ∈ ds, c.isDigit = true) :
    Digits ds (ofDigits ds) := by
  -- The last digit counts once and the others ten times, so the induction goes from the end.
  induction ds using List.reverseRecOn with
  | nil => exact absurd rfl hne
  | append_singleton ds c ih =>
    rw [List.forall_mem_append, List.forall_mem_singleton] at h
    obtain ⟨d, hd, rfl⟩ := isDigit_iff.mp h.2
    rw [ofDigits_concat, digitValue_digitChar hd]
    by_cases hds : ds = []
    · subst hds
      simpa [ofDigits] using Digits.single hd
    · exact .concat (ih hds h.1) hd

theorem digits_iff : Digits ds n ↔
    ds ≠ [] ∧ (∀ c ∈ ds, c.isDigit = true) ∧ n = ofDigits ds := by
  constructor
  · intro h
    induction h with
    | single hd => simp [ofDigits, isDigit_iff.mpr ⟨_, hd, rfl⟩, digitValue_digitChar hd]
    | concat h hd ih =>
      obtain ⟨-, hds, hn⟩ := ih
      refine ⟨by simp, ?_, ?_⟩
      · rw [List.forall_mem_append, List.forall_mem_singleton]
        exact ⟨hds, isDigit_iff.mpr ⟨_, hd, rfl⟩⟩
      · rw [ofDigits_concat, digitValue_digitChar hd, hn]
  · rintro ⟨hne, hds, rfl⟩
    exact digits_of_forall_isDigit hne hds

theorem Digits.ne_nil (h : Digits ds n) : ds ≠ [] := (digits_iff.mp h).1

theorem Digits.isDigit (h : Digits ds n) (hc : c ∈ ds) : c.isDigit = true :=
  (digits_iff.mp h).2.1 c hc

theorem Digits.exists_eq_cons (h : Digits ds n) : ∃ c cs, ds = c :: cs ∧ c.isDigit = true := by
  cases ds with
  | nil => exact absurd rfl h.ne_nil
  | cons c cs => exact ⟨c, cs, rfl, h.isDigit List.mem_cons_self⟩

end Digits

/-! ## Integers -/

section Integers

variable {lo hi z : Int} {cs ds : List Char}

theorem readUp_zero_eq_ok_iff (hhi : 0 ≤ hi) (hne : ds ≠ []) : readUp hi 0 ds = .ok z ↔
    ∃ n : Nat, Digits ds n ∧ z = n ∧ z ≤ hi := by
  refine (readUp_eq_ok_iff (v := 0) hhi).trans ⟨?_, ?_⟩
  · rintro ⟨hd, hz, hu⟩
    exact ⟨ofDigits ds, digits_of_forall_isDigit hne hd, hz, hu⟩
  · rintro ⟨n, hd, hz, hu⟩
    obtain ⟨-, hds, rfl⟩ := digits_iff.mp hd
    exact ⟨hds, hz, hu⟩

theorem readDown_zero_eq_ok_iff (hlo : lo ≤ 0) (hne : ds ≠ []) : readDown lo 0 ds = .ok z ↔
    ∃ n : Nat, Digits ds n ∧ z = -n ∧ lo ≤ z := by
  refine (readDown_eq_ok_iff (v := 0) hlo).trans ⟨?_, ?_⟩
  · rintro ⟨hd, hz, hl⟩
    exact ⟨ofDigits ds, digits_of_forall_isDigit hne hd, hz, hl⟩
  · rintro ⟨n, hd, hz, hl⟩
    obtain ⟨-, hds, rfl⟩ := digits_iff.mp hd
    exact ⟨hds, hz, hl⟩

theorem readInteger_plus (h : ds ≠ []) : readInteger lo hi ('+' :: ds) = readUp hi 0 ds := by
  cases ds with
  | nil => exact absurd rfl h
  | cons c ds => rfl

theorem integerText_of_readInteger (hlo : lo ≤ 0) (hhi : 0 ≤ hi)
    (h : readInteger lo hi cs = .ok z) : IntegerText cs z ∧ lo ≤ z ∧ z ≤ hi := by
  unfold readInteger at h
  split at h
  · cases h
  · cases h
  · cases h
  · rename_i ds hne
    obtain ⟨n, hd, rfl, hz⟩ := (readUp_zero_eq_ok_iff hhi hne).mp h
    exact ⟨.mk .plus hd, by omega, hz⟩
  · rename_i ds hne
    obtain ⟨n, hd, rfl, hz⟩ := (readDown_zero_eq_ok_iff hlo hne).mp h
    exact ⟨.mk .minus hd, hz, by omega⟩
  · rename_i hne _ _ _ _
    obtain ⟨n, hd, rfl, hz⟩ := (readUp_zero_eq_ok_iff hhi hne).mp h
    exact ⟨.mk .absent hd, by omega, hz⟩

/-- Reading accepts the texts of the integers in the range. -/
theorem readInteger_eq_ok_iff (hlo : lo ≤ 0) (hhi : 0 ≤ hi) :
    readInteger lo hi cs = .ok z ↔ IntegerText cs z ∧ lo ≤ z ∧ z ≤ hi := by
  refine ⟨integerText_of_readInteger hlo hhi, ?_⟩
  rintro ⟨⟨hs, hd⟩, hl, hu⟩
  cases hs with
  | absent =>
    obtain ⟨c, cs, rfl, hc⟩ := hd.exists_eq_cons
    rw [List.nil_append, readInteger_cons_of_isDigit hc]
    exact (readUp_zero_eq_ok_iff hhi hd.ne_nil).mpr ⟨_, hd, rfl, hu⟩
  | plus =>
    rw [List.singleton_append, readInteger_plus hd.ne_nil]
    exact (readUp_zero_eq_ok_iff hhi hd.ne_nil).mpr ⟨_, hd, rfl, hu⟩
  | minus =>
    rw [List.singleton_append, readInteger_hyphen hd.ne_nil]
    exact (readDown_zero_eq_ok_iff hlo hd.ne_nil).mpr ⟨_, hd, rfl, hl⟩

theorem readInt64_eq_ok_iff {s : String} {n : Int64} :
    readInt64 s = .ok n ↔ IntegerText s.toList n.toInt := by
  have hlo : Int64.minValue.toInt ≤ 0 := by decide
  have hhi : 0 ≤ Int64.maxValue.toInt := by decide
  rw [readInt64]
  constructor
  · intro h
    cases hz : readInteger Int64.minValue.toInt Int64.maxValue.toInt s.toList with
    | error e =>
      rw [hz] at h
      cases h
    | ok z =>
      rw [hz] at h
      obtain rfl : Int64.ofInt z = n := Except.ok.inj h
      obtain ⟨ht, hl, hu⟩ := (readInteger_eq_ok_iff hlo hhi).mp hz
      rwa [Int64.toInt_ofInt_of_le hl (Int.lt_of_le_of_lt hu (by decide))]
  · intro h
    have hz := (readInteger_eq_ok_iff hlo hhi).mpr
      ⟨h, Int64.minValue_le_toInt n, Int64.toInt_le n⟩
    rw [hz]
    exact congrArg Except.ok (Int64.ofInt_toInt n)

end Integers

/-! ## Signs -/

section Signs

variable {sign cs : List Char} {negative : Bool}

def takeSign : List Char → Bool × List Char
  | '+' :: cs => (false, cs)
  | '-' :: cs => (true, cs)
  | cs => (false, cs)

theorem exists_sign_takeSign (cs : List Char) :
    ∃ sign, Sign sign (takeSign cs).1 ∧ cs = sign ++ (takeSign cs).2 := by
  unfold takeSign
  split
  · exact ⟨_, .plus, rfl⟩
  · exact ⟨_, .minus, rfl⟩
  · exact ⟨_, .absent, rfl⟩

theorem takeSign_cons_of_ne {c : Char} (hp : c ≠ '+') (hm : c ≠ '-') (cs : List Char) :
    takeSign (c :: cs) = (false, c :: cs) := by
  unfold takeSign
  split <;> simp_all

theorem Sign.takeSign_append {c : Char} (hs : Sign sign negative) (hp : c ≠ '+') (hm : c ≠ '-')
    (cs : List Char) : takeSign (sign ++ c :: cs) = (negative, c :: cs) := by
  cases hs with
  | absent => exact takeSign_cons_of_ne hp hm cs
  | plus | minus => rfl

theorem integerText_iff {z : Int} : IntegerText cs z ↔
    ∃ n : Nat, Digits (takeSign cs).2 n ∧ z = if (takeSign cs).1 then -(n : Int) else n := by
  constructor
  · rintro ⟨hs, hd⟩
    obtain ⟨c, cs, rfl, hc⟩ := hd.exists_eq_cons
    rw [hs.takeSign_append (ne_of_isDigit hc rfl) (ne_of_isDigit hc rfl)]
    exact ⟨_, hd, rfl⟩
  · rintro ⟨n, hd, rfl⟩
    obtain ⟨sign, hs, he⟩ := exists_sign_takeSign cs
    have ht := IntegerText.mk hs hd
    rwa [← he] at ht

end Signs

/-! ## Doubles -/

section Doubles

variable {cs es : List Char} {n k : Nat} {e : Int} {l : Literal} {x : Float}

theorem Literal.exponent?_cons (m : Char) (cs : List Char) : exponent? (m :: cs) =
    if m = 'e' || m = 'E' then
      if (takeSign cs).2 ≠ [] && (takeSign cs).2.all Char.isDigit then
        some (if (takeSign cs).1 then -(ofDigits (takeSign cs).2 : Int)
          else ofDigits (takeSign cs).2)
      else none
    else none := rfl

theorem Literal.exponent?_eq_some_iff : exponent? cs = some e ↔ Exponent cs e := by
  cases cs with
  | nil =>
    constructor
    · rintro ⟨⟩
      exact .absent
    · rintro ⟨⟩
      rfl
  | cons m cs =>
    have he : Exponent (m :: cs) e ↔ (m = 'e' ∨ m = 'E') ∧ IntegerText cs e :=
      ⟨fun h => by cases h; exact ⟨‹_›, ‹_›⟩, fun h => .present h.1 h.2⟩
    rw [exponent?_cons, he, integerText_iff]
    simp [digits_iff, eq_comm (a := e)]

theorem span_isDigit_append {ds : List Char} (hd : ∀ c ∈ ds, c.isDigit = true)
    (he : ∀ c ∈ es.head?, c.isDigit = false) : (ds ++ es).span Char.isDigit = (ds, es) := by
  rw [List.span_eq_takeWhile_dropWhile, List.takeWhile_append_of_pos hd,
    List.dropWhile_append_of_pos hd]
  cases es with
  | nil => simp
  | cons c es => simp [he c rfl]

theorem exists_span_isDigit (cs : List Char) : ∃ ds es,
    cs.span Char.isDigit = (ds, es) ∧ cs = ds ++ es ∧ ∀ c ∈ ds, c.isDigit = true := by
  refine ⟨_, _, List.span_eq_takeWhile_dropWhile _ cs, ?_, ?_⟩
  · rw [List.takeWhile_append_dropWhile]
  · exact List.all_eq_true.mp List.all_takeWhile

theorem Exponent.head_ne (h : Exponent es e) {c : Char} (hc : c ∈ es.head?) :
    c.isDigit = false ∧ c ≠ '.' := by
  cases h with
  | absent => cases hc
  | present hm h =>
    obtain rfl := Option.some.inj hc
    rcases hm with rfl | rfl <;> decide

/-- Take off a point with the digits after it, if there is one. -/
def takeFraction : List Char → List Char × List Char
  | '.' :: cs => cs.span Char.isDigit
  | cs => ([], cs)

theorem takeFraction_of_head_ne (h : ∀ c ∈ cs.head?, c ≠ '.') : takeFraction cs = ([], cs) := by
  unfold takeFraction
  split
  · exact absurd rfl (h '.' rfl)
  · rfl

theorem Literal.number?_eq_bind {whole rest fraction : List Char}
    (hw : cs.span Char.isDigit = (whole, rest)) (hf : takeFraction rest = (fraction, es)) :
    number? cs = (exponent? es).bind fun e =>
      if whole ++ fraction = [] then none
      else some (.number (ofDigits (whole ++ fraction)) (e - fraction.length)) := by
  have h : number? cs =
      (exponent? (takeFraction (cs.span Char.isDigit).2).2).bind fun e =>
        if (cs.span Char.isDigit).1 ++ (takeFraction (cs.span Char.isDigit).2).1 = [] then none
        else some (.number
          (ofDigits ((cs.span Char.isDigit).1 ++ (takeFraction (cs.span Char.isDigit).2).1))
          (e - (takeFraction (cs.span Char.isDigit).2).1.length)) := rfl
  rw [h, hw, hf]

/-- Digits before and after a point, and then an exponent, are a number. -/
theorem Literal.number?_append (hm : Mantissa cs n k) (he : Exponent es e) :
    number? (cs ++ es) = some (.number n (e - k)) := by
  have hx := exponent?_eq_some_iff.mpr he
  have hes : ∀ c ∈ es.head?, c.isDigit = false := fun c hc => (he.head_ne hc).1
  cases hm with
  | whole hd =>
    obtain ⟨hne, hds, rfl⟩ := digits_iff.mp hd
    rw [number?_eq_bind (span_isDigit_append hds hes)
      (takeFraction_of_head_ne fun c hc => (he.head_ne hc).2), hx, Option.bind_some,
      List.append_nil, if_neg hne]
    rfl
  | @pointed ws fs _ hd =>
    obtain ⟨hne, hds, rfl⟩ := digits_iff.mp hd
    rw [List.forall_mem_append] at hds
    have hpoint : ∀ c ∈ ('.' :: (fs ++ es)).head?, c.isDigit = false := by
      rintro c ⟨⟩
      rfl
    rw [List.append_assoc, List.cons_append, number?_eq_bind (span_isDigit_append hds.1 hpoint)
      (span_isDigit_append hds.2 hes), hx, Option.bind_some, if_neg hne]

theorem exists_takeFraction (cs : List Char) : ∃ fs es, takeFraction cs = (fs, es) ∧
    (∀ c ∈ fs, c.isDigit = true) ∧ (cs = '.' :: (fs ++ es) ∨ fs = [] ∧ cs = es) := by
  unfold takeFraction
  split
  · rename_i cs
    obtain ⟨fs, es, hsp, rfl, hfs⟩ := exists_span_isDigit cs
    exact ⟨fs, es, hsp, hfs, .inl rfl⟩
  · exact ⟨[], _, rfl, by simp, .inr ⟨rfl, rfl⟩⟩

theorem Literal.exists_of_number? (h : number? cs = some l) : ∃ ms es n k e,
    cs = ms ++ es ∧ Mantissa ms n k ∧ Exponent es e ∧ l = .number n (e - k) := by
  obtain ⟨ws, rest, hw, rfl, hws⟩ := exists_span_isDigit cs
  obtain ⟨fs, es, hf, hfs, hrest⟩ := exists_takeFraction rest
  rw [number?_eq_bind hw hf, Option.bind_eq_some_iff] at h
  obtain ⟨e, he, h⟩ := h
  rw [exponent?_eq_some_iff] at he
  split at h
  · cases h
  · rename_i hne
    obtain rfl := Option.some.inj h
    have hd : Digits (ws ++ fs) (ofDigits (ws ++ fs)) :=
      digits_of_forall_isDigit hne (List.forall_mem_append.mpr ⟨hws, hfs⟩)
    rcases hrest with rfl | ⟨rfl, rfl⟩
    · exact ⟨ws ++ '.' :: fs, es, _, _, e, by simp, .pointed hd, he, rfl⟩
    · rw [List.append_nil] at hd ⊢
      exact ⟨ws, rest, _, _, e, rfl, .whole hd, he, rfl⟩

theorem Mantissa.exists_eq_cons (h : Mantissa cs n k) :
    ∃ c ds, cs = c :: ds ∧ (c.isDigit = true ∨ c = '.') := by
  cases h with
  | whole hd =>
    obtain ⟨c, ds, rfl, hc⟩ := hd.exists_eq_cons
    exact ⟨c, ds, rfl, .inl hc⟩
  | @pointed ws fs _ hd =>
    cases ws with
    | nil => exact ⟨'.', fs, rfl, .inr rfl⟩
    | cons c ws => exact ⟨c, _, rfl, .inl (hd.isDigit List.mem_cons_self)⟩

theorem Mantissa.map_toLower_ne (h : Mantissa cs n k) (es : List Char) {w : Char}
    (hd : w.isDigit = false) (hp : w ≠ '.') (ws : List Char) :
    (cs ++ es).map Char.toLower ≠ w :: ws := by
  obtain ⟨c, ds, rfl, hc⟩ := h.exists_eq_cons
  have hl : c.toLower = c := by
    rcases hc with hc | rfl
    · obtain ⟨d, hd, rfl⟩ := isDigit_iff.mp hc
      have hall : ∀ d < 10, d.digitChar.toLower = d.digitChar := by decide
      exact hall d hd
    · rfl
  intro he
  have hw : c.toLower = w := List.head_eq_of_cons_eq he
  rw [hl] at hw
  subst hw
  rcases hc with hc | hc
  · rw [hd] at hc
    cases hc
  · exact hp hc

theorem Literal.ofUnsigned?_eq (cs : List Char) : ofUnsigned? cs =
    if cs.map Char.toLower = "inf".toList ∨ cs.map Char.toLower = "infinity".toList then
      some .infinite
    else if cs.map Char.toLower = "nan".toList then some .nan
    else number? cs := by
  simp only [ofUnsigned?, Bool.or_eq_true, decide_eq_true_eq]

theorem Literal.ofUnsigned?_eq_some_iff : ofUnsigned? cs = some l ↔ LiteralText cs l := by
  rw [ofUnsigned?_eq]
  constructor
  · intro h
    split at h
    · rename_i hw
      cases h
      exact .infinite hw
    · split at h
      · rename_i hw
        cases h
        exact .nan hw
      · obtain ⟨ms, es, n, k, e, rfl, hm, he, rfl⟩ := exists_of_number? h
        exact .number hm he
  · intro h
    cases h with
    | infinite h => rw [if_pos h]
    | nan h =>
      rw [h, if_neg (by decide), if_pos rfl]
    | @number ms es _ _ _ hm he =>
      have hi : (ms ++ es).map Char.toLower ≠ "inf".toList :=
        hm.map_toLower_ne es rfl (by decide) ['n', 'f']
      have hy : (ms ++ es).map Char.toLower ≠ "infinity".toList :=
        hm.map_toLower_ne es rfl (by decide) ['n', 'f', 'i', 'n', 'i', 't', 'y']
      have hn : (ms ++ es).map Char.toLower ≠ "nan".toList :=
        hm.map_toLower_ne es rfl (by decide) ['a', 'n']
      rw [if_neg (not_or.mpr ⟨hi, hy⟩), if_neg hn]
      exact number?_append hm he

theorem exists_eq_cons_of_map_toLower {w : Char} (ws : List Char)
    (h : cs.map Char.toLower = w :: ws) (hp : w ≠ '+') (hm : w ≠ '-') :
    ∃ c ds, cs = c :: ds ∧ c ≠ '+' ∧ c ≠ '-' := by
  obtain ⟨c, ds, rfl, rfl, -⟩ := List.map_eq_cons_iff.mp h
  refine ⟨c, ds, rfl, ?_, ?_⟩
  · rintro rfl
    exact hp rfl
  · rintro rfl
    exact hm rfl

/-- The text of a literal is not empty and has no sign of its own. -/
theorem LiteralText.exists_eq_cons (h : LiteralText cs l) :
    ∃ c ds, cs = c :: ds ∧ c ≠ '+' ∧ c ≠ '-' := by
  cases h with
  | infinite h =>
    rcases h with h | h
    · exact exists_eq_cons_of_map_toLower ['n', 'f'] h (by decide) (by decide)
    · exact exists_eq_cons_of_map_toLower ['n', 'f', 'i', 'n', 'i', 't', 'y'] h (by decide)
        (by decide)
  | nan h => exact exists_eq_cons_of_map_toLower ['a', 'n'] h (by decide) (by decide)
  | number hm he =>
    obtain ⟨c, ds, rfl, hc⟩ := hm.exists_eq_cons
    refine ⟨c, _, rfl, ?_⟩
    rcases hc with hc | rfl
    · exact ⟨ne_of_isDigit hc rfl, ne_of_isDigit hc rfl⟩
    · decide

theorem realText_iff : RealText cs x ↔ ∃ l, LiteralText (takeSign cs).2 l ∧
    x = if (takeSign cs).1 then -l.toFloat else l.toFloat := by
  constructor
  · rintro ⟨hs, hl⟩
    obtain ⟨c, cs, rfl, hp, hm⟩ := hl.exists_eq_cons
    rw [hs.takeSign_append hp hm]
    exact ⟨_, hl, rfl⟩
  · rintro ⟨l, hl, rfl⟩
    obtain ⟨sign, hs, he⟩ := exists_sign_takeSign cs
    have ht := RealText.mk hs hl
    rwa [← he] at ht

theorem readReal_of_ne_nil {s : String} (h : s.toList ≠ []) : readReal s =
    match Literal.ofUnsigned? (takeSign s.toList).2 with
    | none => .error .malformed
    | some l => .ok (if (takeSign s.toList).1 then -l.toFloat else l.toFloat) := by
  unfold readReal
  split
  · rename_i hs
    exact absurd hs h
  · rename_i cs hs
    rewrite [hs]
    rfl
  · rename_i cs hs
    rewrite [hs]
    rfl
  · rename_i hp hm
    have hs : takeSign s.toList = (false, s.toList) := by
      unfold takeSign
      split
      · exact absurd ‹_› (hp _)
      · exact absurd ‹_› (hm _)
      · rfl
    rewrite [hs]
    rfl

/-- Reading accepts the texts of doubles. -/
theorem readReal_eq_ok_iff {s : String} : readReal s = .ok x ↔ RealText s.toList x := by
  rw [realText_iff]
  simp only [← Literal.ofUnsigned?_eq_some_iff]
  by_cases h : s.toList = []
  · have hr : readReal s = .error .empty := by rw [readReal, h]
    have hl : Literal.ofUnsigned? (takeSign []).2 = none := by decide
    simp [hr, h, hl]
  · rw [readReal_of_ne_nil h]
    cases Literal.ofUnsigned? (takeSign s.toList).2 with
    | none => simp
    | some l =>
      constructor
      · intro h
        exact ⟨l, rfl, (Except.ok.inj h).symm⟩
      · rintro ⟨_, ⟨⟩, rfl⟩
        rfl

end Doubles

end RoutineCorpus.Numeral
