import Mathlib.Data.Finset.Lattice.Fold
import Mathlib.Data.Nat.Factorial.Basic
import Mathlib.Data.Set.Insert
import Mathlib.Order.Interval.Finset.Nat
import Mathlib.Order.Lattice.Nat
import RoutineCorpus.Routine.Scalar

/-! # Exact factorials and what the table keeps

Both routines give the exact factorial up to `33` and nothing beyond. The table
is seen as a set of numbers, those whose factorials it keeps. Asking for a
number that is not positive adds it; asking for a positive one, if its factorial
fits, adds everything from `1` up to it.
-/

namespace RoutineCorpus.Factorial

open Nat (factorial)

variable {n : Int64}

theorem toInt_largest : largest.toInt = 33 := by decide

theorem le_largest_iff : n ≤ largest ↔ n.toInt ≤ 33 := by
  rw [Int64.le_iff_toInt_le, toInt_largest]

theorem le_one_iff : n ≤ 1 ↔ n.toInt ≤ 1 := Int64.le_iff_toInt_le

theorem toInt_sub_one (h : ¬ n ≤ 1) : (n - 1).toInt = n.toInt - 1 :=
  (toInt_predecessors (two_le_toInt h)).1

theorem toNat_eq_succ (h : ¬ n ≤ 1) : n.toInt.toNat = (n - 1).toInt.toNat + 1 := by
  rw [toInt_sub_one h]
  rw [le_one_iff] at h
  omega

theorem sub_one_le_largest (h₁ : ¬ n ≤ 1) (h₂ : n ≤ largest) : n - 1 ≤ largest := by
  rw [le_largest_iff] at h₂ ⊢
  rw [toInt_sub_one h₁]
  omega

def value (n : Int64) : Int128 := .ofInt (factorial n.toInt.toNat)

theorem inRange_factorial {k : ℕ} (h : k ≤ 33) : Int128.InRange (factorial k) := by
  have hk : factorial k ≤ factorial 33 := Nat.factorial_le h
  have h33 : 2 * factorial 33 < Int128.size := by decide
  constructor <;> omega

theorem toInt_value (h : n ≤ largest) : (value n).toInt = factorial n.toInt.toNat := by
  rw [le_largest_iff] at h
  exact Int128.toInt_ofInt (inRange_factorial (by omega))

theorem value_of_le_one (h : n ≤ 1) : value n = 1 := by
  rw [le_one_iff] at h
  have hn : factorial n.toInt.toNat = 1 := Nat.factorial_eq_one.mpr (by omega)
  rw [value, hn]
  rfl

/-- One step of the recursion stays in range. -/
theorem mul?_value (h₁ : ¬ n ≤ 1) (h₂ : n ≤ largest) :
    (Int128.ofInt64 n).mul? (value (n - 1)) = some (value n) := by
  have hp := sub_one_le_largest h₁ h₂
  have hn : (n.toInt.toNat : ℤ) = n.toInt := by
    rw [le_one_iff] at h₁
    omega
  rw [Int128.mul?, Int128.ofInt?_eq_some_iff, toInt_value h₂, Int128.toInt_ofInt64, toInt_value hp,
    toNat_eq_succ h₁, Nat.factorial_succ, ← toNat_eq_succ h₁, Int.natCast_mul, hn]

def value? (n : Int64) : Option Int128 := if n ≤ largest then some (value n) else none

theorem value?_of_le (h : n ≤ largest) : value? n = some (value n) := if_pos h

theorem value?_of_lt (h : largest < n) : value? n = none := if_neg (Int64.not_le.mpr h)

theorem value?_eq_none_iff : value? n = none ↔ 33 < n.toInt := by
  rw [value?, ite_eq_right_iff, le_largest_iff]
  simp

theorem okOr_mul?_value (e : Error) (h₁ : ¬ n ≤ 1) (h₂ : n ≤ largest) :
    okOr e ((Int128.ofInt64 n).mul? (value (n - 1))) = .ok (value n) := by
  rw [mul?_value h₁ h₂]
  rfl

theorem calculate_eq (n : Int64) :
    calculate n = okOr (.overflow .calculateFactorial) (value? n) := by
  fun_induction calculate n with
  | case1 n h =>
    have hl : n ≤ largest := Int64.le_trans h (by decide)
    rw [value?_of_le hl, value_of_le_one h]
    rfl
  | case2 n h₁ h₂ =>
    rw [value?_of_lt h₂]
    rfl
  | case3 n h₁ h₂ ih =>
    have hl : n ≤ largest := Int64.not_lt.mp h₂
    rw [ih, value?_of_le (sub_one_le_largest h₁ hl), value?_of_le hl]
    exact okOr_mul?_value _ h₁ hl

/-- The numbers whose factorials are kept once those in `Q` have been asked for. -/
def kept (Q : Set Int64) : Set Int64 :=
  {k | k ≤ 0 ∧ k ∈ Q ∨ 0 < k ∧ ∃ n ∈ Q, k ≤ n ∧ n ≤ largest}

section Kept

variable {Q : Set Int64} {k : Int64}

theorem mem_kept : k ∈ kept Q ↔ k ≤ 0 ∧ k ∈ Q ∨ 0 < k ∧ ∃ n ∈ Q, k ≤ n ∧ n ≤ largest := Iff.rfl

theorem mem_kept_singleton :
    k ∈ kept {n} ↔ k ≤ 0 ∧ k = n ∨ 0 < k ∧ k ≤ n ∧ n ≤ largest := by
  simp [mem_kept]

@[simp] theorem kept_empty : kept ∅ = ∅ := by
  ext k
  simp [mem_kept]

theorem kept_union (P Q : Set Int64) : kept (P ∪ Q) = kept P ∪ kept Q := by
  ext k
  simp only [mem_kept, Set.mem_union, or_and_right, exists_or, and_or_left]
  exact or_or_or_comm

theorem le_largest_of_mem_kept (h : k ∈ kept Q) : k ≤ largest := by
  rcases h with ⟨h, -⟩ | ⟨-, n, -, hk, hn⟩
  · exact Int64.le_trans h (by decide)
  · exact Int64.le_trans hk hn

/-- Asking for what is kept already adds nothing. -/
theorem kept_union_singleton_of_mem (h : n ∈ kept Q) : kept (Q ∪ {n}) = kept Q := by
  rw [kept_union, Set.union_eq_left]
  intro k hk
  rcases mem_kept_singleton.mp hk with ⟨-, rfl⟩ | ⟨h0, hkn, -⟩
  · exact h
  · rcases h with ⟨hn, -⟩ | ⟨-, m, hm, hnm, hl⟩
    · exact absurd (Int64.le_trans hkn hn) (Int64.not_le.mpr h0)
    · exact Or.inr ⟨h0, m, hm, Int64.le_trans hkn hnm, hl⟩

/-- A factorial that does not fit is not kept. -/
theorem kept_singleton_of_largest_lt (h : largest < n) : kept {n} = ∅ := by
  rw [Set.eq_empty_iff_forall_notMem]
  intro k hk
  rcases mem_kept_singleton.mp hk with ⟨h0, rfl⟩ | ⟨-, -, hl⟩
  · exact absurd (Int64.le_trans h0 (by decide)) (Int64.not_le.mpr h)
  · exact absurd hl (Int64.not_le.mpr h)

theorem kept_singleton_of_le_one (h : n ≤ 1) : kept {n} = {n} := by
  ext k
  rw [mem_kept_singleton, Set.mem_singleton_iff, ← Int64.toInt_inj, le_largest_iff]
  simp only [Int64.le_iff_toInt_le, Int64.lt_iff_toInt_lt, Int64.toInt_zero, Int64.toInt_one] at h ⊢
  omega

/-- A number from `2` on is kept together with its predecessor. -/
theorem kept_singleton_of_one_lt (h₁ : ¬ n ≤ 1) (h₂ : n ≤ largest) :
    kept {n} = kept {n - 1} ∪ {n} := by
  ext k
  rw [Set.mem_union, Set.mem_singleton_iff, mem_kept_singleton, mem_kept_singleton,
    ← Int64.toInt_inj, ← Int64.toInt_inj, le_largest_iff, le_largest_iff]
  simp only [Int64.le_iff_toInt_le, Int64.lt_iff_toInt_lt, Int64.toInt_zero, toInt_sub_one h₁]
  rw [le_one_iff] at h₁
  rw [le_largest_iff] at h₂
  omega

/-- The largest number from `1` to `33` in the set, or zero if there is none. -/
def highest (Q : Finset Int64) : ℕ :=
  (Q.filter fun n => 1 ≤ n ∧ n ≤ 33).sup fun n => n.toInt.toNat

theorem le_highest_iff {Q : Finset Int64} (h : 0 < k) :
    k.toInt ≤ highest Q ↔ ∃ n ∈ Q, k ≤ n ∧ n ≤ largest := by
  rw [Int64.lt_iff_toInt_lt, Int64.toInt_zero] at h
  have hk : k.toInt ≤ highest Q ↔ k.toInt.toNat ≤ highest Q := by omega
  have hp : (⊥ : ℕ) < k.toInt.toNat := by
    rw [Nat.bot_eq_zero]
    omega
  rw [hk, highest, Finset.le_sup_iff hp]
  simp only [Finset.mem_filter, Int64.le_iff_toInt_le, Int64.toInt_one, toInt_largest,
    show (33 : Int64).toInt = 33 by decide]
  constructor
  · rintro ⟨n, ⟨hn, h1, hl⟩, hkn⟩
    exact ⟨n, hn, by omega, hl⟩
  · rintro ⟨n, hn, hkn, hl⟩
    exact ⟨n, ⟨hn, by omega, hl⟩, by omega⟩

/-- The kept numbers are the requests that are not positive and an initial segment of the rest. -/
theorem mem_kept_iff_le_highest {Q : Finset Int64} :
    k ∈ kept Q ↔ k ≤ 0 ∧ k ∈ Q ∨ 1 ≤ k.toInt ∧ k.toInt ≤ highest Q := by
  have h0 : 0 < k ↔ 1 ≤ k.toInt := by
    rw [Int64.lt_iff_toInt_lt, Int64.toInt_zero]
    omega
  rw [mem_kept, ← h0]
  constructor
  · rintro (h | ⟨h, hk⟩)
    · exact Or.inl h
    · exact Or.inr ⟨h, (le_highest_iff h).mpr hk⟩
  · rintro (h | ⟨h, hk⟩)
    · exact Or.inl h
    · exact Or.inr ⟨h, (le_highest_iff h).mp hk⟩

theorem highest_le (Q : Finset Int64) : highest Q ≤ 33 := by
  apply Finset.sup_le
  intro n hn
  obtain ⟨-, -, hl⟩ := Finset.mem_filter.mp hn
  have h := le_largest_iff.mp hl
  omega

def keys (Q : Finset Int64) : Finset Int64 :=
  Q.filter (· ≤ 0) ∪ (Finset.Icc 1 (highest Q)).image Int64.ofNat

theorem toInt_ofNat_of_le {j : ℕ} {Q : Finset Int64} (h : j ≤ highest Q) :
    (Int64.ofNat j).toInt = j := by
  have hl := highest_le Q
  exact Int64.toInt_ofNat_of_lt (by omega)

theorem coe_keys (Q : Finset Int64) : (keys Q : Set Int64) = kept Q := by
  ext k
  rw [mem_kept_iff_le_highest, keys]
  simp only [Finset.coe_union, Set.mem_union, Finset.mem_coe, Finset.mem_filter, Finset.mem_image,
    Finset.mem_Icc]
  apply or_congr and_comm
  constructor
  · rintro ⟨j, ⟨h1, hj⟩, rfl⟩
    rw [toInt_ofNat_of_le hj]
    omega
  · rintro ⟨h1, hk⟩
    refine ⟨k.toInt.toNat, by omega, Int64.toInt_inj.mp ?_⟩
    rw [toInt_ofNat_of_le (Q := Q) (by omega)]
    omega

theorem card_keys (Q : Finset Int64) : (keys Q).card = (Q.filter (· ≤ 0)).card + highest Q := by
  have hd : Disjoint (Q.filter (· ≤ 0)) ((Finset.Icc 1 (highest Q)).image Int64.ofNat) := by
    rw [Finset.disjoint_left]
    intro k hk hi
    obtain ⟨-, h0⟩ := Finset.mem_filter.mp hk
    obtain ⟨j, hj, rfl⟩ := Finset.mem_image.mp hi
    obtain ⟨h1, hj⟩ := Finset.mem_Icc.mp hj
    rw [Int64.le_iff_toInt_le, toInt_ofNat_of_le hj, Int64.toInt_zero] at h0
    omega
  have hi : Set.InjOn Int64.ofNat (Finset.Icc 1 (highest Q) : Finset ℕ) := by
    intro a ha b hb hab
    have h := congrArg Int64.toInt hab
    rw [toInt_ofNat_of_le (Finset.mem_Icc.mp ha).2, toInt_ofNat_of_le (Finset.mem_Icc.mp hb).2] at h
    exact Int.ofNat.inj h
  rw [keys, Finset.card_union_of_disjoint hd, Finset.card_image_of_injOn hi, Nat.card_Icc,
    Nat.add_sub_cancel]

end Kept

namespace Table

@[simp] theorem get?_empty (k : Int64) : empty.get? k = none := by
  simp [empty, get?]

@[simp] theorem get?_insert (t : Table) (n : Int64) (v : Int128) (k : Int64) :
    (t.insert n v).get? k = if n = k then some v else t.get? k := by
  simp [get?, insert, Std.HashMap.getElem?_insert]

/-- The table keeps the factorials of the numbers in the set and nothing else. -/
def Holds (t : Table) (S : Set Int64) : Prop :=
  ∀ k v, t.get? k = some v ↔ k ∈ S ∧ v = value k

variable {t : Table} {S Q : Set Int64}

theorem holds_empty : empty.Holds ∅ := by
  intro k v
  simp

theorem Holds.get?_of_mem (h : t.Holds S) (hn : n ∈ S) : t.get? n = some (value n) :=
  (h n _).mpr ⟨hn, rfl⟩

theorem Holds.get?_of_notMem (h : t.Holds S) (hn : n ∉ S) : t.get? n = none := by
  cases hv : t.get? n with
  | none => rfl
  | some v => exact absurd ((h n v).mp hv).1 hn

theorem Holds.insert (h : t.Holds S) (n : Int64) : (t.insert n (value n)).Holds (S ∪ {n}) := by
  intro k v
  rw [get?_insert, Set.mem_union, Set.mem_singleton_iff]
  split
  · rename_i hk
    subst hk
    simp [eq_comm]
  · rename_i hk
    rw [h k v]
    simp [Ne.symm hk]

theorem Holds.size_eq {ks : Finset Int64} (h : t.Holds ks) : t.size = ks.card := by
  have hk : t.entries.keys.toFinset = ks := by
    ext k
    rw [List.mem_toFinset, Std.HashMap.mem_keys, Std.HashMap.mem_iff_isSome_getElem?,
      Option.isSome_iff_exists]
    exact ⟨fun ⟨v, hv⟩ => ((h k v).mp hv).1, fun hk => ⟨_, h.get?_of_mem hk⟩⟩
  rw [← hk, List.toFinset_card_of_nodup Std.HashMap.nodup_keys, Std.HashMap.length_keys, size]

/-- The size of a table that comes from requests for the numbers in a set. -/
theorem Holds.size_of_kept {Q : Finset Int64} (h : t.Holds (kept Q)) :
    t.size = (Q.filter (· ≤ 0)).card + highest Q := by
  rw [← coe_keys] at h
  rw [h.size_eq, card_keys]

/-- Looking a number up gives its factorial, whatever was asked for before. -/
theorem lookup_spec (h : t.Holds (kept Q)) :
    (t.lookup n).1 = okOr (.overflow .mathUtilsFactorial) (value? n) ∧
      (t.lookup n).2.Holds (kept (Q ∪ {n})) := by
  fun_induction lookup t n generalizing Q with
  | case1 n v hv =>
    obtain ⟨hn, rfl⟩ := (h n v).mp hv
    rw [value?_of_le (le_largest_of_mem_kept hn), kept_union_singleton_of_mem hn]
    exact ⟨rfl, h⟩
  | case2 n hv hl =>
    rw [value?_of_lt hl, kept_union, kept_singleton_of_largest_lt hl, Set.union_empty]
    exact ⟨rfl, h⟩
  | case3 n hv hl h₁ =>
    rw [value?_of_le (Int64.not_lt.mp hl), kept_union, kept_singleton_of_le_one h₁,
      ← value_of_le_one h₁]
    exact ⟨rfl, h.insert n⟩
  | case4 n hv hl h₁ e t' hb ih =>
    have hr := (ih h).1
    rw [hb, value?_of_le (sub_one_le_largest h₁ (Int64.not_lt.mp hl))] at hr
    cases hr
  | case5 n hv hl h₁ below t' hb e he ih =>
    have h₂ := Int64.not_lt.mp hl
    have hr := (ih h).1
    rw [hb, value?_of_le (sub_one_le_largest h₁ h₂)] at hr
    cases hr
    rw [okOr_mul?_value _ h₁ h₂] at he
    cases he
  | case6 n hv hl h₁ below t' hb v he ih =>
    have h₂ := Int64.not_lt.mp hl
    obtain ⟨hr, ht⟩ := ih h
    rw [hb, value?_of_le (sub_one_le_largest h₁ h₂)] at hr
    rw [hb] at ht
    cases hr
    rw [okOr_mul?_value _ h₁ h₂] at he
    cases he
    rw [value?_of_le h₂, kept_union, kept_singleton_of_one_lt h₁ h₂, ← Set.union_assoc,
      ← kept_union]
    exact ⟨rfl, ht.insert n⟩

/-- A lookup that fails leaves the table as it was. -/
theorem lookup_snd_of_eq_error (h : t.Holds (kept Q)) {e : Error}
    (hn : (t.lookup n).1 = .error e) : (t.lookup n).2 = t := by
  have hl : largest < n := by
    rw [(lookup_spec h).1] at hn
    by_contra hl
    rw [value?_of_le (Int64.not_lt.mp hl)] at hn
    cases hn
  have hv : t.get? n = none :=
    h.get?_of_notMem fun hk => absurd (le_largest_of_mem_kept hk) (Int64.not_le.mpr hl)
  rw [lookup, hv]
  simp [hl]

end Table

end RoutineCorpus.Factorial
