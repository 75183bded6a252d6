import RoutineCorpus.Proofs.Prelude
import RoutineCorpus.Settings.Decode

/-! # What a document says about the settings

Every setting has its forms as a TOML value. A layer can be decoded only if each
of its values is a form of a setting, and it then gives exactly the settings
whose forms stand in the document.
-/

namespace RoutineCorpus

/-- The values that a document can have for a family. -/
inductive Family.Form (f : Family) : Toml.Value → Prop
  | name : Form f (.text f.name)
  | table : Form f (.table [(f.name, .table [])])
  | array : Form f (.table [(f.name, .array [])])

inductive Field where
  | fibonacciLimit
  | checkMaxN
  | checkSequences
  | exclude
  deriving DecidableEq, Repr

namespace Field

def key : Field → String
  | .fibonacciLimit => "fibonacci_limit"
  | .checkMaxN => "check_max_n"
  | .checkSequences => "check_sequences"
  | .exclude => "exclude"

/-- Where the field stands if the layer is an array. -/
def position : Field → Nat
  | .fibonacciLimit => 0
  | .checkMaxN => 1
  | .checkSequences => 2
  | .exclude => 3

@[reducible] def Setting : Field → Type
  | .fibonacciLimit | .checkMaxN => UInt32
  | .checkSequences => List (List Int64)
  | .exclude => List Family

def Says : (f : Field) → Toml.Value → f.Setting → Prop
  | .fibonacciLimit, v, n | .checkMaxN, v, n => v = .integer n.toNat
  | .checkSequences, v, xss =>
    v = .array (xss.map fun xs => .array (xs.map fun x => .integer x.toInt))
  | .exclude, v, fs => ∃ vs, v = .array vs ∧ List.Forall₂ (fun v f => Family.Form f v) vs fs

def decode? : (f : Field) → Toml.Value → Option f.Setting
  | .fibonacciLimit, v | .checkMaxN, v => Decode.uint32? v
  | .checkSequences, v => Decode.list? (Decode.list? Decode.int64?) v
  | .exclude, v => Decode.list? Decode.family? v

def of? (f : Field) : Toml.Value → Option Toml.Value
  | .table es => es.lookup f.key
  | .array vs => vs[f.position]?
  | _ => none

end Field

def Layer.get (l : Layer) : (f : Field) → Option f.Setting
  | .fibonacciLimit => l.fibonacciLimit
  | .checkMaxN => l.checkMaxN
  | .checkSequences => l.checkSequences
  | .exclude => l.exclude

def Settings.get (c : Settings) : (f : Field) → f.Setting
  | .fibonacciLimit => c.fibonacciLimit
  | .checkMaxN => c.checkMaxN
  | .checkSequences => c.checkSequences
  | .exclude => c.exclude

/-! ## Single values -/

namespace Decode

theorem uint32?_eq_some_iff {v : Toml.Value} {n : UInt32} :
    uint32? v = some n ↔ v = .integer n.toNat := by
  constructor
  · intro h
    unfold uint32? at h
    split at h
    · rename_i z
      split at h
      · rename_i hz
        obtain rfl := Option.some.inj h
        have hn : z.toNat < 2 ^ 32 := by
          have := hz.2
          simp only [UInt32.size] at this
          omega
        rw [UInt32.toNat_ofNat_of_lt' hn, Int.toNat_of_nonneg hz.1]
      · cases h
    · cases h
  · rintro rfl
    have hn := n.toNat_lt
    have hz : (0 : Int) ≤ n.toNat ∧ (n.toNat : Int) < UInt32.size := by
      simp only [UInt32.size]
      omega
    simp only [uint32?, if_pos hz, Int.toNat_natCast, UInt32.ofNat_toNat]

theorem int64?_eq_some_iff {v : Toml.Value} {n : Int64} :
    int64? v = some n ↔ v = .integer n.toInt := by
  constructor
  · intro h
    unfold int64? at h
    split at h
    · rename_i z
      split at h
      · rename_i hz
        obtain rfl := Option.some.inj h
        have hl : (-2 ^ 63 : Int) ≤ z := hz.1
        have hu : z ≤ 2 ^ 63 - 1 := hz.2
        rw [Int64.toInt_ofInt_of_le hl (by omega)]
      · cases h
    · cases h
  · rintro rfl
    have hz : Int64.minValue.toInt ≤ n.toInt ∧ n.toInt ≤ Int64.maxValue.toInt :=
      ⟨Int64.minValue_le_toInt n, Int64.toInt_le n⟩
    simp only [int64?, if_pos hz, Int64.ofInt_toInt]

theorem family?_eq_some_iff {v : Toml.Value} {f : Family} : family? v = some f ↔ f.Form v := by
  constructor
  · intro h
    unfold family? at h
    split at h
    · obtain rfl := Family.name_of_ofName? h
      exact .name
    · obtain rfl := Family.name_of_ofName? h
      exact .table
    · obtain rfl := Family.name_of_ofName? h
      exact .array
    · cases h
  · rintro (_ | _ | _) <;> exact Family.ofName?_name f

theorem list?_eq_some_iff {α : Type} {item? : Toml.Value → Option α} {v : Toml.Value}
    {xs : List α} : list? item? v = some xs ↔
      ∃ vs, v = .array vs ∧ List.Forall₂ (fun v x => item? v = some x) vs xs := by
  cases v <;> simp [list?, mapM_eq_some_iff]

/-- If each item has a single form, then so has a list of them. -/
theorem list?_eq_some_iff_map {α : Type} {item? : Toml.Value → Option α} {form : α → Toml.Value}
    (h : ∀ v x, item? v = some x ↔ v = form x) {v : Toml.Value} {xs : List α} :
    list? item? v = some xs ↔ v = .array (xs.map form) := by
  have hf : ∀ vs, List.Forall₂ (fun v x => item? v = some x) vs xs ↔ vs = xs.map form := by
    intro vs
    simp only [h]
    rw [← List.forall₂_map_right_iff (R := Eq), List.forall₂_eq_eq_eq]
  rw [list?_eq_some_iff]
  simp [hf]

end Decode

theorem Field.decode?_eq_some_iff {f : Field} {v : Toml.Value} {x : f.Setting} :
    f.decode? v = some x ↔ f.Says v x := by
  cases f with
  | fibonacciLimit | checkMaxN => exact Decode.uint32?_eq_some_iff
  | checkSequences =>
    exact Decode.list?_eq_some_iff_map fun _ _ =>
      Decode.list?_eq_some_iff_map fun _ _ => Decode.int64?_eq_some_iff
  | exclude =>
    refine Decode.list?_eq_some_iff.trans ?_
    simp only [Decode.family?_eq_some_iff]
    rfl

/-- A value is a form of one setting only. -/
theorem Field.Says.unique {f : Field} {v : Toml.Value} {x y : f.Setting} (hx : f.Says v x)
    (hy : f.Says v y) : x = y := by
  rw [← decode?_eq_some_iff] at hx hy
  exact Option.some.inj (hx.symm.trans hy)

/-! ## Layers -/

namespace Layer

theorem ofFields?_eq_some_iff (values : Field → Option Toml.Value) {l : Layer} :
    ofFields? (values .fibonacciLimit) (values .checkMaxN) (values .checkSequences)
        (values .exclude) = some l ↔
      ∀ f : Field, Option.Rel f.Says (values f) (l.get f) := by
  have hf : ∀ f : Field, Option.Rel f.Says (values f) (l.get f) ↔
      (values f).mapM f.decode? = some (l.get f) := by
    intro f
    rw [optionMapM_eq_some_iff]
    simp only [Field.decode?_eq_some_iff]
  simp only [hf, ofFields?, Option.bind_eq_bind, Option.bind_eq_some_iff]
  constructor
  · rintro ⟨a, ha, b, hb, c, hc, d, hd, he⟩ f
    obtain rfl := Option.some.inj he
    cases f with
    | fibonacciLimit => exact ha
    | checkMaxN => exact hb
    | checkSequences => exact hc
    | exclude => exact hd
  · intro h
    exact ⟨_, h .fibonacciLimit, _, h .checkMaxN, _, h .checkSequences, _, h .exclude, rfl⟩

theorem ofTable?_eq_some_iff {es : List (String × Toml.Value)} {l : Layer} :
    ofTable? es = some l ↔
      (∀ e ∈ es, e.1 ∈ keys) ∧ ∀ f : Field, Option.Rel f.Says (es.lookup f.key) (l.get f) := by
  have hk : (es.all fun e => keys.contains e.1) = true ↔ ∀ e ∈ es, e.1 ∈ keys := by
    simp
  rw [ofTable?, ← hk]
  split
  · rename_i h
    rw [and_iff_right h]
    exact ofFields?_eq_some_iff fun f => es.lookup f.key
  · rename_i h
    exact ⟨fun hl => (nomatch hl), fun hl => absurd hl.1 h⟩

theorem says_of_ofValue? {v : Toml.Value} {l : Layer} (h : ofValue? v = some l) (f : Field) :
    Option.Rel f.Says (f.of? v) (l.get f) := by
  cases v with
  | table es => exact (ofTable?_eq_some_iff.mp h).2 f
  | array vs => exact (ofFields?_eq_some_iff fun f => vs[f.position]?).mp h f
  | _ => cases h

end Layer

end RoutineCorpus
