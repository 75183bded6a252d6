import Mathlib.Algebra.Ring.Int.Defs
import RoutineCorpus.Proofs.DistinctKeys
import RoutineCorpus.Proofs.Manifest

/-! # Well-formed tables of settings

A table gives a layer exactly if every entry of it is a setting: its key is the key
of a field, and its value is of the kind that the field takes. The layer has the
values that are written and no others, in whatever order the entries stand.
-/

namespace RoutineCorpus

namespace Toml.Value

def IntegerIn (lo hi : ℤ) (v : Value) : Prop := ∃ n, v = .integer n ∧ lo ≤ n ∧ n ≤ hi

def ArrayOf (kind : Value → Prop) (v : Value) : Prop := ∃ vs, v = .array vs ∧ ∀ w ∈ vs, kind w

theorem integerIn_integer {lo hi n : ℤ} : IntegerIn lo hi (.integer n) ↔ lo ≤ n ∧ n ≤ hi := by
  simp [IntegerIn]

end Toml.Value

open Toml.Value (IntegerIn ArrayOf)

/-- The kind of value that a field takes. -/
def Field.Fits : Field → Toml.Value → Prop
  | .fibonacciLimit | .checkMaxN => IntegerIn 0 (2 ^ 32 - 1)
  | .checkSequences => ArrayOf (ArrayOf (IntegerIn (-2 ^ 63) (2 ^ 63 - 1)))
  | .exclude => ArrayOf fun v => ∃ f : Family, f.Form v

namespace Decode

variable {v : Toml.Value}

theorem isSome_uint32?_iff : (uint32? v).isSome = true ↔ IntegerIn 0 (2 ^ 32 - 1) v := by
  cases v with
  | integer n =>
    have hn : n ≤ 2 ^ 32 - 1 ↔ n < UInt32.size := by
      simp only [UInt32.size]
      omega
    rw [Toml.Value.integerIn_integer, hn, uint32?, Option.isSome_ite]
  | _ => simp [uint32?, IntegerIn]

theorem isSome_int64?_iff :
    (int64? v).isSome = true ↔ IntegerIn (-2 ^ 63) (2 ^ 63 - 1) v := by
  have hlo : Int64.minValue.toInt = -2 ^ 63 := rfl
  have hhi : Int64.maxValue.toInt = 2 ^ 63 - 1 := rfl
  cases v with
  | integer n => rw [Toml.Value.integerIn_integer, int64?, Option.isSome_ite, hlo, hhi]
  | _ => simp [int64?, IntegerIn]

theorem isSome_family?_iff : (family? v).isSome = true ↔ ∃ f : Family, f.Form v := by
  simp only [Option.isSome_iff_exists, family?_eq_some_iff]

theorem isSome_list?_iff {α : Type} {item? : Toml.Value → Option α} :
    (list? item? v).isSome = true ↔ ArrayOf (fun w => (item? w).isSome = true) v := by
  cases v <;> simp [list?, ArrayOf, isSome_mapM_iff]

end Decode

namespace Field

theorem isSome_decode?_iff (f : Field) (v : Toml.Value) :
    (f.decode? v).isSome = true ↔ f.Fits v := by
  cases f with
  | fibonacciLimit | checkMaxN => exact Decode.isSome_uint32?_iff
  | checkSequences =>
    simp only [decode?, Decode.isSome_list?_iff, Decode.isSome_int64?_iff]
    rfl
  | exclude =>
    simp only [decode?, Decode.isSome_list?_iff, Decode.isSome_family?_iff]
    rfl

theorem fits_iff_exists_says {f : Field} {v : Toml.Value} : f.Fits v ↔ ∃ x, f.Says v x := by
  simp only [← isSome_decode?_iff, Option.isSome_iff_exists, decode?_eq_some_iff]

/-- A setting that says what a document says is there exactly if the document says it. -/
theorem eq_some_iff_of_rel {f : Field} {v : Option Toml.Value} {y : Option f.Setting}
    (h : Option.Rel f.Says v y) {x : f.Setting} : y = some x ↔ ∃ w, v = some w ∧ f.Says w x := by
  cases h with
  | none => simp
  | @some v y hy =>
    constructor
    · rintro ⟨⟩
      exact ⟨v, rfl, hy⟩
    · rintro ⟨_, ⟨⟩, hx⟩
      rw [hy.unique hx]

theorem eq_none_iff_of_rel {f : Field} {v : Option Toml.Value} {y : Option f.Setting}
    (h : Option.Rel f.Says v y) : y = none ↔ v = none := by
  cases h <;> simp

theorem eq_of_key_eq {f g : Field} (h : f.key = g.key) : f = g := by
  cases f <;> cases g <;> first | rfl | exact absurd h (by decide)

theorem mem_keys_iff {k : String} : k ∈ Layer.keys ↔ ∃ f : Field, k = f.key := by
  constructor
  · intro h
    simp only [Layer.keys, List.mem_cons, List.not_mem_nil, or_false] at h
    rcases h with rfl | rfl | rfl | rfl
    · exact ⟨.fibonacciLimit, rfl⟩
    · exact ⟨.checkMaxN, rfl⟩
    · exact ⟨.checkSequences, rfl⟩
    · exact ⟨.exclude, rfl⟩
  · rintro ⟨f, rfl⟩
    cases f <;> decide

end Field

namespace Layer

/-- Every entry of the table is a setting. -/
def WellFormed (es : List (String × Toml.Value)) : Prop :=
  ∀ e ∈ es, ∃ f : Field, e.1 = f.key ∧ f.Fits e.2

def ofGet (get : (f : Field) → Option f.Setting) : Layer where
  fibonacciLimit := get .fibonacciLimit
  checkMaxN := get .checkMaxN
  checkSequences := get .checkSequences
  exclude := get .exclude

theorem get_ofGet (get : (f : Field) → Option f.Setting) (f : Field) :
    (ofGet get).get f = get f := by
  cases f <;> rfl

open Toml (Keyed)

variable {es fs : List (String × Toml.Value)} {l : Layer}

theorem wellFormed_of_ofTable? (hk : Keyed es) (h : ofTable? es = some l) : WellFormed es := by
  obtain ⟨hknown, hsays⟩ := ofTable?_eq_some_iff.mp h
  intro e he
  obtain ⟨f, hf⟩ := Field.mem_keys_iff.mp (hknown e he)
  have hr := hsays f
  rw [hk.lookup_eq_some_iff.mpr (hf ▸ he : (f.key, e.2) ∈ es)] at hr
  generalize l.get f = x at hr
  cases hr with
  | some hx => exact ⟨f, hf, Field.fits_iff_exists_says.mpr ⟨_, hx⟩⟩

theorem WellFormed.exists_ofTable? (h : WellFormed es) : ∃ l, ofTable? es = some l := by
  refine ⟨ofGet fun f => (es.lookup f.key).bind f.decode?, ofTable?_eq_some_iff.mpr ⟨?_, ?_⟩⟩
  · intro e he
    obtain ⟨f, hf, -⟩ := h e he
    exact Field.mem_keys_iff.mpr ⟨f, hf⟩
  · intro f
    rw [get_ofGet]
    cases hv : es.lookup f.key with
    | none => exact .none
    | some v =>
      obtain ⟨g, hg, hfits⟩ := h _ (mem_of_lookup_eq_some hv)
      obtain rfl := Field.eq_of_key_eq hg
      obtain ⟨x, hx⟩ := Field.fits_iff_exists_says.mp hfits
      rw [Option.bind_some, Field.decode?_eq_some_iff.mpr hx]
      exact .some hx

/-- What comes of decoding a table of settings. -/
structure Decodes (es : List (String × Toml.Value)) (outcome : Option Layer) : Prop where
  isSome_iff : (∃ l, outcome = some l) ↔ WellFormed es
  given : ∀ l, outcome = some l → ∀ (f : Field) (x : f.Setting),
    l.get f = some x ↔ ∃ v, (f.key, v) ∈ es ∧ f.Says v x
  notGiven : ∀ l, outcome = some l → ∀ f : Field, l.get f = none ↔ f.key ∉ es.map Prod.fst

theorem decodes_ofTable? (hk : Keyed es) : Decodes es (ofTable? es) where
  isSome_iff := ⟨fun ⟨_, h⟩ => wellFormed_of_ofTable? hk h, WellFormed.exists_ofTable?⟩
  given := by
    intro l h f x
    simp only [Field.eq_some_iff_of_rel ((ofTable?_eq_some_iff.mp h).2 f), hk.lookup_eq_some_iff]
  notGiven := by
    intro l h f
    rw [Field.eq_none_iff_of_rel ((ofTable?_eq_some_iff.mp h).2 f), lookup_eq_none_iff_notMem]

/-- The order of the entries makes no difference. -/
theorem ofTable?_perm (hk : Keyed es) (hp : es.Perm fs) : ofTable? fs = ofTable? es := by
  ext l
  rw [ofTable?_eq_some_iff, ofTable?_eq_some_iff]
  simp only [hk.lookup_perm hp, hp.mem_iff]

/-! ## Documents -/

theorem toOption_ofSettingsEntry (diagnosis : String → String) (path : String) {s : String}
    (h : Toml.read s = some es) :
    (ofSettingsEntry diagnosis path (.file s.toUTF8)).toOption = ofTable? es := by
  have ht : (Entry.file s.toUTF8).text? = some (.ok s) := Entry.text?_eq_ok_iff.mpr rfl
  simp only [ofSettingsEntry, ht, h, Option.bind_some]
  cases ofTable? es <;> rfl

theorem ofManifest?_of_usable {package metadata fields : List (String × Toml.Value)}
    (hl : Located es package metadata) (hu : usableAround es package metadata = true)
    (hf : metadata.lookup "fixtures" = some (.table fields)) :
    ofManifest? es = ofTable? fields := by
  rw [ofManifest?_of_located hl, if_pos hu, hf]
  rfl

theorem keyed_of_read {s : String} (h : Toml.read s = some es) : Keyed es :=
  (Toml.Value.distinct_table_iff.mp (Toml.distinct_of_read h)).1

theorem keyed_of_located {s : String} {package metadata fields : List (String × Toml.Value)}
    (h : Toml.read s = some es) (hl : Located es package metadata)
    (hf : metadata.lookup "fixtures" = some (.table fields)) : Keyed fields := by
  have hp := (Toml.distinct_of_read h).lookup hl.package_eq
  have hm := hp.lookup hl.metadata_eq
  exact (Toml.Value.distinct_table_iff.mp (hm.lookup hf)).1

/-- A table without repeated keys is decoded exactly if it is well-formed, and then the layer has
the values written in it; the order of its keys makes no difference. Every table of a document is
one without repeated keys, and this is how a settings file and the section of a usable manifest
are decoded. -/
theorem table_decodes_iff_wellFormed :
    (∀ es, Keyed es →
      Decodes es (ofTable? es) ∧ Decodes es (ofValue? (.table es)) ∧
      ∀ fs, es.Perm fs → ofTable? fs = ofTable? es) ∧
    (∀ diagnosis path s es, Toml.read s = some es →
      Keyed es ∧ Decodes es (ofSettingsEntry diagnosis path (.file s.toUTF8)).toOption) ∧
    ∀ s es package metadata fields, Toml.read s = some es → Located es package metadata →
      usableAround es package metadata = true →
      metadata.lookup "fixtures" = some (.table fields) →
      Keyed fields ∧ Decodes fields (ofManifest? es) := by
  refine ⟨?_, ?_, ?_⟩
  · intro es hk
    exact ⟨decodes_ofTable? hk, decodes_ofTable? hk, fun fs hp => ofTable?_perm hk hp⟩
  · intro diagnosis path s es h
    have hk := keyed_of_read h
    rw [toOption_ofSettingsEntry diagnosis path h]
    exact ⟨hk, decodes_ofTable? hk⟩
  · intro s es package metadata fields h hl hu hf
    have hk := keyed_of_located h hl hf
    rw [ofManifest?_of_usable hl hu hf]
    exact ⟨hk, decodes_ofTable? hk⟩

theorem read_exclusions :
    Toml.read "exclude=['sum',{sum=[]},'fibonacci']" =
      some [("exclude", .array [.text "sum", .table [("sum", .array [])], .text "fibonacci"])] := by
  decide +kernel

theorem table_decodes_iff_wellFormed_instances :
    let fields : List (String × Toml.Value) :=
      [("check_max_n", .integer 4294967295), ("check_sequences", .array [.array []])]
    let document := "exclude=['sum',{sum=[]},'fibonacci']"
    let manifest := "package.metadata.fixtures={check_max_n=8,exclude=[]}"
    (∃ l, ofTable? fields = some l ∧ l.checkMaxN = some 4294967295 ∧ l.exclude = none) ∧
      ofTable? fields.reverse = ofTable? fields ∧
      (∀ l, ofTable? [("check_max_n", .integer 4294967296)] ≠ some l) ∧
      (∃ l, (ofSettingsEntry id "fixtures.toml" (.file document.toUTF8)).toOption = some l ∧
        l.exclude = some [.sum, .sum, .fibonacci]) ∧
      ∃ es l, Toml.read manifest = some es ∧ ofManifest? es = some l ∧ l.exclude = some [] := by
  intro fields document manifest
  obtain ⟨hall, hown, hsection⟩ := table_decodes_iff_wellFormed
  have hkeyed : Keyed fields := by decide
  refine ⟨?_, ?_, ?_, ?_, ?_⟩
  · obtain ⟨hd, -, -⟩ := hall fields hkeyed
    obtain ⟨l, hl⟩ := hd.isSome_iff.mpr (by
      simp only [WellFormed, fields, List.forall_mem_cons]
      exact ⟨⟨.checkMaxN, rfl, _, rfl, by decide, by decide⟩,
        ⟨.checkSequences, rfl, _, rfl, List.forall_mem_singleton.mpr ⟨[], rfl, by simp⟩⟩, by simp⟩)
    exact ⟨l, hl, (hd.given l hl .checkMaxN _).mpr ⟨_, List.mem_cons_self, rfl⟩,
      (hd.notGiven l hl .exclude).mpr (by decide)⟩
  · exact (hall fields hkeyed).2.2 _ (List.reverse_perm fields).symm
  · intro l hl
    obtain ⟨hd, -, -⟩ := hall [("check_max_n", .integer 4294967296)] (by decide)
    obtain ⟨f, hf, hfits⟩ := hd.isSome_iff.mp ⟨l, hl⟩ _ List.mem_cons_self
    obtain rfl := Field.eq_of_key_eq (f := .checkMaxN) hf
    obtain ⟨n, ⟨⟩, -, hn⟩ := hfits
    exact absurd hn (by decide)
  · obtain ⟨-, hd⟩ := hown id "fixtures.toml" document _ read_exclusions
    have hsays : Field.exclude.Says
        (.array [.text "sum", .table [("sum", .array [])], .text "fibonacci"])
        [.sum, .sum, .fibonacci] :=
      ⟨_, rfl, .cons .name (.cons .array (.cons .name .nil))⟩
    obtain ⟨l, hl⟩ := hd.isSome_iff.mpr
      (List.forall_mem_singleton.mpr ⟨.exclude, rfl, Field.fits_iff_exists_says.mpr ⟨_, hsays⟩⟩)
    exact ⟨l, hl, (hd.given l hl .exclude _).mpr ⟨_, List.mem_cons_self, hsays⟩⟩
  · obtain ⟨-, hd⟩ := hsection manifest _ _ _ _ Settings.read_section ⟨rfl, rfl⟩ (by decide) rfl
    obtain ⟨l, hl⟩ := hd.isSome_iff.mpr (by
      simp only [WellFormed, List.forall_mem_cons]
      exact ⟨⟨.checkMaxN, rfl, _, rfl, by decide, by decide⟩, ⟨.exclude, rfl, _, rfl, by simp⟩,
        by simp⟩)
    exact ⟨_, l, Settings.read_section, hl,
      (hd.given l hl .exclude _).mpr ⟨_, .tail _ List.mem_cons_self, _, rfl, .nil⟩⟩

end Layer

end RoutineCorpus
