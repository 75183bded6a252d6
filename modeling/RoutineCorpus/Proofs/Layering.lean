import RoutineCorpus.Proofs.Decoding
import RoutineCorpus.Settings.Load

/-! # Layers of settings

Settings are decided field by field: by an override, by the settings file, by the
manifest or by default, whichever comes first. What a source gives for another
field has no influence. Overrides do not decide which families are excluded; they
add to them.
-/

namespace RoutineCorpus

def Entry.document? (e : Entry) : Option (List (String × Toml.Value)) := do
  let .ok s ← e.text? | none
  Toml.read s

theorem Entry.text?_eq_none_iff {e : Entry} : e.text? = none ↔ e = .absent := by
  cases e with
  | file content =>
    rw [text?]
    split <;> simp
  | _ => simp [text?]

/-- The only field of a record, which may be given by position. -/
def Toml.Value.member? (key : String) : Toml.Value → Option Toml.Value
  | .table es => es.lookup key
  | .array vs => vs.head?
  | _ => none

/-- What stands at `package.metadata.fixtures` in a manifest. -/
def manifestSection? (es : List (String × Toml.Value)) : Option Toml.Value := do
  let package ← Toml.Value.member? "package" (.table es)
  let metadata ← package.member? "metadata"
  metadata.member? "fixtures"

namespace Field

variable (f : Field) (w : Workspace) (root : String)

def own? : Option Toml.Value := do
  let es ← (w.entry (joinPath root settingsName)).document?
  es.lookup f.key

/-- What the manifest of a directory gives for the field, provided that all of it can be decoded. -/
def manifest? : Option Toml.Value := do
  let es ← (w.entry (joinPath root manifestName)).document?
  let _ ← Layer.ofManifest? es
  let v ← manifestSection? es
  f.of? v

/-- How a field is decided, given what an override, the settings file and the manifest say. -/
inductive Decided (override : Option f.Setting) (own manifest : Option Toml.Value) :
    f.Setting → Prop
  | override {x : f.Setting} (ho : override = some x) : Decided override own manifest x
  | own {v : Toml.Value} {x : f.Setting} (ho : override = none) (hv : own = some v)
      (hx : f.Says v x) : Decided override own manifest x
  | manifest {v : Toml.Value} {x : f.Setting} (ho : override = none) (hn : own = none)
      (hv : manifest = some v) (hx : f.Says v x) : Decided override own manifest x
  | default (ho : override = none) (hn : own = none) (hm : manifest = none) :
      Decided override own manifest (({} : Settings).get f)

variable {f} {override : Option f.Setting} {own manifest : Option Toml.Value} {x y : f.Setting}

/-- What the three sources say about a field leaves no choice. -/
theorem Decided.unique (hx : f.Decided override own manifest x)
    (hy : f.Decided override own manifest y) : x = y := by
  cases hx with
  | override ho =>
    cases hy with
    | override ho' => exact Option.some.inj (ho.symm.trans ho')
    | _ => simp_all
  | own ho hv hx =>
    cases hy with
    | own _ hv' hy =>
      obtain rfl := Option.some.inj (hv.symm.trans hv')
      exact hx.unique hy
    | _ => simp_all
  | manifest ho hn hv hx =>
    cases hy with
    | manifest _ _ hv' hy =>
      obtain rfl := Option.some.inj (hv.symm.trans hv')
      exact hx.unique hy
    | _ => simp_all
  | default => cases hy <;> simp_all

theorem Decided.getD (h : f.Decided none own manifest x) (override : Option f.Setting) :
    f.Decided override own manifest (override.getD x) := by
  cases override with
  | none => exact h
  | some y => exact .override rfl

/-- Of two layers that say what stands in the documents, the later one goes first. -/
theorem decided_of_rel {a b : Option f.Setting} (ha : Option.Rel f.Says own a)
    (hb : Option.Rel f.Says manifest b) :
    f.Decided none own manifest (a.getD (b.getD (({} : Settings).get f))) := by
  cases ha with
  | some ha => exact .own rfl rfl ha
  | none =>
    cases hb with
    | some hb => exact .manifest rfl rfl rfl hb
    | none => exact .default rfl rfl rfl

end Field

/-! ## The documents of a directory -/

namespace Layer

variable {f : Field} {e : Entry} {l : Layer} {diagnosis : String → String} {path : String}

theorem get_empty (f : Field) : ({} : Layer).get f = none := by
  cases f <;> rfl

theorem ofSettingsEntry_eq_ok_iff : ofSettingsEntry diagnosis path e = .ok l ↔
    e = .absent ∧ l = {} ∨ ∃ es, e.document? = some es ∧ ofTable? es = some l := by
  unfold ofSettingsEntry Entry.document?
  rw [← Entry.text?_eq_none_iff]
  cases e.text? with
  | none => simp [eq_comm]
  | some t =>
    cases t with
    | error fault => simp
    | ok s =>
      cases hs : Toml.read s with
      | none => simp [hs, okOr]
      | some es => cases hl : ofTable? es <;> simp [hs, hl, okOr]

theorem says_of_ofSettingsEntry (h : ofSettingsEntry diagnosis path e = .ok l) (f : Field) :
    Option.Rel f.Says (e.document? >>= fun es => es.lookup f.key) (l.get f) := by
  rcases ofSettingsEntry_eq_ok_iff.mp h with ⟨rfl, rfl⟩ | ⟨es, hes, hl⟩
  · rw [get_empty]
    exact .none
  · rw [hes]
    exact (ofTable?_eq_some_iff.mp hl).2 f

theorem member?_of_field? {key : String} {v : Toml.Value} {o : Option Toml.Value}
    (h : field? key v = some o) : v.member? key = o := by
  cases v with
  | table es =>
    rw [field?, Option.ite_none_right_eq_some] at h
    exact Option.some.inj h.2
  | array vs => exact Option.some.inj h
  | _ => cases h

/-- A manifest that can be decoded gives what its section says, and nothing if it has none. -/
theorem ofManifest?_eq_some {es : List (String × Toml.Value)} (h : ofManifest? es = some l) :
    (manifestSection? es).elim (l = {}) (ofValue? · = some l) := by
  obtain ⟨package, hp, h⟩ := Option.bind_eq_some_iff.mp h
  rw [manifestSection?, member?_of_field? hp]
  cases package with
  | none => exact (Option.some.inj h).symm
  | some package =>
    obtain ⟨metadata, hm, h⟩ := Option.bind_eq_some_iff.mp h
    rw [Option.bind_eq_bind, Option.bind_some, member?_of_field? hm]
    cases metadata with
    | none => exact (Option.some.inj h).symm
    | some metadata =>
      obtain ⟨layer, hf, h⟩ := Option.bind_eq_some_iff.mp h
      rw [Option.bind_some, member?_of_field? hf]
      cases layer with
      | none => exact (Option.some.inj h).symm
      | some layer => exact h

theorem ofManifestEntry_eq (e : Entry) :
    ofManifestEntry e = (e.document? >>= ofManifest?).getD {} := by
  unfold ofManifestEntry Entry.document?
  cases e.text? with
  | none => rfl
  | some t =>
    cases t with
    | error fault => rfl
    | ok s => rfl

theorem says_ofManifestEntry (e : Entry) (f : Field) :
    Option.Rel f.Says
      (e.document? >>= fun es => ofManifest? es >>= fun _ => manifestSection? es >>= f.of?)
      ((ofManifestEntry e).get f) := by
  rw [ofManifestEntry_eq]
  cases hes : e.document? with
  | none => simp [get_empty]
  | some es =>
    cases hl : ofManifest? es with
    | none => simp [hl, get_empty]
    | some l =>
      have hs := ofManifest?_eq_some hl
      cases hv : manifestSection? es with
      | none =>
        rw [hv] at hs
        obtain rfl : l = {} := hs
        simp [hl, hv, get_empty]
      | some v =>
        rw [hv] at hs
        simpa [hl, hv] using says_of_ofValue? hs f

end Layer

namespace Settings

variable {w : Workspace} {root : String} {c : Settings}

theorem get_applyLayer (c : Settings) (l : Layer) (f : Field) :
    (c.applyLayer l).get f = (l.get f).getD (c.get f) := by
  cases f <;> rfl

theorem get_root (root : String) (f : Field) :
    ({ root := root } : Settings).get f = ({} : Settings).get f := by
  cases f <;> rfl

theorem load_eq_ok_iff : load w root = .ok c ↔
    ∃ own, Layer.ofSettingsEntry w.diagnosis (joinPath root settingsName)
        (w.entry (joinPath root settingsName)) = .ok own ∧
      c = (applyLayer { root := root }
        (Layer.ofManifestEntry (w.entry (joinPath root manifestName)))).applyLayer own := by
  cases hs : Layer.ofSettingsEntry w.diagnosis (joinPath root settingsName)
      (w.entry (joinPath root settingsName)) with
  | error e => simp [load, hs, bind, Except.bind]
  | ok own => simp [load, hs, bind, Except.bind, pure, Except.pure, eq_comm]

theorem decided_of_load (h : load w root = .ok c) (f : Field) :
    f.Decided none (f.own? w root) (f.manifest? w root) (c.get f) := by
  obtain ⟨own, ho, rfl⟩ := load_eq_ok_iff.mp h
  rw [get_applyLayer, get_applyLayer, get_root]
  exact Field.decided_of_rel (Layer.says_of_ofSettingsEntry ho f) (Layer.says_ofManifestEntry _ f)

theorem root_of_load (h : load w root = .ok c) : c.root = root := by
  obtain ⟨own, -, rfl⟩ := load_eq_ok_iff.mp h
  rfl

/-- Overrides add the families that are not there yet, each of them once. -/
theorem foldl_addFamily (fs gs : List Family) :
    gs.foldl addFamily fs = fs ++ (gs.filter (· ∉ fs)).eraseDups := by
  induction gs generalizing fs with
  | nil => simp
  | cons g gs ih =>
    rw [List.foldl_cons, ih, addFamily]
    split
    · rename_i hg
      rw [List.filter_cons_of_neg (by simpa using hg)]
    · rename_i hg
      rw [List.filter_cons_of_pos (by simpa using hg), List.eraseDups_cons, List.filter_filter]
      simp [and_comm, beq_eq_decide]

theorem loadWith_eq_ok_iff {o : Overrides} : loadWith w root o = .ok c ↔
    ∃ loaded, load w root = .ok loaded ∧ c = loaded.applyOverrides o := by
  unfold loadWith
  cases load w root <;> simp [Except.map, eq_comm]

structure Layered (w : Workspace) (root : String) (o : Overrides) (c : Settings) : Prop where
  fibonacciLimit : Field.fibonacciLimit.Decided o.fibonacciLimit
    (Field.fibonacciLimit.own? w root) (Field.fibonacciLimit.manifest? w root) c.fibonacciLimit
  checkMaxN : Field.checkMaxN.Decided o.checkMaxN
    (Field.checkMaxN.own? w root) (Field.checkMaxN.manifest? w root) c.checkMaxN
  checkSequences : Field.checkSequences.Decided none
    (Field.checkSequences.own? w root) (Field.checkSequences.manifest? w root) c.checkSequences
  exclude : ∃ listed, Field.exclude.Decided none
      (Field.exclude.own? w root) (Field.exclude.manifest? w root) listed ∧
    c.exclude = listed ++ (o.exclude.filter (· ∉ listed)).eraseDups
  root_eq : c.root = root

theorem layered_of_load {loaded : Settings} (h : load w root = .ok loaded) (o : Overrides) :
    Layered w root o (loaded.applyOverrides o) where
  fibonacciLimit := (decided_of_load h .fibonacciLimit).getD o.fibonacciLimit
  checkMaxN := (decided_of_load h .checkMaxN).getD o.checkMaxN
  checkSequences := decided_of_load h .checkSequences
  exclude := ⟨loaded.exclude, decided_of_load h .exclude, foldl_addFamily _ _⟩
  root_eq := show loaded.root = root from root_of_load h

/-- The documents of two directories give the same for a field. -/
def Agree (f : Field) (w w' : Workspace) (root root' : String) : Prop :=
  f.own? w root = f.own? w' root' ∧ f.manifest? w root = f.manifest? w' root'

theorem eq_of_agree {f : Field} {w' : Workspace} {root' : String} (h : Agree f w w' root root')
    {override : Option f.Setting} {x y : f.Setting}
    (hx : f.Decided override (f.own? w root) (f.manifest? w root) x)
    (hy : f.Decided override (f.own? w' root') (f.manifest? w' root') y) : x = y := by
  rw [h.1, h.2] at hx
  exact hx.unique hy

/-- Settings that can be loaded can be overridden, and then every field is decided by its first
source. Settings of two directories have the same value in a field as soon as their sources say
the same about that field. -/
theorem layers_decide_each_field (w : Workspace) (root : String) (o : Overrides) :
    (∀ loaded, load w root = .ok loaded → ∃ c, loadWith w root o = .ok c ∧ Layered w root o c) ∧
    ∀ w' root' o' c c', loadWith w root o = .ok c → loadWith w' root' o' = .ok c' →
      (Agree .fibonacciLimit w w' root root' → o.fibonacciLimit = o'.fibonacciLimit →
        c.fibonacciLimit = c'.fibonacciLimit) ∧
      (Agree .checkMaxN w w' root root' → o.checkMaxN = o'.checkMaxN →
        c.checkMaxN = c'.checkMaxN) ∧
      (Agree .checkSequences w w' root root' → c.checkSequences = c'.checkSequences) ∧
      (Agree .exclude w w' root root' → o.exclude = o'.exclude → c.exclude = c'.exclude) ∧
      (root = root' → c.root = c'.root) := by
  constructor
  · intro loaded h
    exact ⟨_, loadWith_eq_ok_iff.mpr ⟨loaded, h, rfl⟩, layered_of_load h o⟩
  · intro w' root' o' c c' h h'
    obtain ⟨loaded, hl, rfl⟩ := loadWith_eq_ok_iff.mp h
    obtain ⟨loaded', hl', rfl⟩ := loadWith_eq_ok_iff.mp h'
    have hc := layered_of_load hl o
    have hc' := layered_of_load hl' o'
    refine ⟨?_, ?_, ?_, ?_, ?_⟩
    · intro ha ho
      exact eq_of_agree ha hc.fibonacciLimit (ho ▸ hc'.fibonacciLimit)
    · intro ha ho
      exact eq_of_agree ha hc.checkMaxN (ho ▸ hc'.checkMaxN)
    · intro ha
      exact eq_of_agree ha hc.checkSequences hc'.checkSequences
    · intro ha ho
      obtain ⟨listed, hd, hx⟩ := hc.exclude
      obtain ⟨listed', hd', hx'⟩ := hc'.exclude
      obtain rfl := eq_of_agree ha hd hd'
      rw [hx, hx', ho]
    · rintro rfl
      rw [hc.root_eq, hc'.root_eq]

theorem layers_decide_each_field_instances :
    let own : Entry := .file "fibonacci_limit = 25\nexclude = []\n".toUTF8
    let manifest : Entry :=
      .file "[package.metadata.fixtures]\ncheck_max_n = 3\nexclude = ['sum']\n".toUTF8
    let w : Workspace :=
      { current := "/corpus"
        entry := fun p => if p = "/corpus/fixtures.toml" then own
          else if p = "/corpus/Cargo.toml" then manifest else .absent }
    let w' : Workspace :=
      { current := "/corpus"
        entry := fun p => if p = "/corpus/fixtures.toml" then own else .absent }
    let o : Overrides := { exclude := [.sum, .factorial, .sum] }
    load w "/corpus" = .ok { fibonacciLimit := 25, checkMaxN := 3, root := "/corpus" } ∧
      (∃ c, loadWith w "/corpus" o = .ok c ∧ Layered w "/corpus" o c) ∧
      ∃ c c', loadWith w "/corpus" o = .ok c ∧ loadWith w' "/corpus" {} = .ok c' ∧
        Agree .fibonacciLimit w w' "/corpus" "/corpus" ∧ c.fibonacciLimit = c'.fibonacciLimit ∧
        c.checkMaxN ≠ c'.checkMaxN ∧ c.exclude ≠ c'.exclude := by
  intro own manifest w w' o
  have hl : load w "/corpus" =
      .ok { fibonacciLimit := 25, checkMaxN := 3, root := "/corpus" } := by decide +kernel
  have ho : loadWith w "/corpus" o =
      .ok { fibonacciLimit := 25, checkMaxN := 3, exclude := [.sum, .factorial],
            root := "/corpus" } := by
    rw [loadWith, hl]
    rfl
  have ho' : loadWith w' "/corpus" {} = .ok { fibonacciLimit := 25, root := "/corpus" } := by
    decide +kernel
  have ha : Agree .fibonacciLimit w w' "/corpus" "/corpus" := by
    have hm : Field.fibonacciLimit.manifest? w "/corpus" = none := by decide +kernel
    have hm' : Field.fibonacciLimit.manifest? w' "/corpus" = none := by decide +kernel
    have hp : joinPath "/corpus" settingsName = "/corpus/fixtures.toml" := by decide +kernel
    refine ⟨?_, hm.trans hm'.symm⟩
    simp only [Field.own?, hp, w, w', if_pos]
  have h := layers_decide_each_field w "/corpus" o
  exact ⟨hl, h.1 _ hl, _, _, ho, ho', ha, (h.2 _ _ _ _ _ ho ho').1 ha rfl, by decide, by decide⟩

end Settings

end RoutineCorpus
