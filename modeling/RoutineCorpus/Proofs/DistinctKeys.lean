import Mathlib.Data.List.Nodup
import RoutineCorpus.Proofs.Prelude
import RoutineCorpus.Toml.Document

/-! # Tables without repeated keys

Whatever an expression of a document does to a table, it adds a key only if the
table does not have it. So the tables that are read, at any depth, have no key
twice, and what stands under a key does not depend on the order of the keys.
-/

namespace RoutineCorpus.Toml

def Keyed {α : Type} (es : List (String × α)) : Prop := (es.map Prod.fst).Nodup

instance {α : Type} (es : List (String × α)) : Decidable (Keyed es) :=
  inferInstanceAs (Decidable (List.Nodup _))

section Lookup

variable {α : Type} {es fs : List (String × α)} {k : String} {x : α}

theorem Keyed.lookup_eq_some_iff (h : Keyed es) : es.lookup k = some x ↔ (k, x) ∈ es := by
  refine ⟨mem_of_lookup_eq_some, fun hx => ?_⟩
  obtain ⟨front, back, rfl⟩ := List.append_of_mem hx
  refine List.lookup_eq_some_iff.mpr ⟨front, back, rfl, fun e he => ?_⟩
  rw [Keyed, List.map_append, List.nodup_append] at h
  rw [bne_iff_ne]
  exact (h.2.2 e.1 (List.mem_map_of_mem he) k (by simp)).symm

theorem Keyed.perm (h : Keyed es) (hp : es.Perm fs) : Keyed fs :=
  (hp.map Prod.fst).nodup_iff.mp h

/-- What stands under a key does not depend on the order. -/
theorem Keyed.lookup_perm (h : Keyed es) (hp : es.Perm fs) (k : String) :
    es.lookup k = fs.lookup k := by
  ext x
  rw [h.lookup_eq_some_iff, (h.perm hp).lookup_eq_some_iff, hp.mem_iff]

end Lookup

/-! ## Values -/

def Value.isScalar : Value → Bool
  | .array _ | .table _ => false
  | _ => true

/-- No table in the value, at any depth, has a key twice. -/
inductive Value.Distinct : Value → Prop
  | scalar {v : Value} (h : v.isScalar = true) : Distinct v
  | array {vs : List Value} (h : ∀ v ∈ vs, Distinct v) : Distinct (.array vs)
  | table {es : List (String × Value)} (hk : Keyed es) (h : ∀ e ∈ es, Distinct e.2) :
      Distinct (.table es)

namespace Value

theorem distinct_array_iff {vs : List Value} :
    (Value.array vs).Distinct ↔ ∀ v ∈ vs, v.Distinct := by
  constructor
  · rintro (h | h | _)
    · cases h
    · exact h
  · exact .array

theorem distinct_table_iff {es : List (String × Value)} :
    (Value.table es).Distinct ↔ Keyed es ∧ ∀ e ∈ es, e.2.Distinct := by
  constructor
  · rintro (h | _ | ⟨hk, h⟩)
    · cases h
    · exact ⟨hk, h⟩
  · rintro ⟨hk, h⟩
    exact .table hk h

theorem Distinct.lookup {es : List (String × Value)} {k : String} {v : Value}
    (h : (Value.table es).Distinct) (hv : es.lookup k = some v) : v.Distinct :=
  (distinct_table_iff.mp h).2 _ (mem_of_lookup_eq_some hv)

end Value

theorem isScalar_of_ofWord? {cs : List Char} {v : Value} (h : ofWord? cs = some v) :
    v.isScalar = true := by
  have hb : ∀ {c : Prop} [Decidable c] {a b : Value}, a.isScalar = true → b.isScalar = true →
      (if c then a else b).isScalar = true := by
    intro c _ a b ha hb
    split
    · exact ha
    · exact hb
  have hi : ∀ w, integer? cs = some w → w.isScalar = true := by
    intro w hw
    obtain ⟨n, -, rfl⟩ := Option.map_eq_some_iff.mp hw
    exact hb rfl rfl
  have hr : ∀ w, real? cs = some w → w.isScalar = true := by
    intro w hw
    obtain ⟨l, -, rfl⟩ := Option.map_eq_some_iff.mp hw
    exact hb rfl rfl
  have hl : ∀ w, loose? cs = some w → w.isScalar = true := by
    intro w hw
    rw [loose?, Option.ite_none_right_eq_some] at hw
    obtain rfl := Option.some.inj hw.2
    rfl
  unfold ofWord? at h
  split at h
  · cases h
    rfl
  split at h
  · cases h
    rfl
  split at h
  · cases h
    rfl
  simp only [Option.orElse_eq_orElse, Option.orElse_eq_or, Option.or_eq_some_iff] at h
  rcases h with h | ⟨-, h | ⟨-, h⟩⟩
  · exact hi v h
  · exact hr v h
  · exact hl v h

/-! ## Tables under construction -/

theorem toValues_eq (es : Entries) : toValues es = es.map fun e => (e.1, e.2.toValue) := by
  induction es with
  | nil => rfl
  | cons e es ih => rw [toValues, ih, List.map_cons]

theorem allToValues_eq (ess : List Entries) :
    allToValues ess = ess.map fun es => .table (toValues es) := by
  induction ess with
  | nil => rfl
  | cons es ess ih => rw [allToValues, ih, List.map_cons]

namespace Entries

def Distinct (es : Entries) : Prop := (Value.table (toValues es)).Distinct

variable {es es' sub : Entries} {k : String} {n : Node}

theorem distinct_iff : es.Distinct ↔ Keyed es ∧ ∀ e ∈ es, e.2.toValue.Distinct := by
  rw [Distinct, Value.distinct_table_iff, toValues_eq, List.forall_mem_map, Keyed, List.map_map]
  rfl

theorem distinct_nil : Distinct [] := distinct_iff.mpr ⟨List.nodup_nil, by simp⟩

theorem distinct_tables_iff {done : List Entries} {last : Entries} :
    (Node.tables done last).toValue.Distinct ↔ (∀ es ∈ done, Distinct es) ∧ last.Distinct := by
  rw [Node.toValue, Value.distinct_array_iff, allToValues_eq, List.forall_mem_append]
  simp [Distinct]

theorem Distinct.append (h : es.Distinct) (hk : es.lookup k = none) (hn : n.toValue.Distinct) :
    Distinct (es ++ [(k, n)]) := by
  rw [distinct_iff] at h ⊢
  refine ⟨?_, ?_⟩
  · rw [Keyed, List.map_append, List.map_singleton, ← List.concat_eq_append]
    exact h.1.concat (lookup_eq_none_iff_notMem.mp hk)
  · rw [List.forall_mem_append, List.forall_mem_singleton]
    exact ⟨h.2, hn⟩

theorem Distinct.replace (h : es.Distinct) (hn : n.toValue.Distinct) :
    (es.replace k n).Distinct := by
  have hk : (es.replace k n).map Prod.fst = es.map Prod.fst := by
    rw [Entries.replace, List.map_map]
    apply List.map_congr_left
    intro e _
    by_cases he : e.1 = k <;> simp [he]
  rw [distinct_iff] at h ⊢
  refine ⟨?_, ?_⟩
  · rw [Keyed, hk]
    exact h.1
  · intro e he
    obtain ⟨d, hd, rfl⟩ := List.mem_map.mp he
    split
    · exact hn
    · exact h.2 d hd

theorem Distinct.lookup (h : es.Distinct) (hk : es.lookup k = some n) : n.toValue.Distinct :=
  (distinct_iff.mp h).2 _ (mem_of_lookup_eq_some hk)

/-- A change that keeps tables free of repeated keys may be made at the end of any path. -/
theorem Distinct.modifyAt {dotted : Bool} {change : Origin → Entries → Option Entries}
    (hc : ∀ origin es es', Distinct es → change origin es = some es' → Distinct es')
    {origin : Origin} {path : List String} (h : es.Distinct)
    (hm : es.modifyAt dotted change origin path = some es') : es'.Distinct := by
  induction path generalizing origin es es' with
  | nil => exact hc origin es es' h hm
  | cons k ks ih =>
    unfold Entries.modifyAt at hm
    split at hm
    · rename_i hk
      obtain ⟨sub, hs, he⟩ := Option.bind_eq_some_iff.mp hm
      cases he
      exact h.append hk (ih distinct_nil hs)
    · rename_i o sub hk
      split at hm
      · cases hm
      · obtain ⟨sub', hs, he⟩ := Option.bind_eq_some_iff.mp hm
        cases he
        exact h.replace (ih (h.lookup hk) hs)
    · rename_i done last hk
      obtain ⟨last', hs, he⟩ := Option.bind_eq_some_iff.mp hm
      cases he
      obtain ⟨hdone, hlast⟩ := distinct_tables_iff.mp (h.lookup hk)
      exact h.replace (distinct_tables_iff.mpr ⟨hdone, ih hlast hs⟩)
    · cases hm

theorem Distinct.add (h : es.Distinct) (hn : n.toValue.Distinct) (ha : es.add k n = some es') :
    es'.Distinct := by
  unfold Entries.add at ha
  split at ha
  · cases ha
  · rename_i hk
    cases ha
    exact h.append (Option.not_isSome_iff_eq_none.mp hk) hn

theorem Distinct.put {path : List String} {v : Value} (h : es.Distinct) (hv : v.Distinct)
    (hp : es.put path k v = some es') : es'.Distinct := by
  refine h.modifyAt (fun origin es es' h hc => ?_) hp
  split at hc
  · cases hc
  · exact h.add (n := .leaf v) hv hc

theorem Distinct.openTable {path : List String} (h : es.Distinct)
    (ho : es.openTable path k = some es') : es'.Distinct := by
  refine h.modifyAt (fun origin es es' h hc => ?_) ho
  split at hc
  · rename_i hk
    cases hc
    exact h.append hk distinct_nil
  · rename_i sub hk
    cases hc
    exact h.replace (n := .table .header sub) (h.lookup (n := .table .implied sub) hk)
  · cases hc

theorem Distinct.openTables {path : List String} (h : es.Distinct)
    (ho : es.openTables path k = some es') : es'.Distinct := by
  refine h.modifyAt (fun origin es es' h hc => ?_) ho
  split at hc
  · rename_i hk
    cases hc
    exact h.append hk (distinct_tables_iff.mpr ⟨by simp, distinct_nil⟩)
  · rename_i done last hk
    cases hc
    obtain ⟨hdone, hlast⟩ := distinct_tables_iff.mp (h.lookup hk)
    refine h.replace (distinct_tables_iff.mpr ⟨?_, distinct_nil⟩)
    rw [List.forall_mem_append, List.forall_mem_singleton]
    exact ⟨hdone, hlast⟩
  · cases hc

theorem Distinct.putAt {header path : List String} {v : Value} (h : es.Distinct) (hv : v.Distinct)
    (hp : es.putAt header path k v = some es') : es'.Distinct :=
  h.modifyAt (fun _ _ _ h hc => h.put hv hc) hp

end Entries

/-! ## Reading -/

def ReadsDistinct (item? : List Char → Option (Value × List Char)) : Prop :=
  ∀ cs v rest, item? cs = some (v, rest) → v.Distinct

section Compound

variable {item? : List Char → Option (Value × List Char)} {fuel : Nat} {cs rest : List Char}

theorem ReadsDistinct.elements (hi : ReadsDistinct item?) {vs : List Value}
    (h : elements item? fuel cs = some (vs, rest)) : ∀ v ∈ vs, v.Distinct := by
  induction fuel generalizing cs vs rest with
  | zero => cases h
  | succ fuel ih =>
    rw [Toml.elements] at h
    obtain ⟨ds, -, h⟩ := Option.bind_eq_some_iff.mp h
    split at h
    · cases h
      simp
    · obtain ⟨⟨v, ds⟩, hv, h⟩ := Option.bind_eq_some_iff.mp h
      obtain ⟨ds, -, h⟩ := Option.bind_eq_some_iff.mp h
      split at h
      · obtain ⟨⟨ws, ds⟩, hws, h⟩ := Option.bind_eq_some_iff.mp h
        cases h
        exact List.forall_mem_cons.mpr ⟨hi _ _ _ hv, ih hws⟩
      · cases h
        exact List.forall_mem_singleton.mpr (hi _ _ _ hv)
      · cases h

theorem ReadsDistinct.pairs (hi : ReadsDistinct item?) {ps : List (Key × Value)}
    (h : pairs item? fuel cs = some (ps, rest)) : ∀ p ∈ ps, p.2.Distinct := by
  induction fuel generalizing cs ps rest with
  | zero => cases h
  | succ fuel ih =>
    rw [Toml.pairs] at h
    obtain ⟨ds, -, h⟩ := Option.bind_eq_some_iff.mp h
    split at h
    · cases h
      simp
    · obtain ⟨⟨k, ds⟩, -, h⟩ := Option.bind_eq_some_iff.mp h
      obtain ⟨ds, -, h⟩ := Option.bind_eq_some_iff.mp h
      split at h
      · obtain ⟨⟨v, ds⟩, hv, h⟩ := Option.bind_eq_some_iff.mp h
        obtain ⟨_, -, hv⟩ := Option.bind_eq_some_iff.mp hv
        obtain ⟨ds, -, h⟩ := Option.bind_eq_some_iff.mp h
        split at h
        · obtain ⟨⟨qs, ds⟩, hqs, h⟩ := Option.bind_eq_some_iff.mp h
          cases h
          exact List.forall_mem_cons.mpr ⟨hi _ _ _ hv, ih hqs⟩
        · cases h
          exact List.forall_mem_singleton.mpr (hi _ _ _ hv)
        · cases h
      · cases h

end Compound

theorem distinct_of_inlineTable? {ps : List (Key × Value)} {v : Value}
    (hp : ∀ p ∈ ps, p.2.Distinct) (h : inlineTable? ps = some v) : v.Distinct := by
  obtain ⟨es, hes, h⟩ := Option.bind_eq_some_iff.mp h
  cases h
  exact foldlM_keeps (P := Entries.Distinct) (fun p hmem _ _ h hs => h.put (hp p hmem) hs)
    Entries.distinct_nil hes

theorem distinct_of_scalar {cs : List Char} {v : Value} {rest : List Char}
    (h : (match quoted? cs with
      | some (s, cs) => some (.text (String.ofList s), cs)
      | none => unquoted? cs) = some (v, rest)) : v.Distinct := by
  split at h
  · cases h
    exact .scalar rfl
  · obtain ⟨w, hw, h⟩ := Option.bind_eq_some_iff.mp h
    cases h
    exact .scalar (isScalar_of_ofWord? hw)

theorem readsDistinct_value? (depth : Nat) : ReadsDistinct (value? depth) := by
  induction depth using Nat.strongRecOn with
  | ind depth ih =>
    intro cs v rest h
    unfold value? at h
    split at h
    · cases h
    · cases h
    · rename_i depth _
      obtain ⟨⟨vs, ds⟩, hvs, h⟩ := Option.bind_eq_some_iff.mp h
      cases h
      exact .array ((ih depth (Nat.lt_succ_self depth)).elements hvs)
    · rename_i depth _
      obtain ⟨⟨ps, ds⟩, hps, h⟩ := Option.bind_eq_some_iff.mp h
      obtain ⟨w, hw, h⟩ := Option.bind_eq_some_iff.mp h
      cases h
      exact distinct_of_inlineTable? ((ih depth (Nat.lt_succ_self depth)).pairs hps) hw
    · exact distinct_of_scalar h

def Expression.Distinct : Expression → Prop
  | .pair _ v => v.Distinct
  | _ => True

theorem distinct_of_expression? {cs rest : List Char} {e : Expression}
    (h : expression? cs = some (e, rest)) : e.Distinct := by
  unfold expression? at h
  split at h
  · obtain ⟨⟨k, ds⟩, -, h⟩ := Option.bind_eq_some_iff.mp h
    dsimp only at h
    split at h <;> cases h
    trivial
  · obtain ⟨⟨k, ds⟩, -, h⟩ := Option.bind_eq_some_iff.mp h
    dsimp only at h
    split at h <;> cases h
    trivial
  · obtain ⟨⟨k, ds⟩, -, h⟩ := Option.bind_eq_some_iff.mp h
    dsimp only at h
    split at h
    · obtain ⟨⟨v, ds⟩, hv, h⟩ := Option.bind_eq_some_iff.mp h
      cases h
      exact readsDistinct_value? _ _ _ _ hv
    · cases h

theorem distinct_of_expressionsRest {fuel : Nat} {cs : List Char} {es : List Expression}
    (h : expressionsRest fuel cs = some es) : ∀ e ∈ es, e.Distinct := by
  induction fuel generalizing cs es with
  | zero => cases h
  | succ fuel ih =>
    rw [expressionsRest] at h
    obtain ⟨ds, -, h⟩ := Option.bind_eq_some_iff.mp h
    split at h
    · cases h
      simp
    · obtain ⟨⟨e, ds⟩, he, h⟩ := Option.bind_eq_some_iff.mp h
      obtain ⟨ds, -, h⟩ := Option.bind_eq_some_iff.mp h
      obtain ⟨es, hes, h⟩ := Option.bind_eq_some_iff.mp h
      cases h
      exact List.forall_mem_cons.mpr ⟨distinct_of_expression? he, ih hes⟩

theorem Draft.distinct_of_add? {d d' : Draft} {e : Expression} (hd : d.entries.Distinct)
    (he : e.Distinct) (h : d.add? e = some d') : d'.entries.Distinct := by
  cases e with
  | pair k v =>
    obtain ⟨es, hes, h⟩ := Option.bind_eq_some_iff.mp h
    cases h
    exact hd.putAt he hes
  | header k =>
    obtain ⟨es, hes, h⟩ := Option.bind_eq_some_iff.mp h
    cases h
    exact hd.openTable hes
  | arrayHeader k =>
    obtain ⟨es, hes, h⟩ := Option.bind_eq_some_iff.mp h
    cases h
    exact hd.openTables hes

/-- No table of a document, at any depth, has a key twice. -/
theorem distinct_of_read {s : String} {es : List (String × Value)} (h : read s = some es) :
    (Value.table es).Distinct := by
  obtain ⟨xs, hxs, h⟩ := Option.bind_eq_some_iff.mp h
  obtain ⟨d, hd, h⟩ := Option.bind_eq_some_iff.mp h
  cases h
  exact foldlM_keeps (P := fun d : Draft => d.entries.Distinct)
    (fun e he _ _ hd h => Draft.distinct_of_add? hd (distinct_of_expressionsRest hxs e he) h)
    Entries.distinct_nil hd

end RoutineCorpus.Toml
