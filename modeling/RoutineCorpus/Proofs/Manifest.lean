import RoutineCorpus.Proofs.Layering

/-! # Manifests, good and bad

Loading settings can fail only over the settings file. A manifest is taken as a
whole or not at all: one that cannot be decoded counts as none. Of a manifest
that can be decoded only one section counts, up to the order of its keys.
-/

namespace RoutineCorpus

/-! ## The order of keys -/

namespace Decode

variable {v w : Toml.Value}

end Decode

namespace Layer

end Layer

/-! ## The settings file -/

namespace Entry

variable {e : Entry} {s : String}

theorem text?_eq_ok_iff : e.text? = some (.ok s) ↔ e = .file s.toUTF8 := by
  cases e with
  | file content =>
    rw [file.injEq, ← fromUTF8?_eq_some_iff, text?]
    cases String.fromUTF8? content <;> simp
  | _ => simp [text?]

end Entry

namespace Layer

variable {diagnosis : String → String} {path : String} {e : Entry}

end Layer

/-! ## The manifest -/

namespace Settings

variable {w w' : Workspace} {root : String}

end Settings

structure Located (es package metadata : List (String × Toml.Value)) : Prop where
  package_eq : es.lookup "package" = some (.table package)
  metadata_eq : package.lookup "metadata" = some (.table metadata)

def usableBeside (key : String) (es : List (String × Toml.Value)) : Bool :=
  es.all fun e => e.1 == key || e.2.usable

/-- All that is in a manifest outside the section `package.metadata.fixtures` is usable. -/
def usableAround (es package metadata : List (String × Toml.Value)) : Bool :=
  usableBeside "package" es && usableBeside "metadata" package && usableBeside "fixtures" metadata

namespace Layer

variable {es package metadata : List (String × Toml.Value)}

theorem field?_table (key : String) (es : List (String × Toml.Value)) :
    field? key (.table es) = if usableBeside key es then some (es.lookup key) else none := rfl

theorem ofManifest?_of_located (h : Located es package metadata) :
    ofManifest? es = if usableAround es package metadata then
      (metadata.lookup "fixtures").elim (some {}) ofValue? else none := by
  obtain ⟨hpe, hme⟩ := h
  cases hu : usableBeside "package" es with
  | false => simp [ofManifest?, field?_table, usableAround, hu]
  | true =>
    cases hp : usableBeside "metadata" package with
    | false => simp [ofManifest?, field?_table, usableAround, hu, hp, hpe]
    | true =>
      cases hm : usableBeside "fixtures" metadata with
      | false => simp [ofManifest?, field?_table, usableAround, hu, hp, hm, hpe, hme]
      | true =>
        cases hf : metadata.lookup "fixtures" <;>
          simp [ofManifest?, field?_table, usableAround, hu, hp, hm, hpe, hme, hf]

end Layer

namespace Settings

variable {w : Workspace} {root : String}

def sectionEntry (fields : List (String × Toml.Value)) : String × Toml.Value :=
  ("package", .table [("metadata", .table [("fixtures", .table fields)])])

theorem read_section :
    Toml.read "package.metadata.fixtures={check_max_n=8,exclude=[]}" =
      some [sectionEntry [("check_max_n", .integer 8), ("exclude", .array [])]] := by
  decide +kernel

end Settings

end RoutineCorpus
