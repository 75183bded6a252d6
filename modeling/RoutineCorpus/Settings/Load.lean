import RoutineCorpus.Settings.Decode
import RoutineCorpus.Toml.Document
import RoutineCorpus.Workspace

/-! # Loading settings

Settings are looked for in a directory, first in the package manifest and then
in a file of their own. A manifest that cannot be used counts as none; a
settings file that is there has to be right.
-/

namespace RoutineCorpus

def manifestName : String := "Cargo.toml"

def settingsName : String := "fixtures.toml"

/-- What the manifest gives, if all of it can be read. -/
def Layer.ofManifestEntry (e : Entry) : Layer :=
  let layer : Option Layer := do
    let .ok s ← e.text? | none
    Layer.ofManifest? (← Toml.read s)
  layer.getD {}

/-- What the settings file gives, which is nothing if there is no such file. -/
def Layer.ofSettingsEntry (diagnosis : String → String) (path : String) (e : Entry) :
    Except Error Layer :=
  match e.text? with
  | none => .ok {}
  | some (.error fault) => .error (.unreadable fault)
  | some (.ok s) => okOr (.malformedSettings path (diagnosis s)) ((Toml.read s).bind Layer.ofTable?)

namespace Settings

def load (w : Workspace) (root : String) : Except Error Settings := do
  let manifest := Layer.ofManifestEntry (w.entry (joinPath root manifestName))
  let path := joinPath root settingsName
  let own ← Layer.ofSettingsEntry w.diagnosis path (w.entry path)
  return (applyLayer { root := root } manifest).applyLayer own

/-- Load settings and apply overrides. -/
def loadWith (w : Workspace) (root : String) (o : Overrides) : Except Error Settings :=
  (load w root).map (·.applyOverrides o)

end Settings

end RoutineCorpus
