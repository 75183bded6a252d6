/-! # TOML values

What a TOML document says, once it has been read. Tables keep their keys in the
order of the document. A number may be written so that it is accepted and yet
has no value; that is a fault only where the value is asked for.
-/

namespace RoutineCorpus.Toml

inductive Value where
  | text (s : String)
  | integer (n : Int)
  | real (x : Float)
  /-- A number that is too large, or not made of digits throughout. -/
  | unusable (s : String)
  | boolean (b : Bool)
  /-- A date, a time of day, or both. -/
  | moment (s : String)
  | array (elements : List Value)
  | table (entries : List (String × Value))

mutual

/-- Values are the same throughout. Two doubles are if they are one double, not if they compare as
equal. -/
def Value.equals : Value → Value → Bool
  | .text s, .text t | .unusable s, .unusable t | .moment s, .moment t => s == t
  | .integer m, .integer n => m == n
  | .real x, .real y => decide (x = y)
  | .boolean a, .boolean b => a == b
  | .array vs, .array ws => allEqual vs ws
  | .table es, .table fs => entriesEqual es fs
  | _, _ => false

def allEqual : List Value → List Value → Bool
  | [], [] => true
  | v :: vs, w :: ws => v.equals w && allEqual vs ws
  | _, _ => false

def entriesEqual : List (String × Value) → List (String × Value) → Bool
  | [], [] => true
  | (k, v) :: es, (l, w) :: fs => k == l && v.equals w && entriesEqual es fs
  | _, _ => false

end

mutual

theorem Value.equals_iff (v w : Value) : v.equals w = true ↔ v = w := by
  cases v with
  | array vs => cases w <;> simp [Value.equals, allEqual_iff vs]
  | table es => cases w <;> simp [Value.equals, entriesEqual_iff es]
  | _ => cases w <;> simp [Value.equals]

theorem allEqual_iff (vs ws : List Value) : allEqual vs ws = true ↔ vs = ws := by
  match vs, ws with
  | [], ws => cases ws <;> simp [allEqual]
  | v :: vs, [] => simp [allEqual]
  | v :: vs, w :: ws => simp [allEqual, v.equals_iff, allEqual_iff vs]

theorem entriesEqual_iff (es fs : List (String × Value)) :
    entriesEqual es fs = true ↔ es = fs := by
  match es, fs with
  | [], fs => cases fs <;> simp [entriesEqual]
  | e :: es, [] => simp [entriesEqual]
  | (k, v) :: es, (l, w) :: fs => simp [entriesEqual, v.equals_iff, entriesEqual_iff es]

end

instance : DecidableEq Value := fun v w => decidable_of_iff _ (v.equals_iff w)

mutual

/-- All numbers in a value, at any depth, have values. -/
def Value.usable : Value → Bool
  | .unusable _ => false
  | .array vs => allUsable vs
  | .table es => entriesUsable es
  | _ => true

def allUsable : List Value → Bool
  | [] => true
  | v :: vs => v.usable && allUsable vs

def entriesUsable : List (String × Value) → Bool
  | [] => true
  | (_, v) :: es => v.usable && entriesUsable es

end

end RoutineCorpus.Toml
