import RoutineCorpus.Settings.Basic
import RoutineCorpus.Toml.Value

/-! # Settings in TOML

A layer is a table of known keys, or an array that gives the same fields by
position. In a package manifest it stands at `package.metadata.fixtures`, where
the records on the way may be given by position too.
-/

namespace RoutineCorpus

open Toml (Value)

namespace Decode

def uint32? : Value → Option UInt32
  | .integer n => if 0 ≤ n ∧ n < UInt32.size then some (.ofNat n.toNat) else none
  | _ => none

def int64? : Value → Option Int64
  | .integer n => if Int64.minValue.toInt ≤ n ∧ n ≤ Int64.maxValue.toInt then some (.ofInt n) else none
  | _ => none

def list? {α : Type} (item? : Value → Option α) : Value → Option (List α)
  | .array vs => vs.mapM item?
  | _ => none

/-- A family is its name, or a table with its name as the only key and nothing under it. -/
def family? : Value → Option Family
  | .text s => Family.ofName? s
  | .table [(s, .table [])] => Family.ofName? s
  | .table [(s, .array [])] => Family.ofName? s
  | _ => none

end Decode

namespace Layer

open Decode

def keys : List String := ["fibonacci_limit", "check_max_n", "check_sequences", "exclude"]

/-- Decode the fields that are there. -/
def ofFields? (limit maxN sequences exclude : Option Value) : Option Layer := do
  return { fibonacciLimit := ← limit.mapM uint32?
           checkMaxN := ← maxN.mapM uint32?
           checkSequences := ← sequences.mapM (list? (list? int64?))
           exclude := ← exclude.mapM (list? family?) }

/-- A table gives a layer only if all its keys are known. -/
def ofTable? (es : List (String × Value)) : Option Layer :=
  if es.all fun e => keys.contains e.1 then
    ofFields? (es.lookup "fibonacci_limit") (es.lookup "check_max_n")
      (es.lookup "check_sequences") (es.lookup "exclude")
  else none

/-- Elements beyond the last field do not count. -/
def ofArray? (vs : List Value) : Option Layer :=
  ofFields? vs[0]? vs[1]? vs[2]? vs[3]?

def ofValue? : Value → Option Layer
  | .table es => ofTable? es
  | .array vs => ofArray? vs
  | _ => none

/-- The only field of a record. Other entries of a table do not count, but they have to be usable;
elements after the first are not looked at. The outer `none` means that the value is no record. -/
def field? (key : String) : Value → Option (Option Value)
  | .table es => if es.all fun e => e.1 == key || e.2.usable then some (es.lookup key) else none
  | .array vs => some vs.head?
  | _ => none

/-- The layer in a package manifest, which is empty if the manifest has none. -/
def ofManifest? (es : List (String × Value)) : Option Layer := do
  let some package ← field? "package" (.table es) | return {}
  let some metadata ← field? "metadata" package | return {}
  let some layer ← field? "fixtures" metadata | return {}
  ofValue? layer

end Layer

end RoutineCorpus
