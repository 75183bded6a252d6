import RoutineCorpus.Toml.Value

/-! # Building TOML tables

A table may be written in several places, within limits. A header opens a table
once, though tables on the way to another header or along a dotted key may
exist before. Dotted keys extend only tables that dotted keys have made. Values,
and with them inline tables, are never extended.
-/

namespace RoutineCorpus.Toml

/-- What made a table. -/
inductive Origin where
  /-- The path of a header passes through it. -/
  | implied
  /-- A dotted key passes through it. -/
  | dotted
  | header
  deriving DecidableEq, Repr

/-- A table or value under construction. -/
inductive Node where
  | leaf (v : Value)
  | table (origin : Origin) (entries : List (String × Node))
  /-- Tables that repeat a header in double brackets; the last one is still open. -/
  | tables (done : List (List (String × Node))) (last : List (String × Node))

abbrev Entries := List (String × Node)

mutual

def Node.toValue : Node → Value
  | .leaf v => v
  | .table _ es => .table (toValues es)
  | .tables done last => .array (allToValues done ++ [.table (toValues last)])

def toValues : List (String × Node) → List (String × Value)
  | [] => []
  | (k, n) :: es => (k, n.toValue) :: toValues es

def allToValues : List (List (String × Node)) → List Value
  | [] => []
  | es :: ess => .table (toValues es) :: allToValues ess

end

namespace Entries

def replace (es : Entries) (k : String) (n : Node) : Entries :=
  es.map fun e => if e.1 = k then (k, n) else e

/-- Follow a path, making tables on the way, and change the table at its end. The change is told
what made that table. -/
def modifyAt (dotted : Bool) (change : Origin → Entries → Option Entries) :
    Origin → List String → Entries → Option Entries
  | origin, [], es => change origin es
  | _, k :: ks, es =>
    match es.lookup k with
    | none => do
      let origin := if dotted then .dotted else .implied
      let sub ← modifyAt dotted change origin ks []
      return es ++ [(k, .table origin sub)]
    | some (.table origin sub) => do
      if dotted && origin = .header then none
      let sub ← modifyAt dotted change origin ks sub
      return es.replace k (.table origin sub)
    | some (.tables done last) => do
      let last ← modifyAt dotted change .header ks last
      return es.replace k (.tables done last)
    | some (.leaf _) => none

/-- Add a key that is not there yet. -/
def add (es : Entries) (k : String) (n : Node) : Option Entries :=
  if (es.lookup k).isSome then none else some (es ++ [(k, n)])

/-- Set a value. A dotted key leads to a table that dotted keys have made. -/
def put (es : Entries) (path : List String) (k : String) (v : Value) : Option Entries :=
  modifyAt true (fun origin es =>
    if path ≠ [] && origin ≠ .dotted then none else es.add k (.leaf v)) .header path es

/-- Open a table by its header. -/
def openTable (es : Entries) (path : List String) (k : String) : Option Entries :=
  modifyAt false (fun _ es =>
    match es.lookup k with
    | none => some (es ++ [(k, .table .header [])])
    | some (.table .implied sub) => some (es.replace k (.table .header sub))
    | some _ => none) .header path es

/-- Open one more table of an array by its header. -/
def openTables (es : Entries) (path : List String) (k : String) : Option Entries :=
  modifyAt false (fun _ es =>
    match es.lookup k with
    | none => some (es ++ [(k, .tables [] [])])
    | some (.tables done last) => some (es.replace k (.tables (done ++ [last]) []))
    | some _ => none) .header path es

/-- Set a value in the table at the end of a header's path. -/
def putAt (es : Entries) (header path : List String) (k : String) (v : Value) : Option Entries :=
  modifyAt false (fun _ es => es.put path k v) .header header es

end Entries

end RoutineCorpus.Toml
