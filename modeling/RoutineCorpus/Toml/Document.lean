import RoutineCorpus.Toml.Table
import RoutineCorpus.Toml.Text

/-! # TOML documents

A document is a list of expressions, one to a line: headers, and keys with their
values. Reading goes from left to right over the characters and then builds the
tables that the expressions describe.
-/

namespace RoutineCorpus.Toml

/-- A key with the keys before it, where it is dotted. -/
structure Key where
  path : List String
  name : String
  deriving DecidableEq, Repr

inductive Expression where
  | pair (key : Key) (value : Value)
  | header (key : Key)
  | arrayHeader (key : Key)

/-- Arrays and inline tables may be nested no deeper, and a key has no more parts. -/
def maxDepth : Nat := 80

/-! ## Blanks, comments and line ends -/

/-- What follows a comment: the end of its line or of the document. -/
def afterComment? : List Char → Option (List Char)
  | [] => some []
  | '\n' :: cs => some ('\n' :: cs)
  | '\r' :: '\n' :: cs => some ('\n' :: cs)
  | c :: cs => if isText c then afterComment? cs else none

/-- Skip blanks, line ends and comments; the flag says that a comment is open. -/
def skipLines? : Bool → List Char → Option (List Char)
  | _, [] => some []
  | _, '\n' :: cs => skipLines? false cs
  | _, '\r' :: '\n' :: cs => skipLines? false cs
  | true, c :: cs => if isText c then skipLines? true cs else none
  | false, '#' :: cs => skipLines? true cs
  | false, c :: cs => if isBlank c then skipLines? false cs else some (c :: cs)

def skip? (cs : List Char) : Option (List Char) := skipLines? false cs

def skipBlanks (cs : List Char) : List Char := cs.dropWhile isBlank

/-- An expression takes the rest of its line, blanks and a comment apart. -/
def lineEnd? (cs : List Char) : Option (List Char) :=
  let ended : List Char → Option (List Char)
    | [] => some []
    | '\n' :: cs => some cs
    | '\r' :: '\n' :: cs => some cs
    | _ => none
  match skipBlanks cs with
  | '#' :: cs => afterComment? cs >>= ended
  | cs => ended cs

/-! ## Keys -/

def inBareKey (c : Char) : Bool := c.isAlphanum || c = '-' || c = '_'

/-- Read one key. Triple quotes do not make a key. -/
def simpleKey? : List Char → Option (String × List Char)
  | '"' :: '"' :: '"' :: _ => none
  | '\x27' :: '\x27' :: '\x27' :: _ => none
  | cs =>
    match line? cs with
    | some (s, rest) => some (String.ofList s, rest)
    | none =>
      match cs.span inBareKey with
      | ([], _) => none
      | (s, rest) => some (String.ofList s, rest)

/-- Read a key of at most so many parts, after those of the path. -/
def keyRest : Nat → List String → List Char → Option (Key × List Char)
  | 0, _, _ => none
  | parts + 1, path, cs => do
    let (k, cs) ← simpleKey? cs
    match skipBlanks cs with
    | '.' :: cs => keyRest parts (path ++ [k]) (skipBlanks cs)
    | cs => return (⟨path, k⟩, cs)

/-- Read a key and the blanks after it. -/
def key? (cs : List Char) : Option (Key × List Char) := keyRest maxDepth [] cs

/-! ## Values -/

section Compound

variable (item? : List Char → Option (Value × List Char))

/-- The rest of an array. -/
def elements : Nat → List Char → Option (List Value × List Char)
  | 0, _ => none
  | fuel + 1, cs => do
    match ← skip? cs with
    | ']' :: cs => return ([], cs)
    | cs =>
      let (v, cs) ← item? cs
      match ← skip? cs with
      | ',' :: cs =>
        let (vs, cs) ← elements fuel cs
        return (v :: vs, cs)
      | ']' :: cs => return ([v], cs)
      | _ => none

/-- The rest of an inline table. -/
def pairs : Nat → List Char → Option (List (Key × Value) × List Char)
  | 0, _ => none
  | fuel + 1, cs => do
    match ← skip? cs with
    | '\x7d' :: cs => return ([], cs)
    | cs =>
      let (k, cs) ← key? cs
      let '=' :: cs ← skip? cs | none
      let (v, cs) ← skip? cs >>= item?
      match ← skip? cs with
      | ',' :: cs =>
        let (ps, cs) ← pairs fuel cs
        return ((k, v) :: ps, cs)
      | '\x7d' :: cs => return ([(k, v)], cs)
      | _ => none

end Compound

/-- The table that an inline table describes. -/
def inlineTable? (ps : List (Key × Value)) : Option Value := do
  let es ← ps.foldlM (fun (es : Entries) (k, v) => es.put k.path k.name v) []
  return .table (toValues es)

/-- Read a value in which arrays and inline tables are nested at most so deep. -/
def value? : Nat → List Char → Option (Value × List Char)
  | 0, '[' :: _ => none
  | 0, '\x7b' :: _ => none
  | depth + 1, '[' :: cs => do
    let (vs, cs) ← elements (value? depth) (cs.length + 1) cs
    return (.array vs, cs)
  | depth + 1, '\x7b' :: cs => do
    let (ps, cs) ← pairs (value? depth) (cs.length + 1) cs
    return (← inlineTable? ps, cs)
  | _, cs =>
    match quoted? cs with
    | some (s, cs) => some (.text (String.ofList s), cs)
    | none => unquoted? cs

/-! ## Expressions -/

def expression? : List Char → Option (Expression × List Char)
  | '[' :: '[' :: cs => do
    let (k, cs) ← key? (skipBlanks cs)
    let ']' :: ']' :: cs := cs | none
    return (.arrayHeader k, cs)
  | '[' :: cs => do
    let (k, cs) ← key? (skipBlanks cs)
    let ']' :: cs := cs | none
    return (.header k, cs)
  | cs => do
    let (k, cs) ← key? cs
    let '=' :: cs := cs | none
    let (v, cs) ← value? maxDepth (skipBlanks cs)
    return (.pair k v, cs)

def expressionsRest : Nat → List Char → Option (List Expression)
  | 0, _ => none
  | fuel + 1, cs => do
    match ← skip? cs with
    | [] => return []
    | cs =>
      let (e, cs) ← expression? cs
      let cs ← lineEnd? cs
      return e :: (← expressionsRest fuel cs)

def expressions? (cs : List Char) : Option (List Expression) :=
  expressionsRest (cs.length + 1) cs

/-! ## Documents -/

/-- The tables so far, and the path of the header in force. -/
structure Draft where
  entries : Entries := []
  header : List String := []

def Draft.add? (d : Draft) : Expression → Option Draft
  | .pair k v => do return { d with entries := ← d.entries.putAt d.header k.path k.name v }
  | .header k => do return ⟨← d.entries.openTable k.path k.name, k.path ++ [k.name]⟩
  | .arrayHeader k => do return ⟨← d.entries.openTables k.path k.name, k.path ++ [k.name]⟩

/-- Read a document. A byte order mark at its start is skipped. -/
def read (s : String) : Option (List (String × Value)) := do
  let cs := match s.toList with
    | '\uFEFF' :: cs => cs
    | cs => cs
  let d ← (← expressions? cs).foldlM Draft.add? {}
  return toValues d.entries

end RoutineCorpus.Toml
