import RoutineCorpus.Toml.Scalar

/-! # Quoted TOML text

Basic strings know escapes, literal strings do not. Either may run over several
lines between triple quotes; one or two more quotes may then stand at the end.
-/

namespace RoutineCorpus.Toml

/-- The characters allowed in text, line ends apart. -/
def isText (c : Char) : Bool :=
  c = '\t' || (' ' ≤ c && c ≠ '\x7f')

def apostrophe : Char := '\x27'

/-- The character with the given hexadecimal code. -/
def ofCode? (ds : List Char) : Option Char :=
  let n := ofRadix 16 ds
  if ds.all isHexDigit && n.isValidChar then some (Char.ofNat n) else none

/-- Read an escape, of which the backslash is left out. -/
def escape? : List Char → Option (Char × List Char)
  | 'b' :: cs => some ('\x08', cs)
  | 't' :: cs => some ('\t', cs)
  | 'n' :: cs => some ('\n', cs)
  | 'f' :: cs => some ('\x0c', cs)
  | 'r' :: cs => some ('\r', cs)
  | 'e' :: cs => some ('\x1b', cs)
  | '"' :: cs => some ('"', cs)
  | '\\' :: cs => some ('\\', cs)
  | 'x' :: a :: b :: cs => (ofCode? [a, b]).map (·, cs)
  | 'u' :: a :: b :: c :: d :: cs => (ofCode? [a, b, c, d]).map (·, cs)
  | 'U' :: a :: b :: c :: d :: e :: f :: g :: h :: cs =>
    (ofCode? [a, b, c, d, e, f, g, h]).map (·, cs)
  | _ => none

def push (c : Char) : List Char × List Char → List Char × List Char
  | (s, rest) => (c :: s, rest)

/-- The rest of a basic string, whose length is bounded by the fuel. -/
def basicRest : Nat → List Char → Option (List Char × List Char)
  | 0, _ => none
  | fuel + 1, cs =>
    match cs with
    | [] => none
    | '"' :: cs => some ([], cs)
    | '\\' :: cs => do
      let (c, cs) ← escape? cs
      push c <$> basicRest fuel cs
    | c :: cs => if isText c then push c <$> basicRest fuel cs else none

def basic? (cs : List Char) : Option (List Char × List Char) := basicRest (cs.length + 1) cs

def literal? (cs : List Char) : Option (List Char × List Char) :=
  match cs.span (· ≠ apostrophe) with
  | (s, _ :: rest) => if s.all isText then some (s, rest) else none
  | _ => none

/-- Up to two quotes that belong to the text although they follow its end. -/
def extraQuotes (q : Char) : List Char → List Char × List Char
  | a :: b :: cs =>
    if a = q then if b = q then ([q, q], cs) else ([q], b :: cs) else ([], a :: b :: cs)
  | [a] => if a = q then ([q], []) else ([], [a])
  | [] => ([], [])

/-- Drop blanks and line ends. -/
def dropLines : List Char → List Char
  | '\r' :: '\n' :: cs => dropLines cs
  | c :: cs => if isBlank c || c = '\n' then dropLines cs else c :: cs
  | [] => []

/-- What goes on after a backslash at the end of a line. -/
def afterFold? (cs : List Char) : Option (List Char) :=
  match cs.dropWhile isBlank with
  | '\n' :: cs => some (dropLines cs)
  | '\r' :: '\n' :: cs => some (dropLines cs)
  | _ => none

/-- The rest of a basic string over several lines. -/
def longBasicRest : Nat → List Char → Option (List Char × List Char)
  | 0, _ => none
  | fuel + 1, cs =>
    match cs with
    | [] => none
    | '"' :: '"' :: '"' :: cs => some (extraQuotes '"' cs)
    | '\\' :: cs =>
      match escape? cs with
      | some (c, cs) => push c <$> longBasicRest fuel cs
      | none => afterFold? cs >>= longBasicRest fuel
    | '\r' :: '\n' :: cs => push '\n' <$> longBasicRest fuel cs
    | c :: cs => if isText c || c = '\n' then push c <$> longBasicRest fuel cs else none

/-- The rest of a literal string over several lines. -/
def longLiteralRest : List Char → Option (List Char × List Char)
  | [] => none
  | '\x27' :: '\x27' :: '\x27' :: cs => some (extraQuotes apostrophe cs)
  | '\r' :: '\n' :: cs => push '\n' <$> longLiteralRest cs
  | c :: cs => if isText c || c = '\n' then push c <$> longLiteralRest cs else none

/-- A line end right after the opening quotes does not count. -/
def dropLineEnd : List Char → List Char
  | '\n' :: cs => cs
  | '\r' :: '\n' :: cs => cs
  | cs => cs

/-- Read quoted text on one line. -/
def line? : List Char → Option (List Char × List Char)
  | '"' :: cs => basic? cs
  | '\x27' :: cs => literal? cs
  | _ => none

/-- Read quoted text. -/
def quoted? : List Char → Option (List Char × List Char)
  | '"' :: '"' :: '"' :: cs => longBasicRest (cs.length + 1) (dropLineEnd cs)
  | '\x27' :: '\x27' :: '\x27' :: cs => longLiteralRest (dropLineEnd cs)
  | cs => line? cs

end RoutineCorpus.Toml
