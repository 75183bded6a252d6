import RoutineCorpus.Numeral.Real

/-! # JSON text

Values and their two printed forms: compact, with no blanks at all, and pretty,
with one element to a line and two blanks of indentation for each level. Fields
are printed in the order given. A double that is not finite is printed as `null`.
-/

namespace RoutineCorpus

inductive Json where
  | null
  | bool (b : Bool)
  | integer (n : Int)
  | real (x : Float)
  | string (s : String)
  | array (elements : List Json)
  | object (fields : List (String × Json))

namespace Json

def hexDigit (n : Nat) : Char := Nat.digitChar n

/-- Quotes, backslashes and control characters are escaped; nothing else is. -/
def escape (c : Char) : List Char :=
  match c with
  | '"' => ['\\', '"']
  | '\\' => ['\\', '\\']
  | '\n' => ['\\', 'n']
  | '\t' => ['\\', 't']
  | '\r' => ['\\', 'r']
  | '\x08' => ['\\', 'b']
  | '\x0c' => ['\\', 'f']
  | c =>
    if c.toNat < 32 then
      ['\\', 'u', '0', '0', hexDigit (c.toNat / 16), hexDigit (c.toNat % 16)]
    else [c]

def quote (s : String) : List Char :=
  '"' :: s.toList.flatMap escape ++ ['"']

def realChars (x : Float) : List Char :=
  if x.isFinite then (Numeral.Layout.pointed.write x).toList else "null".toList

def boolChars (b : Bool) : List Char :=
  if b then "true".toList else "false".toList

mutual

def compactChars : Json → List Char
  | .null => "null".toList
  | .bool b => boolChars b
  | .integer n => (Numeral.decimal n).toList
  | .real x => realChars x
  | .string s => quote s
  | .array [] => ['[', ']']
  | .array (x :: xs) => '[' :: compactChars x ++ compactElements xs ++ [']']
  | .object [] => ['\x7b', '\x7d']
  | .object ((k, x) :: fs) =>
    '\x7b' :: quote k ++ ':' :: compactChars x ++ compactFields fs ++ ['\x7d']

def compactElements : List Json → List Char
  | [] => []
  | x :: xs => ',' :: compactChars x ++ compactElements xs

def compactFields : List (String × Json) → List Char
  | [] => []
  | (k, x) :: fs => ',' :: quote k ++ ':' :: compactChars x ++ compactFields fs

end

/-- A new line at the given level. -/
def newline (level : Nat) : List Char :=
  '\n' :: List.replicate (2 * level) ' '

mutual

def prettyChars (level : Nat) : Json → List Char
  | .null => "null".toList
  | .bool b => boolChars b
  | .integer n => (Numeral.decimal n).toList
  | .real x => realChars x
  | .string s => quote s
  | .array [] => ['[', ']']
  | .array (x :: xs) =>
    '[' :: newline (level + 1) ++ prettyChars (level + 1) x ++ prettyElements (level + 1) xs
      ++ newline level ++ [']']
  | .object [] => ['\x7b', '\x7d']
  | .object ((k, x) :: fs) =>
    '\x7b' :: newline (level + 1) ++ quote k ++ ':' :: ' ' :: prettyChars (level + 1) x
      ++ prettyFields (level + 1) fs ++ newline level ++ ['\x7d']

def prettyElements (level : Nat) : List Json → List Char
  | [] => []
  | x :: xs => ',' :: newline level ++ prettyChars level x ++ prettyElements level xs

def prettyFields (level : Nat) : List (String × Json) → List Char
  | [] => []
  | (k, x) :: fs =>
    ',' :: newline level ++ quote k ++ ':' :: ' ' :: prettyChars level x ++ prettyFields level fs

end

def compact (j : Json) : String := String.ofList j.compactChars

def pretty (j : Json) : String := String.ofList (j.prettyChars 0)

end Json

end RoutineCorpus
