import RoutineCorpus.Command
import RoutineCorpus.Settings.Basic

/-! # Command-line options

Arguments are taken one by one, from left to right, and the first one that
cannot be taken decides. An option may be given before the command and again
after it; of two values the one after the command counts. Only `--exclude` may be
repeated on one side. A value follows its option as the next argument or after
`=`, and after a single letter also without one.
-/

namespace RoutineCorpus.CommandLine

/-- Why arguments lead to no command. -/
inductive Stop where
  | usage
  | help
  | version
  deriving DecidableEq, Repr

/-- The options that take a value. -/
inductive Name where
  | path
  | format
  | fibonacciLimit
  | maxN
  | exclude
  | family
  deriving DecidableEq, Repr

/-- The options given on one side of the command. -/
structure Options where
  path : Option String := none
  format : Option Format := none
  fibonacciLimit : Option UInt32 := none
  maxN : Option UInt32 := none
  exclude : List Family := []
  family : Option Family := none
  deriving DecidableEq, Repr

/-- A number of 32 bits without a sign bit, which may be written with a sign. -/
def number? (s : String) : Option UInt32 :=
  match Numeral.readInt64 s with
  | .ok n => if 0 ≤ n.toInt ∧ n.toInt < UInt32.size then some (.ofNat n.toInt.toNat) else none
  | .error _ => none

/-- A path has at least one character. -/
def path? (s : String) : Option String := if s.isEmpty then none else some s

/-- The value of an option that may be given once. -/
def once? {α : Type} (old new : Option α) : Option (Option α) :=
  match old, new with
  | none, some x => some (some x)
  | _, _ => none

namespace Options

def set? (o : Options) (n : Name) (s : String) : Option Options :=
  match n with
  | .path => do return { o with path := ← once? o.path (path? s) }
  | .format => do return { o with format := ← once? o.format (Format.ofName? s) }
  | .fibonacciLimit => do return { o with fibonacciLimit := ← once? o.fibonacciLimit (number? s) }
  | .maxN => do return { o with maxN := ← once? o.maxN (number? s) }
  | .exclude => do return { o with exclude := o.exclude ++ [← Family.ofName? s] }
  | .family => do return { o with family := ← once? o.family (Family.ofName? s) }

def set (o : Options) (n : Name) (s : String) : Except Stop Options :=
  match o.set? n s with
  | some o => .ok o
  | none => .error .usage

/-- The options of both sides of the command. -/
def merge (before after : Options) : Options where
  path := after.path <|> before.path
  format := after.format <|> before.format
  fibonacciLimit := after.fibonacciLimit <|> before.fibonacciLimit
  maxN := after.maxN <|> before.maxN
  exclude := if after.exclude.isEmpty then before.exclude else after.exclude
  family := after.family

def overrides (o : Options) : Overrides :=
  ⟨o.fibonacciLimit, o.maxN, o.exclude⟩

end Options

/-- An argument by its looks. -/
inductive Token where
  /-- Two hyphens: no options follow. -/
  | escape
  | long (name : String) (value : Option String)
  | short (letters : List Char)
  | plain (s : String)
  deriving DecidableEq, Repr

def Token.ofString (s : String) : Token :=
  match s.toList with
  | ['-', '-'] => .escape
  | '-' :: '-' :: cs =>
    match cs.span (· ≠ '=') with
    | (name, []) => .long (String.ofList name) none
    | (name, _ :: value) => .long (String.ofList name) (some (String.ofList value))
  | '-' :: c :: cs => .short (c :: cs)
  | _ => .plain s

/-- What follows a hyphen looks like a number: digits with at most one point after the first of
them, and an exponent without a sign. -/
def looksNumeric (cs : List Char) : Bool :=
  let (whole, rest) := cs.span Char.isDigit
  let rest := match rest with
    | '.' :: rest => rest.dropWhile Char.isDigit
    | rest => rest
  !whole.isEmpty && match rest with
    | [] => true
    | c :: cs => (c = 'e' || c = 'E') && !cs.isEmpty && cs.all Char.isDigit

/-- The commands by name. -/
inductive Verb where
  | list
  | run
  | check
  deriving DecidableEq, Repr

def Verb.ofName? : String → Option Verb
  | "list" => some .list
  | "run" => some .run
  | "check" => some .check
  | _ => none

/-- The options that can stand before a command, or after it. Families are chosen only after
`list`. -/
def Name.ofLong? (verb : Option Verb) : String → Option Name
  | "path" => some .path
  | "format" => some .format
  | "fibonacci-limit" => some .fibonacciLimit
  | "max-n" => some .maxN
  | "exclude" => some .exclude
  | "family" => if verb = some .list then some .family else none
  | _ => none

/-- The options after one more argument, and the option that still waits for its value. -/
structure Progress where
  options : Options
  pending : Option Name := none

/-- Take an option by its long name. Help can be asked for anywhere, but the version only before the
command. -/
def takeLong (verb : Option Verb) (o : Options) (name : String) (value : Option String) :
    Except Stop Progress :=
  match Name.ofLong? verb name, value with
  | some n, none => .ok ⟨o, some n⟩
  | some n, some s => do return ⟨← o.set n s, none⟩
  | none, none =>
    if name = "verbose" then .ok ⟨o, none⟩
    else if name = "help" then .error .help
    else if name = "version" && verb.isNone then .error .version
    else .error .usage
  | none, some _ => .error .usage

/-- Take the letters after a single hyphen. What follows a `p` is its value. -/
def takeShort (verb : Option Verb) (o : Options) : List Char → Except Stop Progress
  | [] => .ok ⟨o, none⟩
  | 'v' :: cs => takeShort verb o cs
  | 'h' :: _ => .error .help
  | 'V' :: _ => .error (if verb.isNone then .version else .usage)
  | ['p'] => .ok ⟨o, some .path⟩
  | 'p' :: '=' :: cs => do return ⟨← o.set .path (String.ofList cs), none⟩
  | 'p' :: cs => do return ⟨← o.set .path (String.ofList cs), none⟩
  | _ => .error .usage

/-- Options and words after a command. Words are taken only by `run`; from the second one on they
may look like negative numbers. -/
def takeWords (verb : Verb) : Progress → (routine : Bool) → List String →
    Except Stop (Options × List String)
  | ⟨o, none⟩, _, [] => .ok (o, [])
  | ⟨_, some _⟩, _, [] => .error .usage
  | ⟨o, pending⟩, routine, s :: rest =>
    let word : Except Stop (Options × List String) :=
      match verb, pending with
      | .run, none => do
        let (o, words) ← takeWords verb ⟨o, none⟩ true rest
        return (o, s :: words)
      | _, some n => do takeWords verb ⟨← o.set n s, none⟩ routine rest
      | _, none => .error .usage
    match Token.ofString s, pending with
    | .plain _, _ => word
    | .short cs, _ =>
      if verb = .run && routine && looksNumeric cs then word
      else if pending.isSome then .error .usage
      else do takeWords verb (← takeShort (some verb) o cs) routine rest
    | _, some _ => .error .usage
    | .escape, none =>
      if verb = .run || rest.isEmpty then .ok (o, rest) else .error .usage
    | .long name value, none => do
      takeWords verb (← takeLong (some verb) o name value) routine rest

/-- What the arguments ask for. -/
inductive Action where
  | list
  | run (routine : String) (args : List String)
  | check
  deriving DecidableEq, Repr

structure Invocation where
  options : Options
  action : Action
  deriving DecidableEq, Repr

/-- A routine has to be named to be run. -/
def Verb.action : Verb → List String → Except Stop Action
  | .list, _ => .ok .list
  | .check, _ => .ok .check
  | .run, [] => .error .usage
  | .run, routine :: args => .ok (.run routine args)

/-- What follows the word `help`: nothing, or the name of one command. -/
def helpOn : List String → Stop
  | [] | ["help"] => .help
  | [s] => if (Verb.ofName? s).isSome then .help else .usage
  | _ => .usage

/-- Take the options before a command, and then the command. -/
def takeCommand : Progress → List String → Except Stop Invocation
  | ⟨o, none⟩, [] => .ok ⟨o, .list⟩
  | ⟨_, some _⟩, [] => .error .usage
  | ⟨o, pending⟩, s :: rest =>
    match Token.ofString s, pending with
    | .plain s, some n => do takeCommand ⟨← o.set n s, none⟩ rest
    | _, some _ => .error .usage
    | .plain s, none =>
      match Verb.ofName? s with
      | none => .error (if s = "help" then helpOn rest else .usage)
      | some verb => do
        let (after, words) ← takeWords verb ⟨{}, none⟩ false rest
        return ⟨o.merge after, ← verb.action words⟩
    | .escape, none => if rest.isEmpty then .ok ⟨o, .list⟩ else .error .usage
    | .long name value, none => do takeCommand (← takeLong none o name value) rest
    | .short cs, none => do takeCommand (← takeShort none o cs) rest

def Invocation.ofArgs (args : List String) : Except Stop Invocation := takeCommand ⟨{}, none⟩ args

end RoutineCorpus.CommandLine
