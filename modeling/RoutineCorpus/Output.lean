import RoutineCorpus.Error

/-! # Output

Whatever writes output does so by single writes to a sink, which may be full at
some point; what fits of a text is still written. A write that is refused ends
the computation it is part of.
-/

namespace RoutineCorpus

/-- Why a command did not succeed. -/
inductive CommandError where
  | output (reason : String)
  | corpus (error : Error)
  | checkFailed
  deriving DecidableEq, Repr

namespace CommandError

def message : CommandError → String
  | .output reason => reason
  | .corpus e => e.message
  | .checkFailed => "Check failed"

def exitCode : CommandError → UInt8
  | .checkFailed => 1
  | _ => 2

/-- The error has another one as its cause. -/
def hasCause : CommandError → Bool
  | .checkFailed => false
  | _ => true

end CommandError

/-- Takes bytes, up to a limit if there is one. -/
structure Sink where
  written : ByteArray := .empty
  limit : Option Nat := none
  /-- What is said when the limit is passed. -/
  refusal : String := "write limit reached"

namespace Sink

/-- Write as much of the text as fits; the answer is whether all of it did. -/
def write (s : Sink) (text : String) : Bool × Sink :=
  let bytes := text.toUTF8
  match s.limit with
  | none => (true, { s with written := s.written ++ bytes })
  | some limit =>
    let room := limit - s.written.size
    (bytes.size ≤ room, { s with written := s.written ++ bytes.extract 0 room })

def text (s : Sink) : String := (String.fromUTF8? s.written).getD ""

end Sink

/-- A computation that writes to a sink and can fail. -/
abbrev Writing (ε : Type) := ExceptT ε (StateM Sink)

/-- Write a text. It fails with what the sink says if not all of it fits. -/
def put (text : String) : Writing String Unit := do
  let fits ← modifyGet fun s : Sink => s.write text
  unless fits do throw (← get).refusal

namespace Writing

variable {ε α : Type}

/-- Let the computation write to a sink. -/
def deliver (w : Writing ε α) (s : Sink) : Except ε α × Sink := w.run.run s

/-- How the computation ends if nothing is refused. -/
def verdict (w : Writing ε α) : Except ε α := (w.deliver {}).1

/-- All that is written if nothing is refused. -/
def text (w : Writing ε α) : String := (w.deliver {}).2.text

end Writing

/-- What a command does. -/
abbrev Output := Writing CommandError Unit

namespace Output

/-- A report that cannot be written is an error of the command. -/
def report (w : Writing String Unit) : Output := ExceptT.adapt .output w

/-- An error of the corpus is an error of the command. -/
def require {α : Type} (x : Except Error α) : Writing CommandError α :=
  ExceptT.mk (pure (x.mapError .corpus))

end Output

def exitCode : Except CommandError Unit → UInt8
  | .ok () => 0
  | .error e => e.exitCode

end RoutineCorpus
