import RoutineCorpus.Input

/-! # Errors

Everything that can keep a routine from giving a value or settings from being
loaded, and the text that tells so.
-/

namespace RoutineCorpus

/-- Why a file that is there cannot be read as text. -/
inductive ReadFault where
  | invalidText
  | directory
  | other (description : String)
  deriving DecidableEq, Repr

def ReadFault.message : ReadFault → String
  | .invalidText => "stream did not contain valid UTF-8"
  | .directory => "Is a directory (os error 21)"
  | .other description => description

inductive Error where
  | unreadable (fault : ReadFault)
  | malformedSettings (path detail : String)
  | divisionByZero
  | overflow (routine : Routine)
  | unknownRoutine (name : String)
  | invalidInput (routine : Routine) (fault : InputFault)
  | inputTooLarge (routine : Routine) (n : Int64) (limit : UInt32)
  deriving DecidableEq, Repr

def Error.message : Error → String
  | .unreadable fault => s!"I/O error: {fault.message}"
  | .malformedSettings path detail => s!"Failed to parse config file {path}: {detail}"
  | .divisionByZero => "Invalid argument: Cannot divide by zero"
  | .overflow r => s!"Arithmetic overflow in {r.name}"
  | .unknownRoutine s => s!"Unknown routine: {s}"
  | .invalidInput r fault => s!"Invalid input for {r.name}: {fault.message}"
  | .inputTooLarge r n limit =>
    s!"{r.name}({Numeral.decimal n.toInt}) exceeds the configured limit of {Numeral.decimal limit.toNat}"

/-- The value, or the error if there is none. -/
def okOr {α : Type} (e : Error) : Option α → Except Error α
  | some a => .ok a
  | none => .error e

end RoutineCorpus
