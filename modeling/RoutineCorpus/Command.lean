import RoutineCorpus.Report.Structured
import RoutineCorpus.Report.Text

/-! # The commands

`list` shows the catalog, `run` applies one routine, `check` compares the
duplicated routines and fails if a family disagrees.
-/

namespace RoutineCorpus

inductive Format where
  | text
  | json
  deriving DecidableEq, Repr

namespace Format

def ofName? : String → Option Format
  | "text" => some .text
  | "json" => some .json
  | _ => none

def catalog (f : Format) (fs : List Family) : Writing String Unit :=
  match f with
  | .text => Report.Text.catalog fs
  | .json => Report.Structured.catalog fs

def evaluation (f : Format) (e : Evaluation) : Writing String Unit :=
  match f with
  | .text => Report.Text.evaluation e
  | .json => Report.Structured.evaluation e

def check (f : Format) (r : CheckReport) : Writing String Unit :=
  match f with
  | .text => Report.Text.check r
  | .json => Report.Structured.check r

end Format

namespace Command

open Output

/-- Show one family, or all of them. -/
def list (format : Format) (family : Option Family) : Output :=
  report (format.catalog (family.elim Family.all fun f => [f]))

/-- Apply the routine of the given name to the arguments, in a new session. -/
def run (settings : Settings) (format : Format) (name : String) (args : List String) : Output := do
  let r ← require (okOr (.unknownRoutine name) (Routine.ofName? name))
  let session : Session := { fibonacciLimit := settings.fibonacciLimit }
  let e ← require (session.run r args).1
  report (format.evaluation e)

/-- The last lines of a check and its verdict. -/
def conclusion (r : CheckReport) : Output := do
  if r.passed then
    report (put "\nCheck passed.\n")
  else
    let failed := Numeral.decimal r.failedFamilies
    let total := Numeral.decimal r.families.length
    report (put s!"\nCheck FAILED: {failed} of {total} families disagree\n")
    throw .checkFailed

def check (settings : Settings) (format : Format) : Output := do
  let r := settings.verify
  report (format.check r)
  conclusion r

end Command

end RoutineCorpus
