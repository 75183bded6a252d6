import RoutineCorpus.Agreement
import RoutineCorpus.Output

/-! # Text reports

Each report is written line by line.
-/

namespace RoutineCorpus.Report.Text

/-- A number with its noun, which takes an `s` unless the number is one. -/
def counted (n : Nat) (noun : String) : String :=
  s!"{Numeral.decimal n} {noun}" ++ if n = 1 then "" else "s"

def names (fs : List Family) : String := ", ".intercalate (fs.map (·.name))

/-- A title, underlined, and an empty line. -/
def title (t : String) : Writing String Unit := do
  put s!"{t}\n"
  put (String.ofList (List.replicate t.length '=') ++ "\n")
  put "\n"

def catalogHeader (f : Family) : String :=
  let relation := if f.duplicated then "duplicates" else "distinct"
  let routines := counted f.members.length "routine"
  s!"{f.name} ({routines}, {relation}):\n"

def catalogRoutine (r : Routine) : String :=
  s!"  - {r.name} ({r.kind.name}, {r.shape.name} input)\n"

def catalogFamily (f : Family) : Writing String Unit := do
  put (catalogHeader f)
  f.members.forM fun r => put (catalogRoutine r)
  put "\n"

def catalog (fs : List Family) : Writing String Unit := do
  title "Routine Catalog"
  fs.forM catalogFamily

def evaluation (e : Evaluation) : Writing String Unit :=
  put s!"{e.routine.name}({e.input.text}) = {e.output.text}\n"

def familyHeader (c : FamilyCheck) : String :=
  let verdict := if c.passed then "ok" else "FAILED"
  let routines := counted c.members.length "routine"
  let inputs := counted c.inputsChecked "input"
  s!"{c.family.name}: {routines}, {inputs} ... {verdict}\n"

def mismatch (m : Mismatch) : String :=
  s!"  - {m.routine.name}({m.input.text}): expected {m.expected.text}, got {m.actual.text}\n"

def failure (f : Failure) : String :=
  s!"  - {f.routine.name}({f.input.text}): error: {f.error}\n"

def familyCheck (c : FamilyCheck) : Writing String Unit := do
  put (familyHeader c)
  c.mismatches.forM fun m => put (mismatch m)
  c.failures.forM fun f => put (failure f)

def skipped (fs : List Family) : Writing String Unit := do
  unless fs.isEmpty do
    put "\n"
    put s!"Skipped: {names fs}\n"

def check (r : CheckReport) : Writing String Unit := do
  title "Duplicate Check"
  r.families.forM familyCheck
  skipped r.skipped

end RoutineCorpus.Report.Text
