import RoutineCorpus.Agreement
import RoutineCorpus.Json
import RoutineCorpus.Output

/-! # JSON forms of what is reported -/

namespace RoutineCorpus

def Input.json : Input → Json
  | .sequence xs => .array (xs.map fun x => .integer x.toInt)
  | .integer n => .integer n.toInt
  | .pair a b => .array [.real a, .real b]

def Value.json : Value → Json
  | .sequence xs => .array (xs.map fun x => .integer x.toInt)
  | .integer n => .integer n.toInt
  | .real x => .real x

def Evaluation.fields (e : Evaluation) : List (String × Json) :=
  [("routine", .string e.routine.name), ("input", e.input.json), ("output", e.output.json)]

def Evaluation.json (e : Evaluation) : Json := .object e.fields

def Mismatch.json (m : Mismatch) : Json :=
  .object [("routine", .string m.routine.name), ("input", m.input.json),
    ("expected", m.expected.json), ("actual", m.actual.json)]

def Failure.json (f : Failure) : Json :=
  .object [("routine", .string f.routine.name), ("input", f.input.json), ("error", .string f.error)]

def FamilyCheck.json (c : FamilyCheck) : Json :=
  .object [("family", .string c.family.name),
    ("members", .array (c.members.map fun r => .string r.name)),
    ("inputs_checked", .integer c.inputsChecked),
    ("mismatches", .array (c.mismatches.map (·.json))),
    ("failures", .array (c.failures.map (·.json)))]

def CheckReport.json (r : CheckReport) : Json :=
  .object [("passed", .bool r.passed), ("families", .array (r.families.map (·.json))),
    ("skipped", .array (r.skipped.map fun f => .string f.name))]

def Routine.json (r : Routine) : Json :=
  .object [("name", .string r.name), ("kind", .string r.kind.name), ("input", .string r.shape.name)]

def Family.json (f : Family) : Json :=
  .object [("family", .string f.name), ("duplicated", .bool f.duplicated),
    ("routines", .array (f.members.map (·.json)))]

namespace Report.Structured

/-- A document takes lines of its own. -/
def document (j : Json) : Writing String Unit := do
  put j.pretty
  put "\n"

def catalog (fs : List Family) : Writing String Unit := document (.array (fs.map (·.json)))

/-- A single evaluation also names the family of its routine. -/
def evaluation (e : Evaluation) : Writing String Unit :=
  document (.object (e.fields ++ [("family", .string e.routine.family.name)]))

def check (r : CheckReport) : Writing String Unit := document r.json

end Report.Structured

end RoutineCorpus
