import RoutineCorpus.CommandLine.Options
import RoutineCorpus.Settings.Load

/-! # Carrying out a command line

`list` looks at no settings. The other commands load them first, from the
directory given or from the current one.
-/

namespace RoutineCorpus.CommandLine

def versionText : String := "dupe-fixtures 0.1.0\n"

namespace Invocation

/-- The directory in which settings are looked for. -/
def root (i : Invocation) (w : Workspace) : String := i.options.path.getD w.current

def format (i : Invocation) : Format := i.options.format.getD .text

def settings (i : Invocation) (w : Workspace) : Except Error Settings :=
  Settings.loadWith w (i.root w) i.options.overrides

def execute (i : Invocation) (w : Workspace) : Output := do
  match i.action with
  | .list => Command.list i.format i.options.family
  | .run routine args => Command.run (← Output.require (i.settings w)) i.format routine args
  | .check => Command.check (← Output.require (i.settings w)) i.format

end Invocation

/-- What comes of a command line. -/
inductive Response where
  /-- The arguments were not understood. -/
  | usage
  /-- An explanation of the arguments was asked for. -/
  | help
  | finished (output : Output)

def respond (w : Workspace) (args : List String) : Response :=
  match Invocation.ofArgs args with
  | .ok i => .finished (i.execute w)
  | .error .version => .finished (Output.report (put versionText))
  | .error .help => .help
  | .error .usage => .usage

/-- What is said of a verdict beside the output. A failed check has said so already. -/
def complaint? : Except CommandError Unit → Option String
  | .ok () => none
  | .error .checkFailed => none
  | .error e => some s!"Error: {e.message}"

end RoutineCorpus.CommandLine
