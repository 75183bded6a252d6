import RoutineCorpus.CommandLine.Execute

/-! # The program

Reads the files that the command line points to, carries out the command and
writes its output.
-/

open RoutineCorpus CommandLine

namespace RoutineCorpus.Program

/-- What stands at a path. -/
def entryAt (path : String) : IO Entry := do
  let file := (← IO.currentDir) / path
  if ← file.isDir then return .directory
  if !(← file.pathExists) then return .absent
  try
    return .file (← IO.FS.readBinFile file)
  catch e => return .unreadable (toString e)

/-- The workspace as far as a command line can see it: the two files in its directory. -/
def workspace (args : List String) : IO Workspace := do
  let current := toString (← IO.currentDir)
  let root := match Invocation.ofArgs args with
    | .ok i => i.options.path.getD current
    | .error _ => current
  let manifest := joinPath root manifestName
  let settings := joinPath root settingsName
  let manifestEntry ← entryAt manifest
  let settingsEntry ← entryAt settings
  return { current
           entry := fun path =>
             if path = manifest then manifestEntry
             else if path = settings then settingsEntry
             else .absent
           diagnosis := fun _ => "no table of settings in TOML" }

/-- Let the output write to a sink without a limit, and pass on what it took. -/
def deliver (stdout : IO.FS.Stream) (output : Output) : IO (Except CommandError Unit) := do
  let (verdict, sink) := output.deliver {}
  try
    stdout.write sink.written
    stdout.flush
    return verdict
  catch e => return .error (.output (toString e))

end RoutineCorpus.Program

open RoutineCorpus.Program

def main (args : List String) : IO UInt32 := do
  match respond (← workspace args) args with
  | .usage =>
    (← IO.getStderr).putStrLn "error: the arguments were not understood"
    return 2
  | .help =>
    (← IO.getStdout).putStrLn "usage: dupe-fixtures [options] [list | run | check]"
    return 0
  | .finished output =>
    let verdict ← deliver (← IO.getStdout) output
    if let some text := complaint? verdict then (← IO.getStderr).putStrLn text
    return (exitCode verdict).toUInt32
