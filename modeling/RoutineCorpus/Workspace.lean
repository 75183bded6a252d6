import RoutineCorpus.Error

/-! # Workspaces

What a command can see of the file system: the name of the current directory,
and what stands at each path. What is said of a settings text that cannot be
used comes with it, since this is up to the reader of the text.
-/

namespace RoutineCorpus

inductive Entry where
  | absent
  | directory
  | file (content : ByteArray)
  | unreadable (description : String)

/-- The text of what is there, or `none` where nothing is. -/
def Entry.text? : Entry → Option (Except ReadFault String)
  | .absent => none
  | .directory => some (.error .directory)
  | .unreadable description => some (.error (.other description))
  | .file content =>
    match String.fromUTF8? content with
    | some s => some (.ok s)
    | none => some (.error .invalidText)

structure Workspace where
  current : String
  entry : String → Entry
  diagnosis : String → String := fun _ => ""

/-- The path of a name in a directory. A name that starts at the root stands for itself. -/
def joinPath (directory name : String) : String :=
  if name.startsWith "/" then name
  else if directory.isEmpty || directory.endsWith "/" then directory ++ name
  else directory ++ "/" ++ name

def pathParts (path : String) : List String :=
  (path.splitOn "/").filter (· ≠ "")

/-- A workspace held in memory: paths below the current directory, and what stands there. -/
abbrev Files := List (List String × Entry)

namespace Files

/-- The current directory, a directory of the list, or one on the way to something in it. -/
def isDirectory (fs : Files) (path : List String) : Bool :=
  path = [] || fs.any fun (p, e) =>
    path.isPrefixOf p && (path ≠ p || match e with | .directory => true | _ => false)

/-- Follow the parts of a path one by one. Only a directory can be passed through, and the way
may not leave the current directory. -/
def follow? (fs : Files) : List String → List String → Option (List String)
  | here, [] => some here
  | here, part :: parts =>
    if fs.isDirectory here then
      if part = "." then fs.follow? here parts
      else if part = ".." then
        if here = [] then none else fs.follow? here.dropLast parts
      else fs.follow? (here ++ [part]) parts
    else none

def entryAt (fs : Files) (parts : List String) : Entry :=
  match fs.follow? [] parts with
  | none => .absent
  | some path =>
    match fs.lookup path with
    | some e => e
    | none => if fs.isDirectory path then .directory else .absent

end Files

/-- Paths are relative, or start with the name of the current directory. -/
def Workspace.ofFiles (current : String) (fs : Files) : Workspace where
  current := current
  entry path :=
    let inside := current ++ "/"
    if path.startsWith inside then fs.entryAt (pathParts (path.drop inside.length).toString)
    else if path.startsWith "/" then .absent
    else fs.entryAt (pathParts path)

end RoutineCorpus
