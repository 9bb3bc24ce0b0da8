import FlowGraph.CommandLine.Run

/-!
# The runner in memory

A terminal holds the files of one directory and what was printed so far.  As a host it makes a run
of the command line a function of the arguments and the files.
-/

namespace FlowGraph

structure Terminal where
  /-- The files by name; names with slashes lie in directories below. -/
  files : List (String × String) := []
  /-- The lines of the result and the log, oldest first. -/
  output : List String := []
  /-- The lines about wrong usage. -/
  explanations : List String := []
deriving DecidableEq, Repr, Inhabited

namespace Terminal

/-! ## Paths

A path is walked part by part from the terminal's directory, or from the root if it begins with a
slash.  All parts but the last have to be directories.  Nothing outside the terminal's directory is
known but that there are directories above it.
-/

/-- The longest path, in bytes. -/
def maxPathSize : Nat := 4095

/-- The longest name of a file or directory, in bytes. -/
def maxNameSize : Nat := 255

def isFile (t : Terminal) (name : String) : Bool := t.files.any (·.1 = name)

def isDirectory (t : Terminal) (name : String) : Bool :=
  t.files.any fun (file, _) => (name ++ "/").toList.isPrefixOf file.toList

/-- A directory. -/
inductive Place where
  /-- The terminal's directory, or the one below it with this path. -/
  | inside (path : List String)
  | outside
deriving DecidableEq, Repr

def Place.above : Place → Place
  | .inside (part :: rest) => .inside (part :: rest).dropLast
  | .inside [] | .outside => .outside

/-- The name under which a file of a directory is kept. -/
def fileName (directory : List String) (part : String) : String :=
  "/".intercalate (directory ++ [part])

/-- What a part of a path leads to. -/
inductive Entry where
  | file (name : String)
  | directory (place : Place)
deriving DecidableEq, Repr

/-- Looks a part up in a directory. -/
def entry (t : Terminal) (place : Place) (part : String) : Except FileError Entry :=
  if part = "." then .ok (.directory place)
  else if part = ".." then .ok (.directory place.above)
  else if part.utf8ByteSize > maxNameSize then .error .nameTooLong
  else
    match place with
    | .outside => .error .notFound
    | .inside path =>
      let name := fileName path part
      if t.isDirectory name then .ok (.directory (.inside (path ++ [part])))
      else if t.isFile name then .ok (.file name)
      else .error .notFound

/-- The directory that the parts lead to. -/
def walk (t : Terminal) : Place → List String → Except FileError Place
  | place, [] => .ok place
  | place, part :: rest => do
    match ← t.entry place part with
    | .directory place => t.walk place rest
    | .file _ => .error .notADirectory

/-- Whether a path can only mean a directory. -/
def endsInSlash (path : String) : Bool := path.toList.getLast? = some '/'

/-- The directory that the last part of a path is looked up in, and that part. -/
def approach (t : Terminal) (path : String) : Except FileError (Place × String) :=
  let parts := (path.splitOn "/").filter (· ≠ "")
  let start : Place := if path.toList.head? = some '/' then .outside else .inside []
  if path.isEmpty then .error .notFound
  else if path.utf8ByteSize > maxPathSize then .error .nameTooLong
  else (t.walk start parts.dropLast).map fun place => (place, parts.getLast?.getD ".")

/-- The name of the file at a path, or why there is none. -/
def locate (t : Terminal) (path : String) : Except FileError String := do
  let (place, part) ← t.approach path
  match ← t.entry place part with
  | .file name => if endsInSlash path then .error .notADirectory else .ok name
  | .directory _ => .error .isADirectory

/-- The name under which a path is written: a file that is there, or a new one in a directory that
    is there. -/
def destination (t : Terminal) (path : String) : Except FileError String := do
  let (place, part) ← t.approach path
  if endsInSlash path then .error .isADirectory
  else
    match t.entry place part, place with
    | .ok (.file name), _ => .ok name
    | .ok (.directory _), _ => .error .isADirectory
    | .error .notFound, .inside path => .ok (fileName path part)
    | .error cause, _ => .error cause

/-! ## The host -/

def readFile (path : String) : StateM Terminal (Except FileError String) := do
  let t ← get
  return (t.locate path).map fun name => (t.files.lookup name).getD ""

def writeFile (path text : String) : StateM Terminal (Except FileError Unit) := do
  let t ← get
  match t.destination path with
  | .error cause => return .error cause
  | .ok name =>
    set { t with files := (name, text) :: t.files.filter (·.1 ≠ name) }
    return .ok ()

/-- The host that works on a terminal; log lines below the threshold are not printed, and without
    a threshold none is. -/
def host (threshold : Option Level) : Host (StateM Terminal) where
  readFile := readFile
  writeFile := writeFile
  print line := modify fun t => { t with output := t.output ++ [line] }
  explain line := modify fun t => { t with explanations := t.explanations ++ [line] }
  log line :=
    if threshold.any fun level => line.isShown level then
      modify fun t => { t with output := t.output ++ [line.shown] }
    else return

/-- Runs the command line on some files: the exit code and the terminal afterwards. -/
def run (threshold : Option Level) (arguments : List String) (files : List (String × String)) :
    Nat × Terminal :=
  StateT.run (FlowGraph.run (host threshold) arguments) { files := files }

end Terminal

end FlowGraph
