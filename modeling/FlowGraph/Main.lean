import FlowGraph.CommandLine.Run

/-!
# The command line

The runner on the real file system.
-/

namespace FlowGraph

/-- The number of an error of the operating system.  Some operations give it with a minus. -/
def errorNumber (code : UInt32) : UInt32 := min code (-code)

/-- The error of a file operation as the operating system words it. -/
def fileError : IO.Error → FileError
  | .noFileOrDirectory .. => .notFound
  | .permissionDenied .. => .permissionDenied
  | .inappropriateType _ code _ => if errorNumber code = 21 then .isADirectory else .notADirectory
  | .invalidArgument _ code details =>
    if errorNumber code = 36 then .nameTooLong else .other details
  | error => .other (toString error)

def attemptFile {α : Type} (action : IO α) : IO (Except FileError α) := do
  match ← action.toBaseIO with
  | .ok a => return .ok a
  | .error error => return .error (fileError error)

/-- Reads a file that has to hold text. -/
def readText (path : String) : IO (Except FileError String) := do
  match ← attemptFile (IO.FS.readBinFile path) with
  | .error cause => return .error cause
  | .ok bytes => return (String.fromUTF8? bytes).elim (.error .notText) .ok

/-- The host of a process: its files and its two output streams. -/
def processHost (threshold : Level) : Host IO where
  readFile := readText
  writeFile path text := attemptFile (IO.FS.writeFile path text)
  print := IO.println
  explain := IO.eprintln
  log line := if line.isShown threshold then IO.println line.shown else pure ()

end FlowGraph

def main (arguments : List String) : IO UInt32 :=
  return UInt32.ofNat (← FlowGraph.run (FlowGraph.processHost .info) arguments)
