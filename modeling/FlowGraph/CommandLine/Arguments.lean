import FlowGraph.Id

/-!
# The arguments of the runner

The arguments are read from left to right in groups: an option takes the argument after it as its
value, whatever that looks like, and anything else that does not start with two dashes is the graph
file.  There may be one graph file; of an option given twice the last value counts.
-/

namespace FlowGraph

structure Arguments where
  graph : Option String := none
  /-- The node to start from. -/
  entry : Option NodeId := none
  config : Option String := none
  /-- Where to write the sample graph. -/
  demo : Option String := none
deriving DecidableEq, Repr, Inhabited

/-- Why a list of arguments was refused. -/
inductive UsageError where
  | missingValue (option : String)
  | invalidNodeId (raw : String)
  | unknownOption (option : String)
  | unexpectedArgument (argument : String)
  | missingGraph
deriving DecidableEq, Repr

def UsageError.message : UsageError → String
  | .missingValue option => s!"{option} needs a value"
  | .invalidNodeId raw => s!"invalid node id '{raw}'"
  | .unknownOption option => s!"unknown option '{option}'"
  | .unexpectedArgument argument => s!"unexpected argument '{argument}'"
  | .missingGraph => "missing graph file"

namespace Arguments

/-- The number that decimal digits stand for; nothing if there is no digit or another character. -/
def decimal? : List Char → Option Nat
  | [] => none
  | cs =>
    if cs.all Char.isDigit then some (cs.foldl (fun n c => n * 10 + (c.toNat - 48)) 0) else none

/-- An id as an argument: digits for a number of 64 bits, after an optional plus. -/
def nodeId? (raw : String) : Option NodeId := do
  let n ← decimal? (match raw.toList with | '+' :: cs => cs | cs => cs)
  if n ≤ lastNumber then some ⟨n⟩ else none

/-- Whether an argument has the form of an option. -/
def isOption (argument : String) : Bool := "--".toList.isPrefixOf argument.toList

/-- Reads the groups into what was read so far. -/
def readGroups (a : Arguments) : List String → Except UsageError Arguments
  | [] => .ok a
  | "--entry" :: raw :: rest =>
    match nodeId? raw with
    | some id => readGroups { a with entry := some id } rest
    | none => .error (.invalidNodeId raw)
  | "--config" :: path :: rest => readGroups { a with config := some path } rest
  | "--demo" :: path :: rest => readGroups { a with demo := some path } rest
  | argument :: rest =>
    if argument ∈ ["--entry", "--config", "--demo"] then .error (.missingValue argument)
    else if isOption argument then .error (.unknownOption argument)
    else if a.graph.isSome then .error (.unexpectedArgument argument)
    else readGroups { a with graph := some argument } rest

/-- Reads all arguments.  Without a graph file the sample graph is run. -/
def parse (arguments : List String) : Except UsageError Arguments := do
  let a ← readGroups {} arguments
  match a.graph.or a.demo with
  | none => .error .missingGraph
  | some graph => return { a with graph := some graph }

end Arguments

end FlowGraph
