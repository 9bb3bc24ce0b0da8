import FlowGraph.CommandLine.Arguments
import FlowGraph.CommandLine.Demo
import FlowGraph.Config
import FlowGraph.Document.Load
import FlowGraph.Document.Text
import FlowGraph.Evaluation.Pass

/-!
# Running a saved graph

The runner loads a graph, runs one pass from the entry node and prints what came of it.  What it
needs of its surroundings is a `Host`; everything it decides is in `run`, for any host.
-/

namespace FlowGraph

/-- What the runner needs of its surroundings. -/
structure Host (m : Type → Type) where
  readFile : String → m (Except FileError String)
  writeFile : String → String → m (Except FileError Unit)
  /-- Prints a line of the result. -/
  print : String → m Unit
  /-- Prints a line about wrong usage. -/
  explain : String → m Unit
  log : LogLine → m Unit

/-- Why there was no pass. -/
inductive RunError where
  | usage (cause : UsageError)
  | document (cause : DocumentError)
  | config (cause : ConfigError)
  | demo (cause : GraphError)
  /-- No entry was given and there is no event node. -/
  | noEntry
  | unknownEntry (id : NodeId)
deriving Repr

def RunError.message : RunError → String
  | .usage cause => cause.message
  | .document cause => s!"Graph document: {cause.message}"
  | .config cause => s!"Engine config: {cause.message}"
  | .demo cause => s!"Building demo graph: {cause.message}"
  | .noEntry => "Graph has no event_begin node; pass --entry"
  | .unknownEntry id => s!"Entry node not found: {id.text}"

/-- How the runner is called. -/
def usage : String :=
  "usage: nodeflow_runner <graph.ron> [--entry <node-id>] [--config <engine.ron>] " ++
    "[--demo <out.ron>]"

/-! ## Text of the log and of the result -/

def LogField.shown : LogField → String
  | .text s => s
  | .number x => Number.logText (Number.widen x)

/-- A character of a log message.  Controls that a terminal might act on are shown as codes. -/
def shownChar (c : Char) : List Char :=
  if c = '\x1b' then ['\\', 'x', '1', 'b']
  else if c = '\x7f' then ['\\', 'x', '7', 'f']
  else if c = '\x07' || c = '\x08' || c = '\x0c' then ['\\', 'x', '0'] ++ Text.hex c.toNat
  else if 128 ≤ c.toNat && c.toNat < 160 then
    ['\\', 'u', '\x7b'] ++ Text.hex c.toNat ++ ['\x7d']
  else [c]

/-- A log line as it is printed. -/
def LogLine.shown (l : LogLine) : String :=
  let message := String.ofList (l.message.toList.flatMap shownChar)
  s!"{l.level.name} {l.source.name}: {message}" ++
    String.join (l.fields.map fun (name, field) => s!" {name}={field.shown}")

/-- Whether a line is printed when nothing below the threshold is. -/
def LogLine.isShown (threshold : Level) (l : LogLine) : Bool := threshold.rank ≤ l.level.rank

def Property.shown (p : Property) : String := s!"  {p.name} = {p.value.toJson.render}"

/-- The log line that a report of the engine makes, if any. -/
def Report.line? : Report → Option LogLine
  | .logged notice => some notice.line
  | _ => none

/-! ## The run -/

/-- The node to start from: the one asked for, or else the first event node. -/
def entryNode (g : Graph) : Option NodeId → Except RunError NodeId
  | some id => if g.nodes.contains id then .ok id else .error (.unknownEntry id)
  | none =>
    match g.firstOfType? Behavior.eventBegin.kind with
    | some id => .ok id
    | none => .error .noEntry

/-- The lines printed after a pass. -/
def summary (s : Session) : List String :=
  s!"{s.graph.name}: {s.evaluator.evaluated} flow steps, {s.evaluator.pulled} pulls" ::
    s.graph.properties.values.map Property.shown ++
    match s.evaluator.lastError with
    | some error => [s!"failed ({error.code.name}): {error.message}"]
    | none => []

section

variable {m : Type → Type} [Monad m]

/-- A line of the runner's own log. -/
def Host.note (host : Host m) (level : Level) (message : String)
    (fields : List (String × LogField)) : m Unit :=
  host.log { level := level, source := .runner, message := message, fields := fields }

def loadConfig (host : Host m) : Option String → ExceptT RunError m EngineConfig
  | none => return {}
  | some path => do
    match ← host.readFile path with
    | .error cause => throw (.config (.file cause))
    | .ok text => ExceptT.mk (pure ((EngineConfig.ofText text).mapError .config))

/-- Writes the sample graph to a file. -/
def writeDemo (host : Host m) (path : String) : ExceptT RunError m Unit := do
  let g ← ExceptT.mk (pure (Demo.graph.mapError .demo))
  match ← host.writeFile path g.toDocument.toText with
  | .error cause => throw (.document (.file cause))
  | .ok () => ExceptT.lift (host.note .info s!"Wrote demo graph to {path}" [])

/-- Loads a graph from a file and logs the repairs. -/
def loadGraph (host : Host m) (path : String) : ExceptT RunError m Graph := do
  match ← host.readFile path with
  | .error cause => throw (.document (.file cause))
  | .ok text =>
    let loaded : Except DocumentError (Graph × List Repair) := do
      (← GraphDocument.ofText text).load .builtin
    let (g, repairs) ← ExceptT.mk (pure (loaded.mapError .document))
    repairs.forM fun repair => ExceptT.lift (host.log repair.line)
    return g

/-- Loads, runs and prints; the answer says whether the pass succeeded. -/
def runWith (host : Host m) (a : Arguments) : ExceptT RunError m Bool := do
  let config ← loadConfig host a.config
  a.demo.forM (writeDemo host)
  match a.graph with
  | none => throw (.usage .missingGraph)
  | some path =>
    let g ← loadGraph host path
    let entry ← ExceptT.mk (pure (entryNode g a.entry))
    ExceptT.lift (host.note .info "Running flow pass"
      [("graph", .text g.name), ("entry", .text entry.text)])
    let done := runPass entry ⟨.withLimit config.maxFlowSteps, g⟩
    (done.reports.filterMap Report.line?).forM fun line => ExceptT.lift (host.log line)
    (summary done.session).forM fun line => ExceptT.lift (host.print line)
    return done.session.evaluator.lastError.isNone

/-- Runs the command line.  The answer is the exit code: zero after a pass, two after a failed
    pass, one if there was none. -/
def run (host : Host m) (arguments : List String) : m Nat := do
  let outcome ← ExceptT.run (do
    let a ← ExceptT.mk (pure ((Arguments.parse arguments).mapError .usage))
    runWith host a)
  match outcome with
  | .ok true => return 0
  | .ok false => return 2
  | .error error =>
    host.note .error error.message []
    match error with
    | .usage _ => host.explain usage
    | _ => pure ()
    return 1

end

end FlowGraph
