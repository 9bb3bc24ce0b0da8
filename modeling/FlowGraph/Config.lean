import FlowGraph.Document
import FlowGraph.Evaluation.Session
import FlowGraph.Ron.Reader
import FlowGraph.Ron.Writer

/-!
# Engine settings

The settings are saved as a record in a record.  Both have defaults for every field, but a step
limit of zero is refused.
-/

namespace FlowGraph

open Ron (Term)

/-- The newest version of the settings. -/
def configVersion : Nat := 1

structure EngineConfig where
  version : Nat := configVersion
  /-- The step limit of the evaluator. -/
  maxFlowSteps : Nat := defaultFlowSteps
deriving DecidableEq, Repr, Inhabited

inductive ConfigError where
  | file (cause : FileError)
  | parse
  | unsupportedVersion (found : Nat)
  /-- The step limit is zero. -/
  | noFlowSteps
deriving DecidableEq, Repr

def ConfigError.message : ConfigError → String
  | .file cause => s!"I/O error: {cause.message}"
  | .parse => "Parse error"
  | .unsupportedVersion found =>
    s!"Config version {found} is newer than supported version {configVersion}"
  | .noFlowSteps => "Invalid setting: max_flow_steps must be at least 1"

namespace EngineConfig

/-- Reads the record of the evaluator: its step limit. -/
def readEvaluator (named : Bool) (t : Term) : Option Nat := do
  let fields ← t.recordFields? named "EvaluatorConfig"
  Term.field? fields "max_flow_steps" defaultFlowSteps (Term.readNat 64)

def ofTerm? (named : Bool) (t : Term) : Option EngineConfig := do
  let fields ← t.recordFields? named "EngineConfig"
  let version ← Term.field? fields "version" configVersion (Term.readNat 32)
  let maxFlowSteps ← Term.field? fields "evaluator" defaultFlowSteps (readEvaluator named)
  return ⟨version, maxFlowSteps⟩

def toTerm (c : EngineConfig) : Term :=
  .struct (some "EngineConfig") [
    ("version", .int c.version none),
    ("evaluator", .struct (some "EvaluatorConfig") [("max_flow_steps", .int c.maxFlowSteps none)])]

/-- Writes the text of the settings. -/
def toText (c : EngineConfig) : String := c.toTerm.toText

/-- Accepts settings of a known version with a step limit. -/
def check (c : EngineConfig) : Except ConfigError EngineConfig :=
  if c.version > configVersion then .error (.unsupportedVersion c.version)
  else if c.maxFlowSteps = 0 then .error .noFlowSteps
  else .ok c

/-- Reads settings from their text. -/
def ofText (s : String) : Except ConfigError EngineConfig :=
  match (Ron.parse? s).bind fun parsed => ofTerm? parsed.named parsed.term with
  | none => .error .parse
  | some c => c.check

end EngineConfig

end FlowGraph
