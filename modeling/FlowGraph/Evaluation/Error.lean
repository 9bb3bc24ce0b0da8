import FlowGraph.Graph.Basic

/-!
# Why an evaluation failed
-/

namespace FlowGraph

inductive EvaluationError where
  /-- A value input has no source, or a variable node has no property. -/
  | missingInput (node : NodeId) (input : String)
  | nodeNotFound (node : NodeId)
  /-- The body of the node gave up. -/
  | failed (node : NodeId) (reason : String)
  /-- An operation on the graph was refused. -/
  | graph (node : NodeId) (cause : GraphError)
  /-- The pass reached its step limit, or a pure node needs itself. -/
  | infiniteLoop (node : NodeId) (steps : Nat)
deriving Repr

/-- The stable class of a failure. -/
inductive ErrorCode where
  | missingInput
  | evaluationError
  | infiniteLoop
deriving DecidableEq, Repr

def ErrorCode.name : ErrorCode → String
  | .missingInput => "MissingInput"
  | .evaluationError => "EvaluationError"
  | .infiniteLoop => "InfiniteLoop"

namespace EvaluationError

def code : EvaluationError → ErrorCode
  | missingInput .. => .missingInput
  | infiniteLoop .. => .infiniteLoop
  | nodeNotFound _ | failed .. | graph .. => .evaluationError

def message : EvaluationError → String
  | missingInput node input => s!"Node {node.text} is missing input '{input}'"
  | nodeNotFound node => s!"Node not found: {node.text}"
  | failed node reason => s!"Evaluation of {node.text} failed: {reason}"
  | graph node cause => s!"Evaluation of {node.text} failed: {cause.message}"
  | infiniteLoop node steps => s!"Infinite loop detected at {node.text} after {steps} steps"

end EvaluationError

end FlowGraph
