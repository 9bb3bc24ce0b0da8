import FlowGraph.Evaluation.Pull

/-!
# Flow passes

A pass starts at an entry node and follows the flow links, one node at a time, until there is no
next node, a node fails or the step limit is reached.  Reaching the limit is a failure even if the
flow would end there.
-/

namespace FlowGraph

open Eval

/-- The evaluator at the start of a pass: nothing counted, nothing remembered. -/
def Evaluator.cleared (e : Evaluator) : Evaluator where
  maxFlowSteps := e.maxFlowSteps

def Evaluator.failWith (error : EvaluationError) (e : Evaluator) : Evaluator :=
  { e with lastError := some error }

/-- Counts a flow node as done. -/
def Evaluator.visit (node : NodeId) (e : Evaluator) : Evaluator :=
  { e with visited := e.visited ++ [node], evaluated := e.evaluated + 1 }

/-- Follows the flow from a node for the number of steps that are left.  A failure ends the walk
    and is kept as the last error. -/
def walk : Nat → NodeId → Eval Unit
  | 0, _ => return
  | steps + 1, node => do
    match ← settle node (evaluateNode node) with
    | .error error => updateEvaluator (.failWith error)
    | .ok () =>
      updateEvaluator (.visit node)
      let e ← evaluator
      if e.evaluated = e.maxFlowSteps then
        updateEvaluator (.failWith (.infiniteLoop node e.evaluated))
      else
        match (← graph).flowSuccessor? node with
        | some next => walk steps next
        | none => return

/-- Runs a pass from the entry node.  The answer says whether it succeeded; a failure is in
    `lastError` and in the log. -/
def runPass (entry : NodeId) : Eval Bool := do
  updateEvaluator .cleared
  walk (← evaluator).maxFlowSteps entry
  match (← evaluator).lastError with
  | none => return true
  | some error =>
    report (.logged (.passFailed entry error))
    return false

end FlowGraph
