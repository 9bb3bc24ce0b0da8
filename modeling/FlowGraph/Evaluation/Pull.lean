import FlowGraph.Evaluation.Body

/-!
# Evaluating a node

Before a node runs, each of its value inputs is refreshed from the pin it is linked to.  If the
source belongs to a pure node, that node is evaluated first, and so on backwards.  A pure node that
would be needed for its own inputs is found by the list of nodes being resolved: a node is on it
exactly while its own pull is under way.

`pull` counts the depth it may still go.  Every pull that passes the guard adds an existing node to
the list, so one level more than there are nodes is always enough.
-/

namespace FlowGraph

open Eval

/-- Refreshes one input of a node.  `pull` evaluates a pure source. -/
def refreshInput (pull : NodeId → Eval Unit) (node : NodeId) (input : PinId) : Eval Unit := do
  let g ← graph
  match g.pins.get? input with
  | none => return
  | some pin =>
    if pin.isFlow then return
    else
      match g.feedingPin? input with
      | none => fail (.missingInput node pin.name)
      | some source =>
        match g.pins.get? source with
        | none => fail (.missingInput node pin.name)
        | some sourcePin =>
          if g.isPure sourcePin.node then pull sourcePin.node
          attempt node (Graph.copyPin source input)

/-- Refreshes the value inputs of a node, in order. -/
def refreshInputsWith (pull : NodeId → Eval Unit) (node : NodeId) : Eval Unit := do
  match (← graph).nodes.get? node with
  | none => fail (.nodeNotFound node)
  | some n => n.inputs.forM (refreshInput pull node)

/-- Refreshes the inputs of a node and runs its body. -/
def evaluateWith (pull : NodeId → Eval Unit) (node : NodeId) : Eval Unit := do
  refreshInputsWith pull node
  runNode node

/-- Notes the beginning of a pull. -/
def beginPull (node : NodeId) (e : Evaluator) : Evaluator :=
  { e with inProgress := node :: e.inProgress }

/-- Notes the end of a pull, which counts whether it succeeded or not. -/
def endPull (node : NodeId) (e : Evaluator) : Evaluator :=
  { e with inProgress := e.inProgress.filter (· ≠ node), pulled := e.pulled + 1 }

/-- Evaluates a pure node for one of its consumers, at most `depth` pulls deep. -/
def pull : Nat → NodeId → Eval Unit
  | 0, _ => exhaust
  | depth + 1, node => do
    let e ← evaluator
    if node ∈ e.inProgress then fail (.infiniteLoop node e.evaluated)
    else
      updateEvaluator (beginPull node)
      andFinally (evaluateWith (pull depth) node) fun s =>
        { s with evaluator := endPull node s.evaluator }

/-- The depth at which every recursion of pulls in the graph has ended. -/
def pullDepth (g : Graph) : Nat := g.nodes.size + 1

/-- Refreshes the value inputs of a node from their sources. -/
def refreshInputs (node : NodeId) : Eval Unit := fun s =>
  refreshInputsWith (pull (pullDepth s.graph)) node s

/-- Evaluates a node: refreshes its inputs, then runs its body. -/
def evaluateNode (node : NodeId) : Eval Unit := fun s =>
  evaluateWith (pull (pullDepth s.graph)) node s

/-- The outcome of a step for a caller.  A recursion that was cut short would be a loop. -/
def Ran.outcome (node : NodeId) (r : Ran Unit) : Except EvaluationError Unit :=
  match r.answer with
  | .ok () => .ok ()
  | .error (.failed error) => .error error
  | .error .exhausted => .error (.infiniteLoop node r.session.evaluator.evaluated)

/-- Runs a step and gives its outcome as an answer. -/
def settle (node : NodeId) (m : Eval Unit) : Eval (Except EvaluationError Unit) := fun s =>
  let r := m s
  ⟨.ok (r.outcome node), r.session, r.reports⟩

end FlowGraph
