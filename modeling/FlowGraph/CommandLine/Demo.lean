import FlowGraph.Graph.Contents

/-!
# The sample graph

A pass over the sample graph stores `2 + 3` in the property `speed` and then logs three times the
speed.
-/

namespace FlowGraph.Demo

/-- Building steps, of which the first that is refused ends the building. -/
abbrev Build := ExceptT GraphError Edit

/-- Links the flow output of one node with the flow input of another. -/
def linkFlow (source target : NodeId) : Build Unit := do
  let g ← ExceptT.lift Edit.current
  match g.flowPin? source .output, g.flowPin? target .input with
  | none, _ => throw (.unknownNode source)
  | _, none => throw (.unknownNode target)
  | some output, some input => discard (ExceptT.mk (Graph.createLink output input))

/-- Links the first value output of one node with a value input of another. -/
def linkValue (source target : NodeId) (index : Nat) : Build Unit := do
  let g ← ExceptT.lift Edit.current
  match g.valuePin? source .output 0, g.valuePin? target .input index with
  | none, _ => throw (.unknownNode source)
  | _, none => throw (.unknownNode target)
  | some output, some input => discard (ExceptT.mk (Graph.createLink output input))

def build : Build Unit := do
  let add (b : Behavior) : Build NodeId := ExceptT.lift (Graph.addNode b)
  let speed ← ExceptT.mk (Graph.createProperty "speed" (.float 1) none)
  let start ← add .eventBegin
  let two ← add (.floatConstant 2)
  let three ← add (.floatConstant 3)
  let sum ← add (.arithmetic .add)
  let store ← add (.setVariable (some speed))
  let fetch ← add (.getVariable (some speed))
  let product ← add (.arithmetic .multiply)
  let log ← add (.logValue "speed x3")
  linkFlow start store
  linkFlow store log
  linkValue two sum 0
  linkValue three sum 1
  linkValue sum store 0
  linkValue fetch product 0
  linkValue three product 1
  linkValue product log 0

/-- The sample graph. -/
def graph : Except GraphError Graph :=
  let built := build.run (.new "demo" .builtin)
  built.answer.map fun () => built.graph

end FlowGraph.Demo
