import FlowGraph.Evaluation.Session

/-!
# What a node computes

A body reads the value inputs of its node, which the evaluator has refreshed, and writes the value
outputs.  Inputs and outputs are counted without the flow pins.
-/

namespace FlowGraph

open Eval

/-! ## What a body can do -/

/-- The value of a value input. -/
def readInput (node : NodeId) (index : Nat) : Eval Value := do
  let g ← graph
  match (g.valuePin? node .input index).bind g.pins.get? with
  | some pin => return pin.value
  | none => fail (.missingInput node s!"#{index}")

/-- The value of a value input, which has to be of the type. -/
def readInputAs (node : NodeId) (index : Nat) (type : ValueType) : Eval Value := do
  let value ← readInput node index
  if value.type = type then return value
  else fail (.failed node s!"input #{index} is {value.type.text}, not {type.text}")

/-- The number of a float input. -/
def readFloat (node : NodeId) (index : Nat) : Eval Float32 := do
  match ← readInput node index with
  | .float x => return x
  | value =>
    fail (.failed node s!"input #{index} is {value.type.text}, not {ValueType.float.text}")

/-- Writes a value output. -/
def writeOutput (node : NodeId) (index : Nat) (value : Value) : Eval Unit := do
  match (← graph).valuePin? node .output index with
  | some pin => attempt node (Graph.setPin pin value)
  | none => fail (.failed node s!"no value output #{index}")

/-- The value of a property; without one the node lacks its binding. -/
def propertyOf (node : NodeId) (property : Option PropertyId) : Eval Value := do
  match property.bind (← graph).propertyValue? with
  | some value => return value
  | none => fail (.missingInput node "property")

/-! ## Scripts -/

/-- One action of a script: the register before and after. -/
def runAction (node : NodeId) (register : Value) : Action → Eval Value
  | .input index => readInput node index
  | .inputOf index type => readInputAs node index type
  | .output index => do
    writeOutput node index register
    return register
  | .load value => return value
  | .readProperty property => propertyOf node (some property)
  | .writeProperty property => do
    attempt node (Graph.setProperty property register)
    return register
  | .fail message => fail (.failed node message)
  | .missing input => fail (.missingInput node input)

/-- The actions in order, with the register reported after each. -/
def runActions (node : NodeId) : Value → List Action → Eval Unit
  | _, [] => return
  | register, action :: rest => do
    let register ← runAction node register action
    report (.register node register)
    runActions node register rest

/-! ## The body of each kind -/

def Behavior.body (node : NodeId) : Behavior → Eval Unit
  | .eventBegin => return
  | .logValue label => do
    let x ← readFloat node 0
    report (.logged (.loggedValue node label x))
    writeOutput node 0 (.float x)
  | .floatConstant x => writeOutput node 0 (.float x)
  | .arithmetic op => do
    let a ← readFloat node 0
    let b ← readFloat node 1
    writeOutput node 0 (.float (op.apply a b))
  | .getVariable property => do
    writeOutput node 0 (← propertyOf node property)
  | .setVariable property => do
    let id ← (do
      match property.filter (← graph).properties.contains with
      | some id => return id
      | none => fail (.missingInput node "property"))
    let incoming ← readInput node 0
    attempt node (Graph.setProperty id incoming)
    writeOutput node 0 (← propertyOf node property)
  | .scripted script => do
    let own := ((← graph).nodes.get? node).bind (·.behavior)
    report (.started node own.isNone)
    runActions node (.float 0) script.actions

/-- Puts a behavior into a node or takes it out. -/
def setBehavior (node : NodeId) (behavior : Option Behavior) (g : Graph) : Graph :=
  { g with nodes := g.nodes.modify node fun n => { n with behavior := behavior } }

/-- Runs the body of a node.  Its behavior is out of the node meanwhile and back in afterwards,
    whatever happens. -/
def runNode (node : NodeId) : Eval Unit := do
  match (← graph).nodes.get? node with
  | none => fail (.nodeNotFound node)
  | some n =>
    match n.behavior with
    | none => fail (.infiniteLoop node (← evaluator).evaluated)
    | some behavior =>
      edit (Edit.update (setBehavior node none))
      andFinally (behavior.body node) fun s =>
        { s with graph := setBehavior node (some behavior) s.graph }

end FlowGraph
