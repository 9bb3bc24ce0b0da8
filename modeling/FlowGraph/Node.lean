import FlowGraph.Behavior

/-!
# Nodes

A node is a behavior placed in a graph, with its pins in the order of their declaration.  While the
node runs, its behavior is taken out of it, so that nothing the body does can reach it.
-/

namespace FlowGraph

structure Node where
  id : NodeId
  /-- The identifier of the node type. -/
  type : String
  name : String
  inputs : List PinId := []
  outputs : List PinId := []
  /-- Whether the node is scheduled by flow rather than on demand. -/
  flow : Bool
  /-- Absent only while the node is evaluated. -/
  behavior : Option Behavior
deriving Repr, Inhabited

namespace Node

/-- A node without pins. -/
def ofBehavior (id : NodeId) (name : String) (behavior : Behavior) : Node where
  id := id
  type := behavior.kind
  name := name
  flow := behavior.hasFlow
  behavior := some behavior

/-- All pins, inputs first. -/
def pins (n : Node) : List PinId := n.inputs ++ n.outputs

/-- The pins of one direction. -/
def pinsOf (n : Node) : Direction → List PinId
  | .input => n.inputs
  | .output => n.outputs

def attach (n : Node) (pin : PinId) : Direction → Node
  | .input => { n with inputs := n.inputs ++ [pin] }
  | .output => { n with outputs := n.outputs ++ [pin] }

def detach (n : Node) (pin : PinId) : Node :=
  { n with inputs := n.inputs.filter (· ≠ pin), outputs := n.outputs.filter (· ≠ pin) }

/-- The property the node reads or writes. -/
def bound (n : Node) : Option PropertyId := n.behavior.bind Behavior.bound

end Node

end FlowGraph
