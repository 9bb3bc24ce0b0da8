import FlowGraph.Link
import FlowGraph.Node
import FlowGraph.Property
import FlowGraph.Registry
import FlowGraph.Table

/-!
# Graphs

A graph owns nodes, pins, links and properties in four tables and refers from one to another by id
only.  This file holds the structure and everything that reads it; what changes it is in the other
files of `FlowGraph.Graph`.
-/

namespace FlowGraph

structure Graph where
  name : String
  registry : Registry
  /-- The number the next entity gets. -/
  nextId : Nat := 1
  nodes : Table NodeId Node := {}
  pins : Table PinId Pin := {}
  links : Table LinkId Link := {}
  properties : Table PropertyId Property := {}
deriving Repr, Inhabited

namespace Graph

/-- A graph with nothing in it. -/
def new (name : String) (registry : Registry) : Graph where
  name := name
  registry := registry

/-! ## Nodes and their pins -/

/-- The pins a node lists in one direction, without the ids that name no pin. -/
def pinsOf (g : Graph) (node : NodeId) (direction : Direction) : List Pin :=
  match g.nodes.get? node with
  | some n => (n.pinsOf direction).filterMap g.pins.get?
  | none => []

/-- The first pin of a node with the given direction and name. -/
def findPin? (g : Graph) (node : NodeId) (direction : Direction) (name : String) : Option PinId :=
  ((g.nodes.get? node).map (·.pinsOf direction)).bind
    (·.find? fun id => (g.pins.get? id).any (·.name = name))

/-- The pin at `index` among the value pins of a node. -/
def valuePin? (g : Graph) (node : NodeId) (direction : Direction) (index : Nat) : Option PinId :=
  ((g.nodes.get? node).map (·.pinsOf direction)).bind fun ids =>
    (ids.filter fun id => (g.pins.get? id).any (!·.isFlow))[index]?

/-- The flow pin of a node. -/
def flowPin? (g : Graph) (node : NodeId) (direction : Direction) : Option PinId :=
  ((g.nodes.get? node).map (·.pinsOf direction)).bind
    (·.find? fun id => (g.pins.get? id).any (·.isFlow))

/-- Whether the node exists and runs on demand. -/
def isPure (g : Graph) (node : NodeId) : Bool :=
  (g.nodes.get? node).any (!·.flow)

/-- The first node of a type. -/
def firstOfType? (g : Graph) (type : String) : Option NodeId :=
  (g.nodes.values.find? (·.type = type)).map (·.id)

/-! ## Links -/

/-- The pin that feeds an input: the far end of its only link. -/
def feedingPin? (g : Graph) (input : PinId) : Option PinId := do
  let pin ← g.pins.get? input
  let link ← g.links.get? (← pin.feedingLink?)
  link.otherEnd? input

/-- The links with an end on the node, in the order of the links. -/
def linksOfNode (g : Graph) (node : NodeId) : List Link :=
  let ids := (g.nodes.get? node).elim [] Node.pins
  g.links.values.filter fun link => ids.any link.involves

/-- The node that follows in the flow: the owner of the far end of the first link of the flow
    output. -/
def flowSuccessor? (g : Graph) (node : NodeId) : Option NodeId := do
  let out ← g.flowPin? node .output
  let pin ← g.pins.get? out
  let link ← g.links.get? (← pin.links.head?)
  let next ← g.pins.get? (← link.otherEnd? out)
  return next.node

/-! ## Properties -/

/-- The current value of a property. -/
def propertyValue? (g : Graph) (id : PropertyId) : Option Value :=
  (g.properties.get? id).map (·.value)

/-- The first property with the name. -/
def findProperty? (g : Graph) (name : String) : Option PropertyId :=
  (g.properties.values.find? (·.name = name)).map (·.id)

/-- The properties directly under the parent. -/
def childrenOf (g : Graph) (parent : PropertyId) : List PropertyId :=
  (g.properties.values.filter (·.parent = some parent)).map (·.id)

end Graph

/-- Why an operation on a graph was refused. -/
inductive GraphError where
  | unknownNode (id : NodeId)
  | unknownPin (id : PinId)
  | unknownProperty (id : PropertyId)
  | unknownNodeType (id : String)
  | incompatiblePins (a b : PinId)
  | notBindable (node : NodeId)
  | nodeBusy (node : NodeId)
  | value (cause : ValueError)
deriving Repr

def GraphError.message : GraphError → String
  | .unknownNode id => s!"Node not found: {id.text}"
  | .unknownPin id => s!"Pin not found: {id.text}"
  | .unknownProperty id => s!"Property not found: {id.text}"
  | .unknownNodeType id => s!"Unknown node type: {id}"
  | .incompatiblePins a b => s!"Incompatible pins: {a.text} and {b.text}"
  | .notBindable node => s!"Node cannot be bound to a property: {node.text}"
  | .nodeBusy node => s!"Node is being evaluated: {node.text}"
  | .value cause => cause.message

end FlowGraph
