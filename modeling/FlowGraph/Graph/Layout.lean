import FlowGraph.Graph.Linking

/-!
# Nodes and the layout of their pins

The pins of a node are what its behavior declares at the time.  When the configuration changes, the
pins are made anew and the links of the old ones are drawn again wherever a pin of the same name and
direction still exists.
-/

namespace FlowGraph.Graph

open Edit

/-! ## Making nodes -/

/-- Adds a declared pin to a node. -/
def addPin (node : NodeId) (spec : PinSpec) : Edit Unit := do
  let id : PinId := ⟨← allocate⟩
  update fun g => { g with
    pins := g.pins.insert id (.ofSpec id node spec)
    nodes := g.nodes.modify node (·.attach id spec.direction) }

def addPins (node : NodeId) (specs : List PinSpec) : Edit Unit :=
  specs.forM (addPin node)

/-- Adds a node with the behavior and the pins it declares.  The node is named after its kind. -/
def addNode (behavior : Behavior) : Edit NodeId := do
  let id : NodeId := ⟨← allocate⟩
  let specs := behavior.layout (← current).propertyValue?
  update fun g => { g with nodes := g.nodes.insert id (.ofBehavior id behavior.kind behavior) }
  addPins id specs
  return id

def renameNode (id : NodeId) (name : String) (g : Graph) : Graph :=
  { g with nodes := g.nodes.modify id fun n => { n with name := name } }

/-- Adds a node of a registered type, under the name of the type. -/
def createNode (type : String) : Edit (Except GraphError NodeId) := do
  match (← current).registry.get? type with
  | none => return .error (.unknownNodeType type)
  | some nodeType =>
    let id ← addNode nodeType.fresh
    update (renameNode id nodeType.name)
    return .ok id

/-! ## Laying pins out anew -/

/-- The far end of a link, remembered across a change of layout. -/
inductive FarEnd where
  /-- A pin of another node. -/
  | elsewhere (pin : PinId)
  /-- A pin of the same node, which only its name and direction will identify. -/
  | same (name : String) (direction : Direction)
deriving DecidableEq, Repr

/-- A link that is cut because its node gets a new layout. -/
structure CutLink where
  /-- The name of the pin of the node. -/
  name : String
  direction : Direction
  far : FarEnd
deriving DecidableEq, Repr

/-- How a link of a pin of `node` is remembered.  A link between two pins of the node is remembered
    once, from its input. -/
def cutLink? (g : Graph) (node : NodeId) (pin : Pin) (link : Link) : Option CutLink := do
  let far ← g.pins.get? (← link.otherEnd? pin.id)
  if far.node ≠ node then some ⟨pin.name, pin.direction, .elsewhere far.id⟩
  else if pin.direction = .input then
    some ⟨pin.name, pin.direction, .same far.name far.direction⟩
  else none

/-- The links of a node, in the order of its pins and of the links of each pin. -/
def cutLinks (g : Graph) (node : Node) : List CutLink :=
  (node.pins.filterMap g.pins.get?).flatMap fun pin =>
    (pin.links.filterMap g.links.get?).filterMap (g.cutLink? node.id pin)

/-- The pin that a remembered far end is now. -/
def findEnd? (g : Graph) (node : NodeId) : FarEnd → Option PinId
  | .elsewhere pin => if g.pins.contains pin then some pin else none
  | .same name direction => g.findPin? node direction name

/-- Draws a cut link again if both ends are there and still fit. -/
def redraw (node : NodeId) (cut : CutLink) : Edit Unit := do
  let g ← current
  match g.findPin? node cut.direction cut.name, g.findEnd? node cut.far with
  | some pin, some far => discard (createLink pin far)
  | _, _ => return

/-- Makes the pins of a node anew from what its behavior declares now. -/
def relayout (id : NodeId) : Edit (Except GraphError Unit) := do
  let g ← current
  match g.nodes.get? id with
  | none => return .error (.unknownNode id)
  | some node =>
    match node.behavior with
    | none => return .error (.nodeBusy id)
    | some behavior =>
      deletePins node.pins
      update fun g => { g with
        nodes := g.nodes.modify id fun n => { n with flow := behavior.hasFlow } }
      addPins id (behavior.layout g.propertyValue?)
      (g.cutLinks node).forM (redraw id)
      return .ok ()

end FlowGraph.Graph
