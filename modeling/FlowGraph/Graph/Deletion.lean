import FlowGraph.Graph.Edit

/-!
# Deletions

Every deletion takes along what would be left dangling: a node its pins, a pin its links, a property
its descendants and the bindings to them.  Observers hear of each entity while it is still there, a
part before the whole it belongs to.
-/

namespace FlowGraph.Graph

open Edit

/-- Lets the owner of a pin know that the pin lost a link.  Only scripted nodes take notice. -/
def tellDisconnected (owner : NodeId) (pin : PinId) : Edit Unit := do
  match ((← current).nodes.get? owner).bind (·.behavior) with
  | some (.scripted script) => report (.disconnected script.kind pin)
  | _ => return

/-- Takes a link out of the list of one of its ends. -/
def releaseEnd (link : LinkId) (pin : PinId) : Edit Unit := do
  match (← current).pins.get? pin with
  | none => return
  | some p =>
    update fun g => { g with pins := g.pins.modify pin (·.disconnect link) }
    tellDisconnected p.node pin

/-- Deletes a link; the answer says whether there was one. -/
def deleteLink (id : LinkId) : Edit Bool := do
  match (← current).links.get? id with
  | none => return false
  | some link =>
    announce (.linkDeleted id)
    link.ends.forM (releaseEnd id)
    update fun g => { g with links := g.links.erase id }
    return true

/-- Deletes links one after the other. -/
def deleteLinks (ids : List LinkId) : Edit Unit :=
  ids.forM fun id => discard (deleteLink id)

/-- Takes a pin out of the lists of its owner and out of the graph. -/
def dropPin (id : PinId) (g : Graph) : Graph :=
  let nodes := match g.pins.get? id with
    | some pin => g.nodes.modify pin.node (·.detach id)
    | none => g.nodes
  { g with nodes := nodes, pins := g.pins.erase id }

/-- Deletes a pin and its links. -/
def deletePin (id : PinId) : Edit Bool := do
  match (← current).pins.get? id with
  | none => return false
  | some pin =>
    deleteLinks pin.links
    announce (.pinDeleted id)
    update (dropPin id)
    return true

/-- Deletes pins one after the other. -/
def deletePins (ids : List PinId) : Edit Unit :=
  ids.forM fun id => discard (deletePin id)

/-- Deletes a node, its pins and their links. -/
def deleteNode (id : NodeId) : Edit Bool := do
  match (← current).nodes.get? id with
  | none => return false
  | some node =>
    deletePins node.pins
    announce (.nodeDeleted id)
    update fun g => { g with nodes := g.nodes.erase id }
    return true

/-! ## Properties -/

/-- Walks down from the properties in `queue`, adding to `found` the children that are not there
    yet.  Each property is in the queue once, so as many steps as there are properties reach all. -/
def descend (g : Graph) : Nat → List PropertyId → List PropertyId → List PropertyId
  | 0, _, found => found
  | _ + 1, [], found => found
  | steps + 1, parent :: queue, found =>
    let fresh := (g.childrenOf parent).filter (· ∉ found)
    descend g steps (queue ++ fresh) (found ++ fresh)

/-- The property and everything grouped under it, ancestors first. -/
def subtree (g : Graph) (root : PropertyId) : List PropertyId :=
  descend g g.properties.size [root] [root]

/-- Unbinds a node from the property, which is about to go. -/
def unbindNode (property : PropertyId) (node : NodeId) : Edit Unit := do
  match ((← current).nodes.get? node).bind (·.behavior) with
  | some behavior =>
    if behavior.bound = some property then
      match behavior with
      | .scripted script => report (.unbound script.kind property)
      | _ => pure ()
      update fun g => { g with
        nodes := g.nodes.modify node fun n =>
          { n with behavior := some (behavior.unbind property) } }
  | none => return

/-- Removes one property and every binding to it. -/
def dropProperty (id : PropertyId) : Edit Unit := do
  announce (.propertyDeleted id)
  (← current).nodes.keys.forM (unbindNode id)
  update fun g => { g with properties := g.properties.erase id }

/-- Deletes a property and its descendants, descendants first. -/
def deleteProperty (id : PropertyId) : Edit Bool := do
  let g ← current
  if g.properties.contains id then
    (g.subtree id).reverse.forM dropProperty
    return true
  else
    return false

end FlowGraph.Graph
