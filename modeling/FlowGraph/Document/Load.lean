import FlowGraph.Document.Entity
import FlowGraph.Document.Repair
import FlowGraph.Graph.Linking

/-!
# Loading a graph

Records come first and references second.  Every record is read and its id taken; a record that
cannot be read, an id used twice and an id out of range are errors.  Then the references are
restored: parents, pin lists, links and bindings, in this order.  A reference that leads nowhere is
never an error, it is left out and noted as a repair.

The saved link lists of pins are only compared with the links, never used: an end of a link is
entered at its pin when the link itself is restored.
-/

namespace FlowGraph

/-! ## Reading the records -/

/-- Adds an id to those in use. -/
def takeId (used : List Nat) (id : Nat) : Except DocumentError (List Nat) :=
  if id > maxDocumentId then .error (.idOutOfRange id)
  else if id ∈ used then .error (.duplicateId id)
  else .ok (id :: used)

/-- Reads records in order and takes their ids, each before the next record is read. -/
def readRecords {α : Type} (read : Document → Except DocumentError α) (idOf : α → Nat) :
    List Nat → List Document → Except DocumentError (List α × List Nat)
  | used, [] => .ok ([], used)
  | used, d :: rest => do
    let a ← read d
    let used ← takeId used (idOf a)
    let (as, used) ← readRecords read idOf used rest
    return (a :: as, used)

/-- Everything a document holds, with references still unresolved. -/
structure Records where
  properties : List PropertyRecord
  nodes : List NodeRecord
  pins : List PinRecord
  links : List Link
  /-- The ids of all records. -/
  ids : List Nat
deriving Repr

def GraphDocument.readAll (registry : Registry) (d : GraphDocument) :
    Except DocumentError Records := do
  let (properties, ids) ← readRecords PropertyRecord.read (·.property.id.number) [] d.properties
  let (nodes, ids) ← readRecords (NodeRecord.read registry) (·.node.id.number) ids d.nodes
  let (pins, ids) ← readRecords PinRecord.read (·.pin.id.number) ids d.pins
  let (links, ids) ← readRecords Link.read (·.id.number) ids d.links
  return ⟨properties, nodes, pins, links, ids⟩

/-- The entities of the records but for the links, before any reference is restored. -/
def Records.entities (r : Records) (name : String) (registry : Registry) : Graph :=
  { Graph.new name registry with
    properties := r.properties.foldl (fun t p => t.insert p.property.id p.property) {}
    nodes := r.nodes.foldl (fun t n => t.insert n.node.id n.node) {}
    pins := r.pins.foldl (fun t p => t.insert p.pin.id p.pin) {} }

/-! ## Restoring the references -/

/-- A graph with the repairs made to it so far. -/
abbrev Restored := Graph × List Repair

/-- Restores one item after the other and collects the repairs. -/
def restoreEach {α : Type} (restore : Graph → α → Restored) (items : List α)
    (start : Restored) : Restored :=
  items.foldl
    (fun done item =>
      let next := restore done.1 item
      (next.1, done.2 ++ next.2))
    start

/-- Whether `ancestor` is the property itself or above it, looking at most `steps` parents up.  Only
    restored parents are followed and those have no cycle, so the number of properties is enough. -/
def Graph.isAncestor (g : Graph) (ancestor : PropertyId) : Nat → PropertyId → Bool
  | 0, property => property = ancestor
  | steps + 1, property =>
    property = ancestor ||
      match (g.properties.get? property).bind (·.parent) with
      | some parent => g.isAncestor ancestor steps parent
      | none => false

/-- Restores the parent of a property. -/
def restoreParent (g : Graph) (r : PropertyRecord) : Restored :=
  match r.parent with
  | none => (g, [])
  | some parent =>
    let id := r.property.id
    if !g.properties.contains parent then (g, [.parentMissing id parent])
    else if g.isAncestor id g.properties.size parent then (g, [.parentCycle id parent])
    else
      let properties := g.properties.modify id fun p => { p with parent := some parent }
      ({ g with properties := properties }, [])

/-- Whether the pin belongs to the node on the given side. -/
def Graph.owns (g : Graph) (node : NodeId) (direction : Direction) (pin : PinId) : Bool :=
  (g.pins.get? pin).any fun p => p.node = node && p.direction = direction

/-- The saved pins of one side of a node: those that are its own, and a repair for each other. -/
def ownPins (g : Graph) (node : NodeId) (direction : Direction) (saved : List Nat) :
    List PinId × List Repair :=
  let (own, foreign) := (saved.map PinId.mk).partition (g.owns node direction)
  (own, foreign.map (.pinUnresolved node))

/-- Restores the pin lists of a node. -/
def restorePins (g : Graph) (r : NodeRecord) : Restored :=
  let id := r.node.id
  let (inputs, badInputs) := ownPins g id .input r.inputs
  let (outputs, badOutputs) := ownPins g id .output r.outputs
  ({ g with
      nodes := g.nodes.modify id fun n => { n with inputs := inputs, outputs := outputs } },
    badInputs ++ badOutputs)

/-- Removes a pin that no node lists. -/
def dropOrphan (g : Graph) (pin : PinId) : Restored :=
  ({ g with pins := g.pins.erase pin }, [.pinOrphaned pin])

/-- The pins that no node lists. -/
def Graph.orphans (g : Graph) : List PinId :=
  let listed := g.nodes.values.flatMap Node.pins
  g.pins.keys.filter (· ∉ listed)

/-- Restores a link if both ends are there, fit, and the input is still free. -/
def restoreLink (g : Graph) (link : Link) : Restored :=
  match g.pins.get? link.start, g.pins.get? link.finish with
  | some p, some q =>
    if !p.canConnect q then (g, [.linkIncompatible link.id])
    else if [p, q].any fun pin => pin.direction = .input && pin.isConnected then
      (g, [.linkSecond link.id])
    else (Graph.addLink link g, [])
  | _, _ => (g, [.linkDangling link.id])

/-- Compares the saved links of a pin with the restored ones. -/
def checkLinks (g : Graph) (r : PinRecord) : Restored :=
  let lost := (r.links.map LinkId.mk).filter fun id =>
    !(g.links.get? id).any (·.involves r.pin.id)
  (g, lost.map (.linkUnresolved r.pin.id))

/-- Unbinds a node from a property that is not there. -/
def restoreBinding (g : Graph) (id : NodeId) : Restored :=
  match ((g.nodes.get? id).bind (·.behavior)).bind Behavior.bound with
  | none => (g, [])
  | some property =>
    if g.properties.contains property then (g, [])
    else
      ({ g with
          nodes := g.nodes.modify id fun n =>
            { n with behavior := n.behavior.map (·.unbind property) } },
        [.bindingMissing id property])

/-- Restores all references of the records. -/
def Records.restore (r : Records) (g : Graph) : Restored :=
  let parents := restoreEach restoreParent r.properties (g, [])
  let nodes := restoreEach restorePins r.nodes parents
  let owned := restoreEach dropOrphan nodes.1.orphans nodes
  let links := restoreEach restoreLink r.links owned
  let checked := restoreEach checkLinks r.pins links
  restoreEach restoreBinding checked.1.nodes.keys checked

/-- Where the counter goes on: after the highest id in use, or later if the document says so. -/
def resumeAt (saved : Nat) (ids : List Nat) : Except DocumentError Nat :=
  let highest := ids.foldl max 0
  if highest < lastNumber then .ok (max saved (highest + 1))
  else .error (.idOutOfRange highest)

/-- Builds the graph of a document, with the repairs that were needed. -/
def GraphDocument.load (registry : Registry) (d : GraphDocument) :
    Except DocumentError (Graph × List Repair) := do
  d.checkVersion
  if d.nextId > maxDocumentId then .error (.idOutOfRange d.nextId)
  let records ← d.readAll registry
  let (g, repairs) := records.restore (records.entities d.name registry)
  let nextId ← resumeAt d.nextId records.ids
  return ({ g with nextId := nextId }, repairs)

end FlowGraph
