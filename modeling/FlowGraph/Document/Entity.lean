import FlowGraph.Document
import FlowGraph.Graph.Basic

/-!
# Records of entities

How each entity is written to a document and read back.  References to other entities are read as
bare ids; whether they lead anywhere is decided when the whole graph is loaded.
-/

namespace FlowGraph

/-! ## Values -/

/-- Writes a value: its tag, its size, and its content unless that is `null`. -/
def Document.setValue (d : Document) (value : Value) : Document :=
  let d := (d.set "type" (.string value.type.tag)).set "size" (.nat value.type.size)
  if value.toJson.isNull then d else d.set "value" value.toJson

/-- Reads a value; without content it is the first value of its type. -/
def Document.readValue (d : Document) : Except DocumentError Value := do
  let tag ← d.require "type" Json.readString
  let size ← d.require "size" Json.readCount
  match ValueType.ofTag? tag size with
  | none => .error (.unknownValueType tag size)
  | some type =>
    match d.get? "value" with
    | none => .ok (Value.ofType type)
    | some json => ((Value.ofType type).load json).mapError .value

/-! ## Nodes -/

/-- A node as a document has it, with its lists of pins still unresolved. -/
structure NodeRecord where
  node : Node
  inputs : List Nat
  outputs : List Nat
deriving Repr

def Node.toDocument (n : Node) : Document :=
  let d := Document.ofFields [
    ("id", .nat n.id.number),
    ("type", .string n.type),
    ("name", .string n.name),
    ("inputs", .list (n.inputs.map fun pin => .nat pin.number)),
    ("outputs", .list (n.outputs.map fun pin => .nat pin.number))]
  match n.behavior.map Behavior.saveState with
  | some state => if state.isNull then d else d.set "state" state
  | none => d

/-- A new behavior of the type, with the saved state if there is one. -/
def Registry.restore (registry : Registry) (id : NodeId) (type : String) (state : Option Json) :
    Except DocumentError Behavior :=
  match registry.behavior? type with
  | none => .error (.unknownNodeType type)
  | some fresh =>
    match state with
    | none => .ok fresh
    | some json => (fresh.loadState json).mapError (.state id)

def NodeRecord.read (registry : Registry) (d : Document) : Except DocumentError NodeRecord := do
  let id : NodeId := ⟨← d.require "id" Json.readNat64⟩
  let type ← d.require "type" Json.readString
  let behavior ← registry.restore id type (d.get? "state")
  let name ← d.optional "name" Json.readString
  let inputs ← d.optional "inputs" Json.readNats
  let outputs ← d.optional "outputs" Json.readNats
  return ⟨.ofBehavior id (name.getD type) behavior, inputs.getD [], outputs.getD []⟩

/-! ## Pins -/

/-- A pin as a document has it, with its list of links still unresolved. -/
structure PinRecord where
  pin : Pin
  links : List Nat
deriving Repr

def Pin.toDocument (p : Pin) : Document :=
  let d := Document.ofFields [
    ("id", .nat p.id.number),
    ("name", .string p.name),
    ("direction", p.direction.toJson),
    ("node", .nat p.node.number)]
  (d.setValue p.value).set "links" (.list (p.links.map fun link => .nat link.number))

def PinRecord.read (d : Document) : Except DocumentError PinRecord := do
  let id ← d.require "id" Json.readNat64
  let node ← d.require "node" Json.readNat64
  let name ← d.require "name" Json.readString
  let direction ← d.require "direction" Direction.read
  let value ← d.readValue
  let links ← d.optional "links" Json.readNats
  return ⟨.ofSpec ⟨id⟩ ⟨node⟩ ⟨name, direction, value⟩, links.getD []⟩

/-! ## Links -/

def Link.toDocument (l : Link) : Document :=
  Document.ofFields [
    ("id", .nat l.id.number),
    ("start", .nat l.start.number),
    ("end", .nat l.finish.number)]

def Link.read (d : Document) : Except DocumentError Link := do
  let id ← d.require "id" Json.readNat64
  let start ← d.require "start" Json.readNat64
  let finish ← d.require "end" Json.readNat64
  return ⟨⟨id⟩, ⟨start⟩, ⟨finish⟩⟩

/-! ## Properties -/

/-- A property as a document has it, with its parent still unresolved. -/
structure PropertyRecord where
  property : Property
  parent : Option PropertyId
deriving Repr

def Property.toDocument (p : Property) : Document :=
  let d := (Document.ofFields [("id", .nat p.id.number), ("name", .string p.name)]).setValue p.value
  match p.parent with
  | some parent => d.set "parent" (.nat parent.number)
  | none => d

def PropertyRecord.read (d : Document) : Except DocumentError PropertyRecord := do
  let id ← d.require "id" Json.readNat64
  let name ← d.require "name" Json.readString
  let value ← d.readValue
  let parent ← d.optional "parent" Json.readNat64
  return ⟨⟨⟨id⟩, name, value, none⟩, parent.map PropertyId.mk⟩

/-! ## The whole graph -/

/-- Saves a graph. -/
def Graph.toDocument (g : Graph) : GraphDocument where
  version := documentVersion
  name := g.name
  nextId := g.nextId
  nodes := g.nodes.values.map Node.toDocument
  pins := g.pins.values.map Pin.toDocument
  links := g.links.values.map Link.toDocument
  properties := g.properties.values.map Property.toDocument

end FlowGraph
