import FlowGraph.Graph.Layout

/-!
# Properties and the values in a graph

A value is only ever replaced by one of its own type, so writing to a pin or a property can be
refused but never changes what it is.
-/

namespace FlowGraph.Graph

open Edit

/-- Writes a value to a pin. -/
def setPin (id : PinId) (value : Value) : Edit (Except GraphError Unit) := do
  match (← current).pins.get? id with
  | none => return .error (.unknownPin id)
  | some pin =>
    match pin.value.copy value with
    | .error cause => return .error (.value cause)
    | .ok v =>
      update fun g => { g with pins := g.pins.modify id fun p => { p with value := v } }
      return .ok ()

/-- Copies the value of one pin to another. -/
def copyPin (source target : PinId) : Edit (Except GraphError Unit) := do
  match (← current).pins.get? source with
  | none => return .error (.unknownPin source)
  | some pin => setPin target pin.value

/-- Adds a property, under a parent if one is given. -/
def createProperty (name : String) (value : Value) (parent : Option PropertyId) :
    Edit (Except GraphError PropertyId) := do
  let g ← current
  match parent.filter fun id => !g.properties.contains id with
  | some missing => return .error (.unknownProperty missing)
  | none =>
    let id : PropertyId := ⟨← allocate⟩
    update fun g => { g with properties := g.properties.insert id ⟨id, name, value, parent⟩ }
    return .ok id

/-- Writes a value to a property and tells the observers. -/
def setProperty (id : PropertyId) (value : Value) : Edit (Except GraphError Unit) := do
  match (← current).properties.get? id with
  | none => return .error (.unknownProperty id)
  | some property =>
    match property.value.copy value with
    | .error cause => return .error (.value cause)
    | .ok v =>
      update fun g => { g with
        properties := g.properties.modify id fun p => { p with value := v } }
      announce (.propertyModified id)
      return .ok ()

/-- Binds a variable node to a property and gives it the pins of the property's type. -/
def bindNode (node : NodeId) (property : PropertyId) : Edit (Except GraphError Unit) := do
  let g ← current
  if g.properties.contains property then
    match g.nodes.get? node with
    | none => return .error (.unknownNode node)
    | some n =>
      match n.behavior with
      | none => return .error (.nodeBusy node)
      | some behavior =>
        match behavior.bind? property with
        | none => return .error (.notBindable node)
        | some bound =>
          update fun g => { g with
            nodes := g.nodes.modify node fun n => { n with behavior := some bound } }
          relayout node
  else
    return .error (.unknownProperty property)

end FlowGraph.Graph
