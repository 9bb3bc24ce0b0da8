import FlowGraph.Graph.Deletion

/-!
# Linking

A link joins an input with an output of the same type.  The input gives up whatever fed it before,
while an output may feed any number of inputs.
-/

namespace FlowGraph.Graph

open Edit

/-- Whether the two pins exist and may be linked, in both orders; nothing if one is missing. -/
def canConnect? (g : Graph) (a b : PinId) : Option (Bool × Bool) := do
  let p ← g.pins.get? a
  let q ← g.pins.get? b
  return (p.canConnect q, q.canConnect p)

/-- Adds a link and enters it at both ends. -/
def addLink (link : Link) (g : Graph) : Graph :=
  { g with
    links := g.links.insert link.id link
    pins := (g.pins.modify link.start (·.connect link.id)).modify link.finish (·.connect link.id) }

/-- Links two pins, in either order. -/
def createLink (a b : PinId) : Edit (Except GraphError LinkId) := do
  let g ← current
  match g.pins.get? a, g.pins.get? b with
  | none, _ => return .error (.unknownPin a)
  | _, none => return .error (.unknownPin b)
  | some p, some q =>
    if p.canConnect q then
      deleteLinks (if p.direction = .input then p else q).links
      let id : LinkId := ⟨← allocate⟩
      update (addLink ⟨id, a, b⟩)
      return .ok id
    else
      return .error (.incompatiblePins a b)

end FlowGraph.Graph
