import FlowGraph.Id
import FlowGraph.Log

/-!
# Repairs

A document may refer to entities that are not in it or contradict itself.  Such a reference is
dropped rather than refused, and each one dropped is a repair.
-/

namespace FlowGraph

inductive Repair where
  /-- The parent is not in the document. -/
  | parentMissing (property parent : PropertyId)
  /-- The parent is below the property already. -/
  | parentCycle (property parent : PropertyId)
  /-- A node lists a pin that is not in the document or not its own. -/
  | pinUnresolved (node : NodeId) (pin : PinId)
  /-- No node lists the pin. -/
  | pinOrphaned (pin : PinId)
  | linkDangling (link : LinkId)
  | linkIncompatible (link : LinkId)
  /-- The link would be the second into its input. -/
  | linkSecond (link : LinkId)
  /-- A pin lists a link that was not restored or does not touch it. -/
  | linkUnresolved (pin : PinId) (link : LinkId)
  /-- A variable is bound to a property that is not in the document. -/
  | bindingMissing (node : NodeId) (property : PropertyId)
deriving DecidableEq, Repr

namespace Repair

def message : Repair → String
  | parentMissing .. => "Dropping unresolved property parent"
  | parentCycle .. => "Dropping property parent that closes a cycle"
  | pinUnresolved .. => "Dropping unresolved pin reference"
  | pinOrphaned _ => "Dropping pin not owned by any loaded node"
  | linkDangling _ => "Dropping link with unresolved endpoint"
  | linkIncompatible _ => "Dropping link between incompatible pins"
  | linkSecond _ => "Dropping second link into an input pin"
  | linkUnresolved .. => "Dropping unresolved link reference"
  | bindingMissing .. => "Unbinding variable from missing property"

/-- The entities involved, under the names the log gives them. -/
def fields : Repair → List (String × String)
  | parentMissing property parent | parentCycle property parent =>
    [("property", property.text), ("parent", parent.text)]
  | pinUnresolved node pin => [("node", node.text), ("pin", pin.text)]
  | pinOrphaned pin => [("pin", pin.text)]
  | linkDangling link | linkIncompatible link | linkSecond link => [("link", link.text)]
  | linkUnresolved pin link => [("pin", pin.text), ("link", link.text)]
  | bindingMissing node property => [("node", node.text), ("property", property.text)]

def line (r : Repair) : LogLine where
  level := .warn
  source := .document
  message := r.message
  fields := r.fields.map fun (name, text) => (name, .text text)

end Repair

end FlowGraph
