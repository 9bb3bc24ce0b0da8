import FlowGraph.Id
import FlowGraph.Value

/-!
# Properties

A property is a named value that lives outside any node; variable nodes read and write it.  A
property may be grouped under a parent.
-/

namespace FlowGraph

structure Property where
  id : PropertyId
  name : String
  value : Value
  parent : Option PropertyId := none
deriving DecidableEq, Repr, Inhabited

def Property.type (p : Property) : ValueType := p.value.type

end FlowGraph
