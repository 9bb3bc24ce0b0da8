import FlowGraph.Behavior

/-!
# Registries

A registry lists the node types a graph can create nodes from, in the order in which they were
registered.  A type registered again under its id replaces the earlier one where it stands.
`Registry.builtin` is the catalog of the built-in behaviors.

There is no table of value types in a registry.  The nine core types of `ValueType` are in every
registry from the start and none can be taken out, so documents are read with these
(`ValueType.ofTag?`); further types of one's own are not part of this library.
-/

namespace FlowGraph

inductive Category where
  | event
  | input
  | math
  | variable
  | utility
  | custom
deriving DecidableEq, Repr, Inhabited

namespace Category

def all : List Category := [.event, .input, .math, .variable, .utility, .custom]

def name : Category → String
  | .event => "Event"
  | .input => "Input"
  | .math => "Math"
  | .variable => "Variable"
  | .utility => "Utility"
  | .custom => "Custom"

end Category

structure NodeType where
  id : String
  /-- The name new nodes get. -/
  name : String
  category : Category
  description : String
  /-- The behavior new nodes get. -/
  fresh : Behavior
deriving Repr, Inhabited

structure Registry where
  types : List NodeType := []
deriving Repr, Inhabited

namespace Registry

/-- A registry without node types. -/
def core : Registry := {}

/-- Replaces the type with the same id, or adds the type at the end. -/
def put (new : NodeType) : List NodeType → List NodeType
  | [] => [new]
  | t :: rest => if t.id = new.id then new :: rest else t :: put new rest

def register (r : Registry) (type : NodeType) : Registry := ⟨put type r.types⟩

def get? (r : Registry) (id : String) : Option NodeType := r.types.find? (·.id = id)

def inCategory (r : Registry) (category : Category) : List NodeType :=
  r.types.filter (·.category = category)

/-- A new behavior of the type. -/
def behavior? (r : Registry) (id : String) : Option Behavior := (r.get? id).map (·.fresh)

/-- The built-in node types. -/
def builtin : Registry where
  types := [
    ⟨"event_begin", "Event Begin", .event, "Entry point of a flow pass", .eventBegin⟩,
    ⟨"log_value", "Log Value", .utility, "Log a float to the engine log", .logValue ""⟩,
    ⟨"float_constant", "Float", .input, "Constant float value", .floatConstant 0⟩,
    ⟨"add", "Add", .math, "A + B", .arithmetic .add⟩,
    ⟨"multiply", "Multiply", .math, "A * B", .arithmetic .multiply⟩,
    ⟨"get_variable", "Get Variable", .variable, "Read a graph property", .getVariable none⟩,
    ⟨"set_variable", "Set Variable", .variable, "Write a graph property", .setVariable none⟩]

end Registry

end FlowGraph
