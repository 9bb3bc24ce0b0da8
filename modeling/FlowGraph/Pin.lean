import FlowGraph.Id
import FlowGraph.Value

/-!
# Pins

A pin is a typed connection point of one node.  Its type is the type of the value it holds and
never changes.  The list of links is kept in the order in which the links were made; an input holds
at most one of them.
-/

namespace FlowGraph

inductive Direction where
  | input
  | output
deriving DecidableEq, Repr, Inhabited

namespace Direction

def opposite : Direction → Direction
  | input => output
  | output => input

/-- The name under which a direction is saved. -/
def name : Direction → String
  | input => "Input"
  | output => "Output"

def toJson (d : Direction) : Json := .string d.name

def ofName (name : String) : Json.Reading Direction :=
  if name = "Input" then .ok .input
  else if name = "Output" then .ok .output
  else .error (.unknownDirection name)

/-- Reads a direction: its name, or an object whose only field is that name with nothing in it. -/
def read : Json → Json.Reading Direction
  | .string name => ofName name
  | .object [(name, payload)] => do
    let d ← ofName name
    if payload.isNull then .ok d else .error (.shape payload .noPayload)
  | .object _ => .error .notOneField
  | v => .error (.shape v .variant)

@[simp] theorem opposite_opposite (d : Direction) : d.opposite.opposite = d := by
  cases d <;> rfl

end Direction

/-- A pin as a node declares it, before it has an id. -/
structure PinSpec where
  name : String
  direction : Direction
  /-- The first value, which also fixes the type. -/
  value : Value
deriving DecidableEq, Repr, Inhabited

namespace PinSpec

/-- The pin through which flow enters or leaves a node. -/
def flow (direction : Direction) : PinSpec := ⟨"Exec", direction, .flow⟩

def input (name : String) (value : Value) : PinSpec := ⟨name, .input, value⟩

def output (name : String) (value : Value) : PinSpec := ⟨name, .output, value⟩

end PinSpec

structure Pin where
  id : PinId
  name : String
  direction : Direction
  /-- The owning node. -/
  node : NodeId
  value : Value
  links : List LinkId := []
deriving DecidableEq, Repr, Inhabited

namespace Pin

def ofSpec (id : PinId) (node : NodeId) (spec : PinSpec) : Pin where
  id := id
  name := spec.name
  direction := spec.direction
  node := node
  value := spec.value

def type (p : Pin) : ValueType := p.value.type

def isFlow (p : Pin) : Bool := p.value.isFlow

def isConnected (p : Pin) : Bool := !p.links.isEmpty

/-- Whether a link between the pins is allowed: two pins, one type, opposite directions. -/
def canConnect (p q : Pin) : Bool :=
  q.id ≠ p.id && q.type = p.type && q.direction ≠ p.direction

/-- The link that feeds the pin: the only link of an input. -/
def feedingLink? (p : Pin) : Option LinkId :=
  match p.direction, p.links with
  | .input, [link] => some link
  | _, _ => none

/-- Records a new link.  An input forgets whatever it held. -/
def connect (p : Pin) (link : LinkId) : Pin :=
  match p.direction with
  | .input => { p with links := [link] }
  | .output => { p with links := p.links ++ [link] }

/-- Forgets a link. -/
def disconnect (p : Pin) (link : LinkId) : Pin :=
  { p with links := p.links.filter (· ≠ link) }

theorem canConnect_comm (p q : Pin) : p.canConnect q = q.canConnect p := by
  simp [canConnect, eq_comm]

end Pin

end FlowGraph
