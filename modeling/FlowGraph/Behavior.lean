import FlowGraph.Pin

/-!
# Behaviors

What one kind of node is: the pins it declares, the property it is bound to and the state it saves.
What a node computes is in `FlowGraph.Evaluation.Body`.

Six kinds are built in.  The seventh, `scripted`, is an open one: its pins, flags and state are
given as data, and its body is a list of actions on a register.
-/

namespace FlowGraph

/-- The operation of an arithmetic node. -/
inductive Operation where
  | add
  | multiply
deriving DecidableEq, Repr, Inhabited

namespace Operation

def kind : Operation → String
  | add => "add"
  | multiply => "multiply"

def apply : Operation → Float32 → Float32 → Float32
  | add, a, b => a + b
  | multiply, a, b => a * b

end Operation

/-- One step of a scripted body.  Indices count value pins, without the flow pins. -/
inductive Action where
  /-- Loads the register from a value input. -/
  | input (index : Nat)
  /-- Loads the register from a value input that has to be of the type. -/
  | inputOf (index : Nat) (type : ValueType)
  /-- Writes the register to a value output. -/
  | output (index : Nat)
  | load (value : Value)
  | readProperty (property : PropertyId)
  | writeProperty (property : PropertyId)
  | fail (message : String)
  | missing (input : String)
deriving DecidableEq, Repr, Inhabited

/-- The definition of a scripted node. -/
structure Script where
  kind : String
  flow : Bool := false
  pins : List PinSpec := []
  actions : List Action := []
  /-- Whether the node can be bound to a property. -/
  bindable : Bool := false
  bound : Option PropertyId := none
  state : Json := .null
deriving Repr, Inhabited

inductive Behavior where
  /-- The entry point of a flow pass. -/
  | eventBegin
  /-- Logs its input and passes it on. -/
  | logValue (label : String)
  | floatConstant (value : Float32)
  | arithmetic (op : Operation)
  /-- Passes on the value of the bound property. -/
  | getVariable (property : Option PropertyId)
  /-- Stores its input in the bound property and passes on what is stored. -/
  | setVariable (property : Option PropertyId)
  | scripted (script : Script)
deriving Repr, Inhabited

namespace Behavior

/-- The identifier of the node type. -/
def kind : Behavior → String
  | eventBegin => "event_begin"
  | logValue _ => "log_value"
  | floatConstant _ => "float_constant"
  | arithmetic op => op.kind
  | getVariable _ => "get_variable"
  | setVariable _ => "set_variable"
  | scripted script => script.kind

/-- Whether the node is scheduled by flow.  The others are pure: they run when a consumer needs
    them. -/
def hasFlow : Behavior → Bool
  | eventBegin | logValue _ | setVariable _ => true
  | floatConstant _ | arithmetic _ | getVariable _ => false
  | scripted script => script.flow

def isBuiltin : Behavior → Bool
  | scripted _ => false
  | _ => true

/-- The property the node reads or writes. -/
def bound : Behavior → Option PropertyId
  | getVariable property | setVariable property => property
  | scripted script => script.bound
  | _ => none

/-- The behavior bound to the property, for the kinds that can be bound. -/
def bind? (property : PropertyId) : Behavior → Option Behavior
  | getVariable _ => some (getVariable (some property))
  | setVariable _ => some (setVariable (some property))
  | scripted script =>
    if script.bindable then some (scripted { script with bound := some property }) else none
  | _ => none

/-- Drops a binding to the property; other bindings stay. -/
def unbind (property : PropertyId) (b : Behavior) : Behavior :=
  if b.bound = some property then
    match b with
    | getVariable _ => getVariable none
    | setVariable _ => setVariable none
    | scripted script => scripted { script with bound := none }
    | other => other
  else b

/-- The declared pins, in order.  A bound variable takes the type of its property, which `valueOf`
    looks up; an unbound one has no value pins. -/
def layout (valueOf : PropertyId → Option Value) : Behavior → List PinSpec
  | eventBegin => [.flow .output]
  | logValue _ =>
    [.flow .input, .flow .output, .input "Value" (.float 0), .output "Value" (.float 0)]
  | floatConstant value => [.output "Value" (.float value)]
  | arithmetic _ => [.input "A" (.float 0), .input "B" (.float 0), .output "Result" (.float 0)]
  | getVariable property =>
    match property.bind valueOf with
    | some value => [.output "Value" value]
    | none => []
  | setVariable property =>
    match property.bind valueOf with
    | some value => [.flow .input, .flow .output, .input "Value" value, .output "Value" value]
    | none => [.flow .input, .flow .output]
  | scripted script => script.pins

/-! ## Saved state -/

/-- The state of a variable node. -/
def bindingState (property : Option PropertyId) : Json :=
  .object [("property", property.elim .null fun id => .nat id.number)]

/-- The state to save; `null` for the kinds without one. -/
def saveState : Behavior → Json
  | logValue label => .object [("label", .string label)]
  | floatConstant value => .object [("value", .single value)]
  | getVariable property | setVariable property => bindingState property
  | scripted script => script.state
  | eventBegin | arithmetic _ => .null

/-- Reads the state of a variable node. -/
def readBinding (record : String) : Json → Json.Reading (Option PropertyId) :=
  Json.readRecord record "property" none
    (Json.readOption fun v => v.readNat64.map PropertyId.mk)

/-- The behavior after its saved state was restored; `null` changes nothing. -/
def loadState (b : Behavior) (state : Json) : Json.Reading Behavior :=
  if state.isNull then .ok b
  else
    match b with
    | logValue _ => (Json.readRecord "LogValue" "label" "" Json.readString state).map logValue
    | floatConstant _ =>
      (Json.readRecord "FloatConstant" "value" 0 Json.readSingle state).map floatConstant
    | getVariable _ => (readBinding "GetVariable" state).map getVariable
    | setVariable _ => (readBinding "SetVariable" state).map setVariable
    | eventBegin => .ok eventBegin
    | arithmetic op => .ok (arithmetic op)
    | scripted script => .ok (scripted script)

@[simp] theorem kind_unbind (p : PropertyId) (b : Behavior) : (b.unbind p).kind = b.kind := by
  unfold unbind
  split
  · cases b <;> rfl
  · rfl

@[simp] theorem hasFlow_unbind (p : PropertyId) (b : Behavior) :
    (b.unbind p).hasFlow = b.hasFlow := by
  unfold unbind
  split
  · cases b <;> rfl
  · rfl

theorem bound_unbind (p : PropertyId) (b : Behavior) :
    (b.unbind p).bound = if b.bound = some p then none else b.bound := by
  unfold unbind
  split
  · cases b <;> rfl
  · rfl

end Behavior

end FlowGraph
