import FlowGraph.Evaluation.Error
import FlowGraph.Log

/-!
# What a graph reports while it works

Observers are told about deletions before they take effect and about property writes after them.
An announcement comes with the graph as it stood at that moment.  Scripted nodes report their hooks
and the steps of their bodies; the engine logs values and failed passes.
-/

namespace FlowGraph

/-- A change announced to observers. -/
inductive Event where
  /-- The node is about to go; its pins are already gone. -/
  | nodeDeleted (id : NodeId)
  /-- The pin is about to go; its links are already gone. -/
  | pinDeleted (id : PinId)
  | linkDeleted (id : LinkId)
  | propertyDeleted (id : PropertyId)
  /-- The property holds a new value. -/
  | propertyModified (id : PropertyId)
deriving DecidableEq, Repr

/-- What the engine writes to its log. -/
inductive Notice where
  /-- A log node logged its input. -/
  | loggedValue (node : NodeId) (label : String) (value : Float32)
  | passFailed (entry : NodeId) (error : EvaluationError)
deriving Repr

def Notice.line : Notice → LogLine
  | .loggedValue node label value => {
      level := .info
      source := .eventNode
      message := "Log value"
      fields := [("node", .text node.text), ("label", .text label), ("value", .number value)] }
  | .passFailed entry error => {
      level := .warn
      source := .evaluation
      message := s!"Flow pass failed: {error.message}"
      fields := [("entry", .text entry.text), ("code", .text error.code.name)] }

inductive Report where
  | announced (event : Event) (graph : Graph)
  /-- A scripted node was told that a link of its pin is gone. -/
  | disconnected (kind : String) (pin : PinId)
  /-- A scripted node was told that its property is about to go. -/
  | unbound (kind : String) (property : PropertyId)
  /-- A scripted body starts; `away` says that its behavior is out of the graph meanwhile. -/
  | started (node : NodeId) (away : Bool)
  /-- The register of a scripted body after an action. -/
  | register (node : NodeId) (value : Value)
  | logged (notice : Notice)
deriving Repr

end FlowGraph
