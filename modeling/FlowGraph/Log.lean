/-!
# Log lines

A log line has a level, the part of the program it comes from, a message and named fields.
-/

namespace FlowGraph

inductive Level where
  | error
  | warn
  | info
deriving DecidableEq, Repr, Inhabited

def Level.name : Level → String
  | .error => "ERROR"
  | .warn => "WARN"
  | .info => "INFO"

/-- How much is lost by hiding a level: errors matter most. -/
def Level.rank : Level → Nat
  | .error => 3
  | .warn => 2
  | .info => 1

/-- The part of the program that writes a line. -/
inductive Source where
  | runner
  | evaluation
  | document
  | eventNode
deriving DecidableEq, Repr, Inhabited

/-- The name of a part as log lines show it. -/
def Source.name : Source → String
  | .runner => "nodeflow_runner"
  | .evaluation => "nodeflow_graph::evaluator"
  | .document => "nodeflow_graph::document"
  | .eventNode => "nodeflow_graph::nodes::event"

/-- The content of a field: text, or a number that is shown as its double. -/
inductive LogField where
  | text (s : String)
  | number (x : Float32)
deriving DecidableEq, Repr, Inhabited

structure LogLine where
  level : Level
  source : Source
  message : String
  fields : List (String × LogField) := []
deriving DecidableEq, Repr, Inhabited

end FlowGraph
