/-!
# Identifiers of entities

Nodes, pins, links and properties are numbered from one counter, so a number names at most one
entity of a graph; the four types keep apart which kind is meant.
-/

namespace FlowGraph

structure NodeId where
  number : Nat
deriving DecidableEq, Repr, Inhabited

structure PinId where
  number : Nat
deriving DecidableEq, Repr, Inhabited

structure LinkId where
  number : Nat
deriving DecidableEq, Repr, Inhabited

structure PropertyId where
  number : Nat
deriving DecidableEq, Repr, Inhabited

def NodeId.text (id : NodeId) : String := s!"node#{id.number}"

def PinId.text (id : PinId) : String := s!"pin#{id.number}"

def LinkId.text (id : LinkId) : String := s!"link#{id.number}"

def PropertyId.text (id : PropertyId) : String := s!"property#{id.number}"

/-- The largest number of 64 bits, where the counter of a graph stops. -/
def lastNumber : Nat := 0xffffffffffffffff

/-- The number after `n`; the last number is its own successor. -/
def nextNumber (n : Nat) : Nat := min (n + 1) lastNumber

end FlowGraph
