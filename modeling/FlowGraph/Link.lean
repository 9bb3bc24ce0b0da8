import FlowGraph.Id

/-!
# Links

A link joins two pins.  Which of them feeds the other is decided by their directions; `start` and
`finish` only record the order in which the two were given.
-/

namespace FlowGraph

structure Link where
  id : LinkId
  start : PinId
  finish : PinId
deriving DecidableEq, Repr, Inhabited

namespace Link

def involves (l : Link) (pin : PinId) : Bool := l.start = pin || l.finish = pin

def ends (l : Link) : List PinId := [l.start, l.finish]

/-- The end that is not `pin`. -/
def otherEnd? (l : Link) (pin : PinId) : Option PinId :=
  if l.start = pin then some l.finish
  else if l.finish = pin then some l.start
  else none

/-- A link has another end for exactly the pins it involves. -/
theorem isSome_otherEnd? (l : Link) (pin : PinId) : (l.otherEnd? pin).isSome = l.involves pin := by
  unfold otherEnd? involves
  by_cases hs : l.start = pin <;> by_cases hf : l.finish = pin <;> simp [hs, hf]

end Link

end FlowGraph
