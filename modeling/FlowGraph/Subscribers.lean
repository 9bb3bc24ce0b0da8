import FlowGraph.Report

/-!
# Subscribers

Observers of a graph are called in the order in which they subscribed.  Each subscription has a
number of its own, which is not given out again after the subscription ended.
-/

namespace FlowGraph

structure SubscriptionId where
  number : Nat
deriving DecidableEq, Repr, Inhabited

def SubscriptionId.text (id : SubscriptionId) : String := s!"SubscriptionId({id.number})"

/-- The observers of a graph; `α` is what an observer is. -/
structure Subscribers (α : Type) where
  next : Nat := 0
  entries : List (SubscriptionId × α) := []
deriving Repr, Inhabited

namespace Subscribers

variable {α β : Type}

/-- Adds an observer behind the others. -/
def subscribe (s : Subscribers α) (observer : α) : SubscriptionId × Subscribers α :=
  let id : SubscriptionId := ⟨s.next⟩
  (id, ⟨s.next + 1, s.entries ++ [(id, observer)]⟩)

/-- Ends a subscription; the answer says whether there was one. -/
def unsubscribe (s : Subscribers α) (id : SubscriptionId) : Bool × Subscribers α :=
  (s.entries.any (·.1 = id), { s with entries := s.entries.filter (·.1 ≠ id) })

/-- Calls every observer, in order. -/
def callAll (s : Subscribers α) (call : α → β) : List β := s.entries.map fun (_, a) => call a

end Subscribers

end FlowGraph
