import FlowGraph.Proofs.Evaluation.Outcome

/-!
# What bodies are made of

Every body is put together from the same few parts: it looks at the graph, reports, writes to pins
or to a property, or gives up in the name of its node.  So a property of steps that each of these
parts has, and that composing steps carries on, is one of every body (`BodyParts.body`).  Storing in
a property is asked for apart, since there are bodies that never do (`Behavior.stores`).
-/

namespace FlowGraph

open Eval

/-- Whether the action writes to a property. -/
def Action.stores : Action → Bool
  | .writeProperty _ => true
  | _ => false

/-- Whether the body may write to a property. -/
def Behavior.stores : Behavior → Bool
  | .setVariable _ => true
  | .scripted script => script.actions.any Action.stores
  | _ => false

/-- A property `R` of steps that the parts of the bodies of a node have, storing left out. -/
structure BodyParts (node : NodeId) (R : (α : Type) → Eval α → Prop) : Prop where
  pure : ∀ {α : Type} (a : α), R α (pure a)
  bind : ∀ {α β : Type} {m : Eval α} {f : α → Eval β}, R α m → (∀ a, R β (f a)) → R β (m >>= f)
  graph : R Graph Eval.graph
  missing : ∀ {α : Type} (input : String), R α (fail (.missingInput node input))
  failed : ∀ {α : Type} (reason : String), R α (fail (.failed node reason))
  logs : ∀ notice : Notice, R Unit (report (.logged notice))
  registers : ∀ v : Value, R Unit (report (.register node v))
  starts : ∀ away : Bool, R Unit (report (.started node away))
  pins : ∀ (p : PinId) (v : Value), R Unit (attempt node (Graph.setPin p v))

namespace BodyParts

variable {node : NodeId} {R : (α : Type) → Eval α → Prop} (h : BodyParts node R)
include h

theorem readInput (index : Nat) : R Value (readInput node index) := by
  refine h.bind h.graph fun g => ?_
  split
  · exact h.pure _
  · exact h.missing _

theorem readInputAs (index : Nat) (type : ValueType) : R Value (readInputAs node index type) := by
  refine h.bind (h.readInput index) fun v => ?_
  split
  · exact h.pure _
  · exact h.failed _

theorem readFloat (index : Nat) : R Float32 (readFloat node index) := by
  refine h.bind (h.readInput index) fun v => ?_
  split
  · exact h.pure _
  · exact h.failed _

theorem propertyOf (property : Option PropertyId) : R Value (propertyOf node property) := by
  refine h.bind h.graph fun g => ?_
  split
  · exact h.pure _
  · exact h.missing _

theorem writeOutput (index : Nat) (v : Value) : R Unit (writeOutput node index v) := by
  refine h.bind h.graph fun g => ?_
  split
  · exact h.pins _ v
  · exact h.failed _

theorem runAction (register : Value) (action : Action)
    (hstores : action.stores = true → ∀ p v, R Unit (attempt node (Graph.setProperty p v))) :
    R Value (runAction node register action) := by
  cases action with
  | input index => exact h.readInput index
  | inputOf index type => exact h.readInputAs index type
  | output index => exact h.bind (h.writeOutput index register) fun _ => h.pure _
  | load v => exact h.pure v
  | readProperty p => exact h.propertyOf (some p)
  | writeProperty p => exact h.bind (hstores rfl p register) fun _ => h.pure _
  | fail message => exact h.failed message
  | missing input => exact h.missing input

theorem runActions (actions : List Action)
    (hstores : actions.any Action.stores = true →
      ∀ p v, R Unit (attempt node (Graph.setProperty p v))) :
    ∀ register, R Unit (runActions node register actions) := by
  induction actions with
  | nil => exact fun _ => h.pure ()
  | cons action rest ih =>
    intro register
    rw [List.any_cons] at hstores
    refine h.bind (h.runAction register action fun ha => hstores (by simp [ha])) fun v => ?_
    exact h.bind (h.registers v) fun _ => ih (fun hrest => hstores (by simp [hrest])) v

/-- What the parts have, the body has. -/
theorem body (b : Behavior)
    (hstores : b.stores = true → ∀ p v, R Unit (attempt node (Graph.setProperty p v))) :
    R Unit (b.body node) := by
  cases b with
  | eventBegin => exact h.pure ()
  | logValue label =>
    refine h.bind (h.readFloat 0) fun x => ?_
    exact h.bind (h.logs _) fun _ => h.writeOutput 0 _
  | floatConstant x => exact h.writeOutput 0 _
  | arithmetic op =>
    refine h.bind (h.readFloat 0) fun a => ?_
    exact h.bind (h.readFloat 1) fun b => h.writeOutput 0 _
  | getVariable property => exact h.bind (h.propertyOf property) fun v => h.writeOutput 0 v
  | setVariable property =>
    refine h.bind (h.bind h.graph fun g => ?_) fun id => ?_
    · split
      · exact h.pure _
      · exact h.missing _
    · refine h.bind (h.readInput 0) fun v => ?_
      refine h.bind (hstores rfl id v) fun _ => ?_
      exact h.bind (h.propertyOf property) fun w => h.writeOutput 0 w
  | scripted script =>
    refine h.bind h.graph fun g => ?_
    exact h.bind (h.starts _) fun _ => h.runActions script.actions hstores _

end BodyParts

end FlowGraph
