import FlowGraph.Proofs.Evaluation.Branches
import FlowGraph.Proofs.Evaluation.Pass

/-!
# What an evaluator is asked to do

An evaluator refreshes the inputs of a node, evaluates a node or runs a pass.  Whichever it is and
however it ends, the frame of the graph stays as it was, so every node that runs has its behavior
and gets it back.
-/

namespace FlowGraph

open Eval

/-- The failure that a step ended with. -/
def Ran.failure? {α : Type} (r : Ran α) : Option EvaluationError :=
  match r.answer with
  | .error (.failed error) => some error
  | _ => none

theorem Eval.Ends.failure? {α : Type} {m : Eval α} {s : Session} {Q : α → Session → Prop}
    {E : Stop → Session → Prop} (h : m.Ends s Q E) {error : EvaluationError}
    (hf : (m s).failure? = some error) : E (.failed error) (m s).session := by
  unfold Ran.failure? at hf
  split at hf
  · next ha =>
    cases hf
    exact h.error ha
  · cases hf

/-- What an evaluator can be asked to do. -/
inductive Request where
  | refreshInputs (node : NodeId)
  | evaluateNode (node : NodeId)
  | runPass (entry : NodeId)
deriving Repr

namespace Request

/-- Does what is asked. -/
def serve : Request → Eval Unit
  | refreshInputs node => FlowGraph.refreshInputs node
  | evaluateNode node => FlowGraph.evaluateNode node
  | runPass entry => discard (FlowGraph.runPass entry)

/-- `serve`, where `run` runs the nodes. -/
def serveVia (run : NodeId → Eval Unit) : Request → Eval Unit
  | refreshInputs node => refreshInputsVia run node
  | evaluateNode node => evaluateNodeVia run node
  | runPass entry => discard (runPassVia run entry)

/-- The failure that a request ends with.  A pass keeps it in the evaluator. -/
def failure? (s : Session) : Request → Option EvaluationError
  | refreshInputs node => (FlowGraph.refreshInputs node s).failure?
  | evaluateNode node => (FlowGraph.evaluateNode node s).failure?
  | runPass entry => (FlowGraph.runPass entry s).session.evaluator.lastError

variable {P : Session → Prop}

theorem keeps (h : KeptByParts P) (q : Request) : Keeps P q.serve := by
  cases q with
  | refreshInputs node => exact h.refreshInputs node
  | evaluateNode node => exact h.evaluateNode node
  | runPass entry => exact (h.runPass entry).bind fun _ => .pure ()

theorem serveVia_eq {run : NodeId → Eval Unit} (hrun : ∀ m, AgreeOn P (run m) (runNode m))
    (h : KeptByParts P) (q : Request) : AgreeOn P (q.serveVia run) q.serve := by
  cases q with
  | refreshInputs node => exact refreshInputsVia_agree hrun h.toKeptByPulls node
  | evaluateNode node => exact evaluateNodeVia_agree hrun h.toKeptByPulls node
  | runPass entry =>
    exact (runPassVia_agree hrun h entry).bind (h.runPass entry) fun _ => .refl _

/-- Whatever a request fails with, it is what the evaluation of a node or of its inputs stopped
    with, or a pass took as many steps as it may. -/
theorem failure?_stops {g : Graph} {E : Stop → Prop} (hg : g.Indexed)
    (hloop : ∀ node steps, E (.failed (.infiniteLoop node steps)))
    (hrefresh : ∀ node s, s.Framed g →
      (FlowGraph.refreshInputs node).Ends s (fun _ _ => True) fun stop _ => E stop)
    (hevaluate : ∀ node s, s.Framed g →
      (FlowGraph.evaluateNode node).Ends s (fun _ _ => True) fun stop _ => E stop)
    {e : Evaluator} {q : Request} {error : EvaluationError} (h : q.failure? ⟨e, g⟩ = some error) :
    E (.failed error) := by
  cases q with
  | refreshInputs node => exact (hrefresh node ⟨e, g⟩ rfl).failure? h
  | evaluateNode node => exact (hevaluate node ⟨e, g⟩ rfl).failure? h
  | runPass entry =>
    rcases lastError_runPass hg h with ⟨node, steps, rfl⟩ | ⟨node, s, hs, herror⟩
    · exact hloop node steps
    · exact (hevaluate node s hs).error herror

end Request

/-! ## Structure -/

/-- Every node holds its behavior. -/
def Graph.AtRest (g : Graph) : Prop :=
  ∀ k n, g.nodes.get? k = some n → n.behavior.isSome = true

namespace Graph

open Edit

variable {g : Graph}

theorem AtRest.of_frame {g' : Graph} (h : g.AtRest) (hf : g'.frame = g.frame) : g'.AtRest :=
  fun k n hn => h k n (nodes_of_frame hf ▸ hn)

/-- In a graph at rest no node is busy. -/
theorem AtRest.relayout_not_busy (h : g.AtRest) (id m : NodeId) :
    (relayout id g).answer ≠ .error (.nodeBusy m) := by
  simp only [relayout, current_bind]
  cases hn : g.nodes.get? id with
  | none => exact fun heq => by cases heq
  | some n =>
    obtain ⟨b, hb⟩ := Option.isSome_iff_exists.mp (h _ n hn)
    simp only [hb]
    exact fun heq => by cases heq

theorem AtRest.withBehavior (h : g.AtRest) (id : NodeId) (b : Behavior) :
    (g.withBehavior id b).AtRest := by
  intro k n hn
  simp only [Graph.withBehavior, Table.get?_modify] at hn
  obtain ⟨n₀, hn₀, rfl⟩ := Option.map_eq_some_iff.mp hn
  split
  · rfl
  · exact h k n₀ hn₀

theorem AtRest.bindNode_not_busy (h : g.AtRest) (id : NodeId) (p : PropertyId) (m : NodeId) :
    (bindNode id p g).answer ≠ .error (.nodeBusy m) := by
  simp only [bindNode, current_bind]
  split
  · cases hn : g.nodes.get? id with
    | none => exact fun heq => by cases heq
    | some n =>
      obtain ⟨b, hb⟩ := Option.isSome_iff_exists.mp (h _ n hn)
      simp only [hb]
      cases b.bind? p with
      | none => exact fun heq => by cases heq
      | some b' => exact (h.withBehavior id b').relayout_not_busy id m
  · exact fun heq => by cases heq

/-- An evaluation changes what pins and properties hold and nothing else, whatever it is asked for
    and however it ends.  So no node is ever found without its behavior: whatever would be done with
    such a node, the evaluation would be the same.  All that is asked of the graph is that no table
    repeats a key and that every node has its behavior. -/
theorem evaluation_keeps_structure (hg : g.Indexed) (hrest : g.AtRest) (e : Evaluator)
    (q : Request) :
    let after := (q.serve ⟨e, g⟩).session.graph
    after.frame = g.frame ∧ after.AtRest ∧
      (∀ k m, q.failure? ⟨e, g⟩ ≠ some (.graph k (.nodeBusy m))) ∧
      (∀ id m, (relayout id after).answer ≠ .error (.nodeBusy m)) ∧
      (∀ id p m, (bindNode id p after).answer ≠ .error (.nodeBusy m)) ∧
      ∀ run : NodeId → Eval Unit, (∀ m s, s.graph.AtRest → run m s = runNode m s) →
        q.serveVia run ⟨e, g⟩ = q.serve ⟨e, g⟩ := by
  intro after
  have hframe : after.frame = g.frame := q.keeps (keptByParts_framed hg) ⟨e, g⟩ rfl
  have hafter : after.AtRest := hrest.of_frame hframe
  refine ⟨hframe, hafter, fun k m hfail => ?_, hafter.relayout_not_busy, hafter.bindNode_not_busy,
    fun run hrun => ?_⟩
  · have hproper : Stop.Proper (.failed (.graph k (.nodeBusy m))) :=
      Request.failure?_stops hg (fun _ _ => True.intro) (fun node s _ => refreshInputs_stops node s)
        (fun node s _ => evaluateNode_stops node s) hfail
    exact absurd hproper Bool.false_ne_true
  · exact Request.serveVia_eq (fun m s hs => hrun m s (hrest.of_frame hs))
      (keptByParts_framed hg) q ⟨e, g⟩ rfl

/-- The pass from the entry of `greeting` leaves it as it was, but for what its pins hold. -/
theorem greeting_keeps_structure :
    ((Request.runPass ⟨1⟩).serve ⟨{}, greeting⟩).session.graph.frame = greeting.frame := by
  have hindexed : greeting.Indexed := (Starts.new _ _).indexed_performAll _
  have hrest : greeting.AtRest := by
    intro k n hn
    have hall : ∀ n ∈ greeting.nodes.values, n.behavior.isSome = true := by decide +kernel
    exact hall n (Table.mem_values_of_get? hn)
  exact (evaluation_keeps_structure hindexed hrest {} (.runPass ⟨1⟩)).1

end Graph

end FlowGraph
