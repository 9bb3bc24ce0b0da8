import FlowGraph.Proofs.Evaluation.Parts
import FlowGraph.Proofs.Graph.Frame

/-!
# What evaluation leaves alone

An evaluator writes to pins and properties and does nothing else to a graph, so the frame of the
graph is the same after any evaluation, successful or not (`keptByParts_framed`).  The one other
thing it touches, the behavior of the node that runs, it puts back.  On its own side, the list of
nodes being resolved is the same again after every pull: a pull that passes the guard puts a new
node in front of the list and takes the same node out.
-/

namespace FlowGraph

open Eval

variable {P : Session → Prop}

/-! ## Bodies -/

/-- What is kept when a value is written anywhere. -/
structure KeptByWrites (P : Session → Prop) : Prop where
  pins : ∀ id v s, P s → P { s with graph := (Graph.setPin id v s.graph).graph }
  properties : ∀ id v s, P s → P { s with graph := (Graph.setProperty id v s.graph).graph }

theorem KeptByWrites.parts (h : KeptByWrites P) (node : NodeId) :
    BodyParts node fun _ m => Keeps P m where
  pure := .pure
  bind := .bind
  graph := .graph
  missing _ := .fail _
  failed _ := .fail _
  logs _ := .report _
  registers _ := .report _
  starts _ := .report _
  pins p v := .attempt node (h.pins p v)

/-- A body only reads, reports and writes values. -/
theorem body_keeps (h : KeptByWrites P) (node : NodeId) (b : Behavior) :
    Keeps P (b.body node) :=
  (h.parts node).body b fun _ p v => .attempt node (h.properties p v)

/-! ## The frame -/

/-- The graph of the session differs from `g` in contents only. -/
def Session.Framed (g : Graph) (s : Session) : Prop := s.graph.frame = g.frame

variable {g : Graph}

theorem keptByWrites_framed (hg : g.Indexed) : KeptByWrites (Session.Framed g) where
  pins id v _ h := (Graph.setPin_frame (hg.of_frame h) id v).trans h
  properties id v _ h := (Graph.setProperty_frame (hg.of_frame h) id v).trans h

theorem setBehavior_indexed (hg : g.Indexed) (node : NodeId) (b : Option Behavior) :
    (setBehavior node b g).Indexed where
  nodes := by
    simp only [setBehavior, Table.keys_modify]
    exact hg.nodes
  pins := hg.pins
  properties := hg.properties

theorem setBehavior_frame {g' : Graph} (h : g'.frame = g.frame) (node : NodeId)
    (b : Option Behavior) : (setBehavior node b g').frame = (setBehavior node b g).frame := by
  have hset : ∀ g : Graph, (setBehavior node b g).frame = setBehavior node b g.frame :=
    fun _ => rfl
  rw [hset, hset, h]

/-- A behavior that is taken out of its node and put back leaves the graph as it was. -/
theorem setBehavior_setBehavior (hg : g.Indexed) {node : NodeId} {n : Node}
    (hn : g.nodes.get? node = some n) (b : Option Behavior) :
    setBehavior node n.behavior (setBehavior node b g) = g := by
  have hnodes : (g.nodes.modify node fun m => { m with behavior := b }).modify node
      (fun m => { m with behavior := n.behavior }) = g.nodes := by
    rw [Table.modify_modify_self]
    refine Table.modify_eq_self hg.nodes fun m hm => ?_
    rw [hn] at hm
    cases hm
    rfl
  simp only [setBehavior, hnodes]

theorem runNode_keeps_frame (hg : g.Indexed) (node : NodeId) :
    Keeps (Session.Framed g) (runNode node) := by
  intro s h
  have hs : s.graph.Indexed := hg.of_frame h
  simp only [runNode, bind_apply, Eval.graph]
  cases hn : s.graph.nodes.get? node with
  | none => exact h
  | some n =>
    cases hb : n.behavior with
    | none => simpa [hb, bind_apply, evaluator, Eval.fail] using h
    | some b =>
      -- The body runs on the graph without the behavior and keeps the frame of that one.
      have hbody := body_keeps (keptByWrites_framed (setBehavior_indexed hs node none)) node b
        { s with graph := setBehavior node none s.graph } rfl
      have hback := setBehavior_frame hbody node (some b)
      rw [← hb, setBehavior_setBehavior hs hn none] at hback
      simp only [hb, bind_apply, edit, Edit.update, andFinally]
      rw [← hb]
      exact hback.trans h

/-! ## Evaluation -/

theorem refreshInput_keeps (pull : NodeId → Eval Unit) (hpull : ∀ m, Keeps P (pull m))
    (hcopy : ∀ a b s, P s → P { s with graph := (Graph.copyPin a b s.graph).graph })
    (node : NodeId) (input : PinId) : Keeps P (refreshInput pull node input) := by
  refine Keeps.graph.bind fun g => ?_
  split
  · exact .pure ()
  · split
    · exact .pure ()
    · split
      · exact .fail _
      · split
        · exact .fail _
        · dsimp only
          split
          · exact (hpull _).bind fun _ => .attempt node (hcopy _ input)
          · exact .attempt node (hcopy _ input)

theorem refreshInputsWith_keeps (pull : NodeId → Eval Unit) (hpull : ∀ m, Keeps P (pull m))
    (hcopy : ∀ a b s, P s → P { s with graph := (Graph.copyPin a b s.graph).graph })
    (node : NodeId) : Keeps P (refreshInputsWith pull node) := by
  refine Keeps.graph.bind fun g => ?_
  split
  · exact .fail _
  · exact .forM (refreshInput_keeps pull hpull hcopy node) _

/-- What is kept by each part of the evaluation of a node. -/
structure KeptByPulls (P : Session → Prop) : Prop where
  copies : ∀ a b s, P s → P { s with graph := (Graph.copyPin a b s.graph).graph }
  bodies : ∀ node, Keeps P (runNode node)
  begins : ∀ node s, P s → P { s with evaluator := beginPull node s.evaluator }
  ends : ∀ node s, P s → P { s with evaluator := endPull node s.evaluator }

namespace KeptByPulls

variable (h : KeptByPulls P)
include h

theorem pull (depth : Nat) : ∀ node, Keeps P (pull depth node) := by
  induction depth with
  | zero => exact fun _ => .exhaust
  | succ depth ih =>
    intro node
    refine Keeps.evaluator.bind fun e => ?_
    split
    · exact .fail _
    · refine Keeps.bind (fun s hs => h.begins node s hs) fun _ s hs => h.ends node _ ?_
      exact (refreshInputsWith_keeps _ ih h.copies node).bind (fun _ => h.bodies node) s hs

theorem refreshInputs (node : NodeId) : Keeps P (refreshInputs node) := fun s hs =>
  refreshInputsWith_keeps _ (h.pull _) h.copies node s hs

theorem evaluateNode (node : NodeId) : Keeps P (evaluateNode node) := fun s hs =>
  (refreshInputsWith_keeps _ (h.pull _) h.copies node).bind (fun _ => h.bodies node) s hs

end KeptByPulls

/-- What is kept by evaluating a node and by the notes that a walk takes of it is kept by the walk. -/
theorem walk_keeps (hevaluate : ∀ node, Keeps P (evaluateNode node))
    (hvisit : ∀ node s, P s → P { s with evaluator := s.evaluator.visit node })
    (hfail : ∀ error s, P s → P { s with evaluator := s.evaluator.failWith error }) (steps : Nat) :
    ∀ node, Keeps P (walk steps node) := by
  induction steps with
  | zero => exact fun _ => .pure ()
  | succ steps ih =>
    intro node
    refine Keeps.bind (fun s hs => hevaluate node s hs) fun outcome => ?_
    cases outcome with
    | error error => exact fun s hs => hfail error s hs
    | ok _ =>
      refine Keeps.bind (fun s hs => hvisit node s hs) fun _ => Keeps.evaluator.bind fun e => ?_
      split
      · exact fun s hs => hfail _ s hs
      · refine Keeps.graph.bind fun g => ?_
        split
        · exact ih _
        · exact .pure ()

/-- What is kept by each part of an evaluation and does not depend on the evaluator. -/
structure KeptByParts (P : Session → Prop) : Prop extends KeptByPulls P where
  counts : ∀ s e, P s → P { s with evaluator := e }
  begins := fun _ s hs => counts s _ hs
  ends := fun _ s hs => counts s _ hs

namespace KeptByParts

variable (h : KeptByParts P)
include h

theorem walk (steps : Nat) : ∀ node, Keeps P (walk steps node) :=
  walk_keeps h.evaluateNode (fun _ s hs => h.counts s _ hs) (fun _ s hs => h.counts s _ hs) steps

theorem runPass (entry : NodeId) : Keeps P (runPass entry) := by
  refine Keeps.bind (fun s hs => h.counts s _ hs) fun _ => Keeps.evaluator.bind fun e => ?_
  refine (h.walk _ entry).bind fun _ => Keeps.evaluator.bind fun e => ?_
  split
  · exact .pure _
  · exact (Keeps.report _).bind fun _ => .pure _

end KeptByParts

/-- Evaluation changes contents only. -/
theorem keptByParts_framed (hg : g.Indexed) : KeptByParts (Session.Framed g) where
  copies a b _ h := (Graph.copyPin_frame (hg.of_frame h) a b).trans h
  bodies := runNode_keeps_frame hg
  counts _ _ h := h

theorem runNode_keeps (h : KeptByWrites P)
    (hset : ∀ s node b, P s → P { s with graph := setBehavior node b s.graph }) (node : NodeId) :
    Keeps P (runNode node) := by
  refine Keeps.graph.bind fun g => ?_
  split
  · exact .fail _
  · split
    · exact Keeps.evaluator.bind fun _ => .fail _
    · refine (Keeps.edit fun s hs => hset s node none hs).bind fun _ s hs => ?_
      exact hset _ node _ (body_keeps h node _ s hs)

/-- A view of the graph that sees neither what a pin or a property holds nor the behavior of a node
    is not changed by an evaluation. -/
theorem keptByParts_view {β : Type} (view : Graph → β)
    (hpins : ∀ g id f, view { g with pins := g.pins.modify id f } = view g)
    (hproperties : ∀ g id f, view { g with properties := g.properties.modify id f } = view g)
    (hbehavior : ∀ g node b, view (setBehavior node b g) = view g) (x : β) :
    KeptByParts fun s => view s.graph = x := by
  have hset : ∀ id v g, view (Graph.setPin id v g).graph = view g := by
    intro id v g
    rcases Graph.setPin_cases id v g with ⟨_, hg, -⟩ | ⟨_, -, -, hg⟩
    · rw [hg]
    · rw [hg]
      exact hpins g id _
  have hwrite : ∀ id v g, view (Graph.setProperty id v g).graph = view g := by
    intro id v g
    rcases Graph.setProperty_cases id v g with ⟨_, hg, -⟩ | ⟨_, -, -, _, rfl, hg⟩
    · rw [hg]
    · rw [hg]
      exact hproperties g id _
  exact {
    copies := fun a b s h => by
      rw [Graph.copyPin_eq]
      split
      · exact h
      · exact (hset _ _ _).trans h
    bodies := runNode_keeps
      ⟨fun id v s h => (hset id v s.graph).trans h, fun id v s h => (hwrite id v s.graph).trans h⟩
      fun s node b h => (hbehavior s.graph node b).trans h
    counts := fun _ _ h => h }

/-- Evaluation neither makes nodes nor deletes any. -/
theorem keptByParts_nodes (keys : List NodeId) : KeptByParts fun s => s.graph.nodes.keys = keys :=
  keptByParts_view (·.nodes.keys) (fun _ _ _ => rfl) (fun _ _ _ => rfl)
    (fun _ _ _ => Table.keys_modify _ _ _) keys

/-! ## The nodes being resolved -/

/-- The nodes being resolved are those of `busy`. -/
def Session.Resolving (busy : List NodeId) (s : Session) : Prop :=
  s.evaluator.inProgress = busy

theorem runNode_keeps_resolving (busy : List NodeId) (node : NodeId) :
    Keeps (Session.Resolving busy) (runNode node) :=
  runNode_keeps ⟨fun _ _ _ h => h, fun _ _ _ h => h⟩ (fun _ _ _ h => h) node

theorem pull_keeps_resolving (depth : Nat) :
    ∀ busy node, Keeps (Session.Resolving busy) (pull depth node) := by
  induction depth with
  | zero => exact fun _ _ => .exhaust
  | succ depth ih =>
    intro busy node s h
    by_cases hm : node ∈ s.evaluator.inProgress
    · simpa [pull, bind_apply, evaluator, hm, Eval.fail] using h
    · have hinner : Keeps (Session.Resolving (node :: busy)) (evaluateWith (pull depth) node) :=
        (refreshInputsWith_keeps _ (ih _) (fun _ _ _ h => h) node).bind fun _ =>
          runNode_keeps_resolving _ node
      have hbusy : node ∉ busy := h ▸ hm
      have hdone := hinner { s with evaluator := beginPull node s.evaluator }
        (congrArg (node :: ·) h)
      -- The node is on the list once, so taking it off gives the list of the beginning.
      have hfilter : (node :: busy).filter (· ≠ node) = busy := by
        rw [List.filter_cons_of_neg (by simp)]
        refine List.filter_eq_self.mpr fun m hmem => ?_
        simpa using fun heq : m = node => hbusy (heq ▸ hmem)
      simp only [pull, bind_apply, evaluator, if_neg hm, updateEvaluator, andFinally]
      show (endPull node _).inProgress = busy
      rw [endPull, hdone, hfilter]

end FlowGraph
