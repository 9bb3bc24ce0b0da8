import FlowGraph.Proofs.Bindings
import FlowGraph.Proofs.Numbering

/-!
# Behaviors over a run

Every node of a graph that a run comes to holds the behavior that its type and its flow flag were
taken from, no matter how many ids the run asked for.  Most operations leave the three of them alone
(`Graph.post`), and the others change them together.
-/

namespace FlowGraph

namespace Graph

open Edit

variable {g g' : Graph}

/-! ## What a node is for -/

/-- The type, the flow flag and the behavior of a node. -/
def post (g : Graph) (k : NodeId) : Option (String × Bool × Option Behavior) :=
  (g.nodes.get? k).map fun n => (n.type, n.flow, n.behavior)

theorem post_of_nodes (h : g'.nodes = g.nodes) : g'.post = g.post := by
  funext k
  rw [post, post, h]

/-- Names and pins may change. -/
theorem post_of_modify {k : NodeId} {f : Node → Node} (h : g'.nodes = g.nodes.modify k f)
    (hf : ∀ n, (f n).behavior = n.behavior ∧ (f n).type = n.type ∧ (f n).flow = n.flow) :
    g'.post = g.post := by
  funext j
  rw [post, post, h, Table.get?_modify, Option.map_map]
  congr 1
  funext n
  obtain ⟨hb, ht, hw⟩ := hf n
  simp only [Function.comp_apply]
  split
  · rw [hb, ht, hw]
  · rfl

theorem Staffed.of_post (h : g.Staffed) (hpost : g'.post = g.post) : g'.Staffed := by
  refine ⟨fun {k n} hn => ?_⟩
  have hk : g.post k = some (n.type, n.flow, n.behavior) := by
    rw [← hpost, post, hn]
    rfl
  obtain ⟨m, hm, heq⟩ := Option.map_eq_some_iff.mp hk
  simp only [Prod.mk.injEq] at heq
  obtain ⟨ht, hw, hb⟩ := heq
  rw [← ht, ← hw, ← hb]
  exact h.staff hm

theorem deleteLink_post (id : LinkId) (g : Graph) : (deleteLink id g).graph.post = g.post :=
  post_of_nodes (congrArg Prod.fst (deleteLink_unlinked id g))

theorem deleteLinks_post (ids : List LinkId) (g : Graph) :
    (deleteLinks ids g).graph.post = g.post :=
  forM_view post (fun id g => deleteLink_post id g) ids g

theorem dropPin_post (id : PinId) (g : Graph) : (dropPin id g).post = g.post := by
  cases hp : g.pins.get? id with
  | none => exact post_of_nodes (by simp [dropPin, hp])
  | some pin =>
    have hnodes : (dropPin id g).nodes = g.nodes.modify pin.node (·.detach id) := by
      simp [dropPin, hp]
    exact post_of_modify hnodes fun _ => ⟨rfl, rfl, rfl⟩

theorem deletePin_post (id : PinId) (g : Graph) : (deletePin id g).graph.post = g.post := by
  cases hp : g.pins.get? id with
  | none => simp [deletePin, hp]
  | some pin =>
    have hgraph : (deletePin id g).graph = dropPin id (deleteLinks pin.links g).graph := by
      simp [deletePin, hp]
    rw [hgraph, dropPin_post, deleteLinks_post]

theorem deletePins_post (ids : List PinId) (g : Graph) : (deletePins ids g).graph.post = g.post :=
  forM_view post (fun id g => deletePin_post id g) ids g

theorem addPins_post (node : NodeId) (specs : List PinSpec) (g : Graph) :
    (addPins node specs g).graph.post = g.post :=
  forM_view post (fun spec _ => post_of_modify rfl fun n => Node.attach_same n _ spec.direction)
    specs g

theorem createLink_post (a b : PinId) (g : Graph) : (createLink a b g).graph.post = g.post :=
  post_of_nodes (congrArg Prod.fst (createLink_unlinked a b g))

theorem redraw_post (node : NodeId) (cut : CutLink) (g : Graph) :
    (redraw node cut g).graph.post = g.post := by
  rcases redraw_eq node cut g with hg | ⟨a, b, hg⟩
  · rw [hg]
  · rw [hg]
    exact createLink_post a b g

/-! ## Operations -/

theorem Staffed.addNode (h : g.Staffed) (b : Behavior) : (addNode b g).graph.Staffed := by
  rw [addNode_graph]
  exact (h.withNode _ _ b).of_post (addPins_post _ _ _)

theorem Staffed.createNode (h : g.Staffed) (type : String) : (createNode type g).graph.Staffed := by
  rw [createNode_graph]
  split
  · exact h
  · exact (h.addNode _).renameNode _ _

theorem Staffed.deleteNode (h : g.Staffed) (id : NodeId) : (deleteNode id g).graph.Staffed := by
  cases hn : g.nodes.get? id with
  | none => simpa [Graph.deleteNode, hn] using h
  | some n =>
    have hpins := h.of_post (deletePins_post n.pins g)
    refine ⟨fun {k m} hm => ?_⟩
    simp only [Graph.deleteNode, current_bind, hn, bind_graph, update_apply, pure_apply,
      Table.get?_erase] at hm
    split at hm
    · cases hm
    · exact hpins.staff hm

/-- The flow flag that a new layout writes is the one of the behavior that is there. -/
theorem Staffed.relayout (h : g.Staffed) (id : NodeId) : (relayout id g).graph.Staffed := by
  cases hn : g.nodes.get? id with
  | none => simpa [Graph.relayout, hn] using h
  | some n =>
    obtain ⟨b, hb, -⟩ := h.staff hn
    have hbare := deletePins_post n.pins g
    have hflow : ((Graph.deletePins n.pins g).graph.withChange id
        fun m => { m with flow := b.hasFlow }).Staffed := by
      refine (h.of_post hbare).withChange id fun m c hm hc ht _ => ⟨c, hc, ht, ?_⟩
      have hsame : some (m.type, m.flow, m.behavior) = some (n.type, n.flow, n.behavior) := by
        have hpost := congrFun hbare id
        rwa [post, post, hm, hn] at hpost
      simp only [Option.some.injEq, Prod.mk.injEq] at hsame
      obtain rfl : c = b := by simpa [hb, hc] using hsame.2.2
      rfl
    have hgraph : (Graph.relayout id g).graph = ((g.cutLinks n).forM (redraw id)
        (addPins id (b.layout g.propertyValue?) ((Graph.deletePins n.pins g).graph.withChange id
          fun m => { m with flow := b.hasFlow })).graph).graph := by
      simp only [Graph.relayout, current_bind, hn, hb]
      rfl
    rw [hgraph]
    exact hflow.of_post ((forM_view post (redraw_post id) _ _).trans (addPins_post _ _ _))

theorem Staffed.bindNode (h : g.Staffed) (k : NodeId) (p : PropertyId) :
    (bindNode k p g).graph.Staffed := by
  rcases bindNode_cases k p g with ⟨cause, hg⟩ | ⟨n, b, b', -, hn, hb, hbind, hg⟩
  · rwa [hg]
  · rw [hg]
    exact (h.withBehavior hn hb hbind).relayout k

theorem Staffed.deleteProperty (h : g.Staffed) (hg : g.Indexed) (id : PropertyId) :
    (deleteProperty id g).graph.Staffed := by
  by_cases hid : id ∈ g.properties.keys
  · rw [deleteProperty_graph hg.nodes hid]
    exact h.withoutProperties _
  · rwa [deleteProperty_of_not_mem hid]

theorem Staffed.createProperty (h : g.Staffed) (name : String) (v : Value)
    (parent : Option PropertyId) : (createProperty name v parent g).graph.Staffed := by
  rcases createProperty_cases name v parent g with ⟨q, -, -, hg⟩ | ⟨-, hg⟩
  · rwa [hg]
  · rw [hg]
    exact h.of_post (post_of_nodes rfl)

/-- Every operation leaves a graph staffed. -/
theorem Staffed.perform (h : g.Staffed) (hg : g.Indexed) (c : Command) :
    (c.perform g).graph.Staffed := by
  have hframe : ∀ {g' : Graph}, g'.frame = g.frame → g'.Staffed :=
    fun hf => h.of_post (post_of_nodes (nodes_of_frame hf))
  cases c with
  | addNode b => exact h.addNode b
  | createNode type => exact h.createNode type
  | deleteNode node => exact h.deleteNode node
  | renameNode node name => exact h.renameNode node name
  | relayout node => exact h.relayout node
  | bindNode node p => exact h.bindNode node p
  | deletePin pin => exact h.of_post (deletePin_post pin g)
  | setPin pin v => exact hframe (setPin_frame hg pin v)
  | createLink a b => exact h.of_post (createLink_post a b g)
  | deleteLink link => exact h.of_post (deleteLink_post link g)
  | createProperty name v parent => exact h.createProperty name v parent
  | setProperty p v => exact hframe (setProperty_frame hg p v)
  | deleteProperty p => exact h.deleteProperty hg p
  | rename name => exact h.of_post (post_of_nodes rfl)
  | allocate => exact h.of_post (post_of_nodes rfl)
  | refreshInputs e node => exact hframe ((keptByParts_framed hg).refreshInputs node ⟨e, g⟩ rfl)
  | evaluateNode e node => exact hframe ((keptByParts_framed hg).evaluateNode node ⟨e, g⟩ rfl)
  | runPass e entry => exact hframe ((keptByParts_framed hg).runPass entry ⟨e, g⟩ rfl)

/-- Every node of a graph that a run comes to holds its behavior. -/
theorem Reachable.staffed (h : g.Reachable) : g.Staffed := by
  obtain ⟨start, commands, hstart, rfl⟩ := h
  suffices hrun : ∀ (commands : List Command) {g : Graph}, g.Indexed → g.Staffed →
      (Command.performAll commands g).graph.Staffed from
    hrun commands hstart.sound.intact.indexed hstart.sound.staffed
  intro commands
  induction commands with
  | nil => exact fun _ h => h
  | cons c commands ih =>
    intro g hg h
    obtain ⟨issued, hbooks⟩ := perform_booked c g
    exact ih (hbooks.evolves.indexed hg) (h.perform hg c)

end Graph

end FlowGraph
