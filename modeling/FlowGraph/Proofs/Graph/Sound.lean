import FlowGraph.Proofs.Graph.Steps
import Mathlib.Logic.Relation

/-!
# Sound graphs

What holds of every graph between two operations: its references are intact, its ids are numbered
apart below the counter, every node holds the behavior its type and flow flag were taken from, and
the parents of properties exist and form no cycle.  This file shows that the edits of nodes, pins
and links keep all of it.

A property is not looked at by these edits and a behavior is only carried along, so most of the
work is in `Graph.Intact` and was done with the closed forms of the edits.
-/

namespace FlowGraph

namespace Graph

/-- Every node holds the behavior that its type and its flow flag were taken from. -/
structure Staffed (g : Graph) : Prop where
  staff : ∀ {k n}, g.nodes.get? k = some n →
    ∃ b, n.behavior = some b ∧ n.type = b.kind ∧ n.flow = b.hasFlow

/-- `b` is the parent of `a`. -/
def ChildOf (g : Graph) (a b : PropertyId) : Prop :=
  ∃ p, g.properties.get? a = some p ∧ p.parent = some b

/-- Parents exist, and no property is its own ancestor. -/
structure Grouped (g : Graph) : Prop where
  parents : ∀ {a b}, g.ChildOf a b → b ∈ g.properties.keys
  acyclic : ∀ a, ¬ Relation.TransGen g.ChildOf a a

structure Sound (g : Graph) : Prop where
  intact : g.Intact
  numbered : g.Numbered
  staffed : g.Staffed
  grouped : g.Grouped

variable {g g' : Graph}

theorem Grouped.congr (h : g.Grouped) (hp : g'.properties = g.properties) : g'.Grouped := by
  have hchild : g'.ChildOf = g.ChildOf := by
    funext a b
    rw [ChildOf, ChildOf, hp]
  refine ⟨fun hab => ?_, fun a ha => ?_⟩
  · rw [hp]
    rw [hchild] at hab
    exact h.parents hab
  · rw [hchild] at ha
    exact h.acyclic a ha

theorem Grouped.of_parentless (h : ∀ {a b}, ¬ g.ChildOf a b) : g.Grouped := by
  refine ⟨fun hab => absurd hab h, fun a ha => ?_⟩
  obtain ⟨b, hab, -⟩ := Relation.TransGen.head'_iff.mp ha
  exact h hab

theorem Sound.new (name : String) (registry : Registry) : (Graph.new name registry).Sound where
  intact := .new name registry
  numbered := .new name registry
  staffed := ⟨fun h => by cases h⟩
  grouped := .of_parentless fun ⟨_, hp, _⟩ => by cases hp

/-! ## Removals -/

theorem Staffed.without (h : g.Staffed) (nodes : List NodeId) (pins : List PinId)
    (links : List LinkId) : (g.without nodes pins links).Staffed := by
  refine ⟨fun {k n} hn => ?_⟩
  obtain ⟨-, n₀, hn₀, rfl⟩ := node_of_without hn
  obtain ⟨b, hb⟩ := h.staff hn₀
  exact ⟨b, hb⟩

theorem Sound.without (h : g.Sound) {nodes : List NodeId} {pins : List PinId}
    {links : List LinkId} (hint : (g.without nodes pins links).Intact) :
    (g.without nodes pins links).Sound where
  intact := hint
  numbered := h.numbered.without nodes pins links
  staffed := h.staffed.without nodes pins links
  grouped := h.grouped.congr rfl

theorem Sound.deleteLinks (h : g.Sound) (ids : List LinkId) : (deleteLinks ids g).graph.Sound := by
  rw [deleteLinks_graph h.intact]
  exact h.without (h.intact.without_links ids)

theorem Sound.deleteLink (h : g.Sound) (id : LinkId) : (deleteLink id g).graph.Sound := by
  rw [deleteLink_graph h.intact]
  exact h.without (h.intact.without_links [id])

theorem Sound.deletePins (h : g.Sound) (ids : List PinId) : (deletePins ids g).graph.Sound := by
  rw [deletePins_graph h.intact]
  exact h.without (h.intact.without_pins ids)

theorem Sound.deletePin (h : g.Sound) (id : PinId) : (deletePin id g).graph.Sound :=
  h.deletePins [id]

theorem Sound.deleteNode (h : g.Sound) (id : NodeId) : (deleteNode id g).graph.Sound := by
  rw [deleteNode_graph h.intact]
  exact h.without (h.intact.without_node id)

/-! ## Additions -/

theorem Sound.counted (h : g.Sound) (hlast : g.counted.nextId < lastNumber) : g.counted.Sound where
  intact := h.intact.counted
  numbered := h.numbered.counted hlast
  staffed := ⟨h.staffed.staff⟩
  grouped := h.grouped.congr rfl

theorem Staffed.withNode (h : g.Staffed) (id : NodeId) (name : String) (b : Behavior) :
    (g.withNode (.ofBehavior id name b)).Staffed := by
  refine ⟨fun {k n} hn => ?_⟩
  simp only [Graph.withNode, Table.get?_insert] at hn
  split at hn
  · cases hn
    exact ⟨b, rfl, rfl, rfl⟩
  · exact h.staff hn

theorem Sound.withNode (h : g.Sound) (hlast : g.counted.nextId < lastNumber) (name : String)
    (b : Behavior) : (g.withNode (.ofBehavior ⟨g.nextId⟩ name b)).Sound where
  intact := h.intact.withNode h.numbered.fresh_node rfl rfl rfl
  numbered := h.numbered.withNode hlast _
  staffed := h.staffed.withNode _ name b
  grouped := h.grouped.congr rfl

theorem Node.attach_same (n : Node) (p : PinId) (d : Direction) :
    (n.attach p d).behavior = n.behavior ∧ (n.attach p d).type = n.type ∧
      (n.attach p d).flow = n.flow := by
  cases d <;> exact ⟨rfl, rfl, rfl⟩

theorem Sound.withPin (h : g.Sound) (hlast : g.counted.nextId < lastNumber) {node : NodeId}
    (hnode : node ∈ g.nodes.keys) (spec : PinSpec) : (g.withPin node spec).Sound where
  intact := h.intact.withPin h.numbered.fresh_pin hnode spec
  numbered := h.numbered.withPin hlast node spec
  staffed := by
    refine ⟨fun {k n} hn => ?_⟩
    simp only [Graph.withPin, Table.get?_modify] at hn
    obtain ⟨n₀, hn₀, rfl⟩ := Option.map_eq_some_iff.mp hn
    obtain ⟨hb, ht, hf⟩ := Node.attach_same n₀ ⟨g.nextId⟩ spec.direction
    split
    · rw [hb, ht, hf]
      exact h.staffed.staff hn₀
    · exact h.staffed.staff hn₀
  grouped := h.grouped.congr rfl

/-- Once an input gave up its links, a link that fits may be added to it. -/
theorem Sound.withLink (h : g.Sound) (hlast : g.counted.nextId < lastNumber) {a b : PinId}
    {p q : Pin} (ha : g.pins.get? a = some p) (hb : g.pins.get? b = some q)
    (hpq : p.canConnect q = true)
    (hfree : (if p.direction = .input then p else q).links = []) :
    (g.withLink a b).Sound where
  intact := by
    refine h.intact.counted.addLink h.numbered.fresh_link ha hb hpq fun {r pin} hr hi hd => ?_
    have hdir := (Pin.canConnect_iff.mp hpq).2.2
    rcases Link.involves_iff.mp hi with rfl | rfl
    · have : pin = p := Option.some.inj (hr.symm.trans ha)
      subst this
      rwa [if_pos hd] at hfree
    · have : pin = q := Option.some.inj (hr.symm.trans hb)
      subst this
      have hp : p.direction ≠ .input := fun hp => hdir (hd.trans hp.symm)
      rwa [if_neg hp] at hfree
  numbered := h.numbered.withLink hlast a b
  staffed := ⟨h.staffed.staff⟩
  grouped := h.grouped.congr rfl

/-! ## Links and layouts -/

theorem Sound.createLink (h : g.Sound) {a b : PinId}
    (hlast : (createLink a b g).graph.nextId < lastNumber) : (createLink a b g).graph.Sound := by
  rcases createLink_cases a b g with ⟨-, hg, -⟩ | ⟨p, q, ha, hb, hpq, -, hg⟩
  · rwa [hg]
  · -- Both pins are still there and may be linked, since a removal of links changes neither type
    -- nor direction.
    generalize hold : (if p.direction = .input then p else q).links = old at hg
    have hsound := h.deleteLinks old
    rw [hg] at hlast ⊢
    rw [deleteLinks_graph h.intact] at hsound hlast ⊢
    refine hsound.withLink hlast (p := p.without old) (q := q.without old) ?_ ?_ hpq ?_
    · rw [get?_pin_without, if_neg (by simp), ha]
      rfl
    · rw [get?_pin_without, if_neg (by simp), hb]
      rfl
    · by_cases hd : p.direction = .input
      · rw [if_pos hd] at hold
        simp [Pin.without, hd, hold]
      · rw [if_neg hd] at hold
        simp [Pin.without, hd, hold]

theorem Sound.redraw (h : g.Sound) {node : NodeId} {cut : CutLink}
    (hlast : (redraw node cut g).graph.nextId < lastNumber) : (redraw node cut g).graph.Sound := by
  rcases redraw_eq node cut g with hg | ⟨a, b, hg⟩
  · rwa [hg]
  · rw [hg] at hlast ⊢
    exact h.createLink hlast

theorem Sound.redraws (h : g.Sound) {node : NodeId} {cuts : List CutLink}
    (hlast : (cuts.forM (Graph.redraw node) g).graph.nextId < lastNumber) :
    (cuts.forM (Graph.redraw node) g).graph.Sound :=
  Edit.forM_steps (Q := fun _ g => g.Sound) (redraw_counts node) (fun _ _ _ hq => hq.redraw) cuts h
    hlast

theorem mem_keys_withPin {node k : NodeId} {spec : PinSpec} :
    k ∈ (g.withPin node spec).nodes.keys ↔ k ∈ g.nodes.keys := by
  rw [Graph.withPin, Table.keys_modify]

/-- Declared pins may be added to a node that is there. -/
theorem Sound.addPins (h : g.Sound) {node : NodeId} (hnode : node ∈ g.nodes.keys)
    {specs : List PinSpec} (hlast : (addPins node specs g).graph.nextId < lastNumber) :
    (addPins node specs g).graph.Sound := by
  refine (Edit.forM_steps (Q := fun _ g => g.Sound ∧ node ∈ g.nodes.keys) (addPin_counts node)
    (fun _ spec g hq hl => ?_) specs ⟨h, hnode⟩ hlast).1
  exact ⟨hq.1.withPin hl hq.2 spec, mem_keys_withPin.mpr hq.2⟩

theorem addNode_graph (b : Behavior) (g : Graph) :
    (addNode b g).graph =
      (addPins ⟨g.nextId⟩ (b.layout g.propertyValue?)
        (g.withNode (.ofBehavior ⟨g.nextId⟩ b.kind b))).graph := rfl

theorem Sound.addNode (h : g.Sound) {b : Behavior}
    (hlast : (addNode b g).graph.nextId < lastNumber) : (addNode b g).graph.Sound := by
  rw [addNode_graph] at hlast ⊢
  have hnode : (g.withNode (.ofBehavior ⟨g.nextId⟩ b.kind b)).nextId < lastNumber :=
    Nat.lt_of_le_of_lt (addPins_counts _ _ _ hlast) hlast
  refine (h.withNode hnode b.kind b).addPins ?_ hlast
  rw [Graph.withNode, Table.keys_insert, if_neg h.numbered.fresh_node]
  exact List.mem_append_right _ (List.mem_singleton.mpr rfl)

/-- The graph in which a node was changed. -/
def withChange (g : Graph) (k : NodeId) (f : Node → Node) : Graph :=
  { g with nodes := g.nodes.modify k f }

theorem ids_withChange (k : NodeId) (f : Node → Node) : (g.withChange k f).ids = g.ids := by
  simp [ids, withChange]

theorem Intact.withChange (h : g.Intact) (k : NodeId) {f : Node → Node}
    (hid : ∀ n, (f n).id = n.id) (hpins : ∀ n d, (f n).pinsOf d = n.pinsOf d) :
    (g.withChange k f).Intact where
  nodes := h.nodes.modify k hid
  pins := h.pins
  links := h.links
  properties := h.properties
  listed {k' n} hn {d p} hp := by
    simp only [Graph.withChange, Table.get?_modify] at hn
    obtain ⟨n₀, hn₀, rfl⟩ := Option.map_eq_some_iff.mp hn
    refine h.listed hn₀ (d := d) ?_
    split at hp
    · rwa [hpins] at hp
    · exact hp
  owned {p pin} hp := by
    obtain ⟨n, hn, hlist⟩ := h.owned hp
    refine ⟨if pin.node = k then f n else n, ?_, ?_⟩
    · simp only [Graph.withChange, Table.get?_modify, hn]
      rfl
    · split
      · rwa [hpins]
      · exact hlist
  joined := h.joined
  entered := h.entered
  fed := h.fed

theorem Staffed.withChange (h : g.Staffed) (k : NodeId) {f : Node → Node}
    (hstaff : ∀ n b, g.nodes.get? k = some n → n.behavior = some b → n.type = b.kind →
      n.flow = b.hasFlow →
      ∃ b', (f n).behavior = some b' ∧ (f n).type = b'.kind ∧ (f n).flow = b'.hasFlow) :
    (g.withChange k f).Staffed := by
  refine ⟨fun {k' n} hn => ?_⟩
  simp only [Graph.withChange, Table.get?_modify] at hn
  obtain ⟨n₀, hn₀, rfl⟩ := Option.map_eq_some_iff.mp hn
  obtain ⟨b, hb, ht, hf⟩ := h.staff hn₀
  split
  · next hk =>
    rw [hk] at hn₀
    exact hstaff n₀ b hn₀ hb ht hf
  · exact ⟨b, hb, ht, hf⟩

/-- Changing a node in what is neither its id nor its lists. -/
theorem Sound.withChange (h : g.Sound) (k : NodeId) {f : Node → Node}
    (hid : ∀ n, (f n).id = n.id) (hpins : ∀ n d, (f n).pinsOf d = n.pinsOf d)
    (hstaffed : (g.withChange k f).Staffed) : (g.withChange k f).Sound where
  intact := h.intact.withChange k hid hpins
  numbered := by
    refine h.numbered.sublist ?_ (Nat.le_refl _)
    rw [ids_withChange]
  staffed := hstaffed
  grouped := h.grouped.congr rfl

theorem Staffed.renameNode (h : g.Staffed) (id : NodeId) (name : String) :
    (renameNode id name g).Staffed :=
  h.withChange id fun _ b _ hb ht hf => ⟨b, hb, ht, hf⟩

theorem Sound.renameNode (h : g.Sound) (id : NodeId) (name : String) :
    (renameNode id name g).Sound :=
  h.withChange id (fun _ => rfl) (fun _ d => by cases d <;> rfl) (h.staffed.renameNode id name)

theorem createNode_graph (type : String) (g : Graph) :
    (createNode type g).graph =
      match g.registry.get? type with
      | none => g
      | some t => Graph.renameNode ⟨g.nextId⟩ t.name (Graph.addNode t.fresh g).graph := by
  cases ht : g.registry.get? type with
  | none => simp [createNode, ht]
  | some t =>
    simp [createNode, ht]
    rfl

theorem Sound.createNode (h : g.Sound) {type : String}
    (hlast : (createNode type g).graph.nextId < lastNumber) : (createNode type g).graph.Sound := by
  rw [createNode_graph] at hlast ⊢
  cases ht : g.registry.get? type with
  | none => exact h
  | some t =>
    simp only [ht] at hlast
    exact (h.addNode hlast).renameNode _ _

/-- The flow flag of a node is right already when its pins are laid out anew. -/
theorem Sound.modify_flow (h : g.Sound) {id : NodeId} {n : Node} {b : Behavior}
    (hn : g.nodes.get? id = some n) (hb : n.behavior = some b) :
    (Graph.deletePins n.pins g).graph.nodes.modify id (fun m => { m with flow := b.hasFlow }) =
      (Graph.deletePins n.pins g).graph.nodes := by
  refine Table.modify_eq_self (h.deletePins n.pins).intact.nodes.nodup fun m hm => ?_
  rw [deletePins_graph h.intact, get?_node_without, if_neg (by simp), hn] at hm
  cases hm
  obtain ⟨b', hb', -, hf⟩ := h.staffed.staff hn
  rw [hb] at hb'
  cases hb'
  simp [Node.without, hf]

theorem Sound.relayout_graph (h : g.Sound) {id : NodeId} {n : Node} {b : Behavior}
    (hn : g.nodes.get? id = some n) (hb : n.behavior = some b) :
    (relayout id g).graph =
      ((g.cutLinks n).forM (Graph.redraw id)
        (Graph.addPins id (b.layout g.propertyValue?)
          (Graph.deletePins n.pins g).graph).graph).graph := by
  simp [relayout, hn, hb, h.modify_flow hn hb]

theorem Sound.relayout (h : g.Sound) {id : NodeId}
    (hlast : (relayout id g).graph.nextId < lastNumber) : (relayout id g).graph.Sound := by
  cases hn : g.nodes.get? id with
  | none =>
    have hg : (Graph.relayout id g).graph = g := by simp [Graph.relayout, hn]
    rwa [hg]
  | some n =>
    obtain ⟨b, hb, -⟩ := h.staffed.staff hn
    rw [h.relayout_graph hn hb] at hlast ⊢
    -- The three stages: without the old pins, with the new ones, and with the links drawn again.
    have hcut := h.deletePins n.pins
    have hnode : id ∈ (Graph.deletePins n.pins g).graph.nodes.keys := by
      rw [deletePins_graph h.intact, Table.mem_keys, get?_node_without, if_neg (by simp), hn]
      exact ⟨_, rfl⟩
    have hadd := Nat.lt_of_le_of_lt (Edit.Counts.forM (redraw_counts id) _ _ hlast) hlast
    exact (hcut.addPins hnode hadd).redraws hlast

end Graph

end FlowGraph
