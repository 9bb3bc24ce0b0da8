import FlowGraph.Proofs.Announcements.Trace

/-!
# What the edits of a graph announce

Every edit is followed from announcement to announcement.  The cascades of a deletion run over lists
that were read before anything was taken away, so what is shown of one deletion has to hold on the
graph that the ones before it have left; in a sound graph it does, since every deletion leaves a
sound graph.  Properties go children first: the walk down from a property comes to each of them
before its descendants (`Descended.order`), and the list is taken in reverse.
-/

namespace FlowGraph

namespace Edit

variable {α β : Type} {P : Graph → Prop} {f : α → Edit Unit}

@[simp] theorem map_reports (u : α → β) (m : Edit α) (g : Graph) :
    ((u <$> m) g).reports = (m g).reports := List.append_nil _

@[simp] theorem discard_reports (m : Edit α) (g : Graph) :
    (discard m g).reports = (m g).reports := List.append_nil _

theorem heard_forM_cons (x : α) (xs : List α) (g : Graph) :
    heard ((x :: xs).forM f g).reports =
      heard (f x g).reports ++ heard (xs.forM f (f x g).graph).reports := heard_append _ _

theorem heard_forM_nil (h : ∀ x g, heard (f x g).reports = []) (xs : List α) :
    ∀ g, heard (xs.forM f g).reports = [] := by
  induction xs with
  | nil => exact fun _ => rfl
  | cons x xs ih =>
    intro g
    rw [heard_forM_cons, h x g, ih _, List.append_nil]

/-- Deletions one after the other. -/
theorem forM_told (hstep : ∀ x g, P g →
      g.Told (heard (f x g).reports) [] (f x g).graph ∧ P (f x g).graph) (xs : List α) :
    ∀ {g : Graph}, P g → g.Told (heard (xs.forM f g).reports) [] (xs.forM f g).graph := by
  induction xs with
  | nil => exact fun _ => .refl _
  | cons x xs ih =>
    intro g hg
    obtain ⟨hfirst, hnext⟩ := hstep x g hg
    rw [heard_forM_cons]
    exact hfirst.trans (ih hnext)

/-- Edits one after the other that make something, as long as the counter has room. -/
theorem forM_told_counting (hc : ∀ x, Counts (f x))
    (hstep : ∀ x g, P g → (f x g).graph.nextId < lastNumber →
      g.Told (heard (f x g).reports) [] (f x g).graph ∧ P (f x g).graph) (xs : List α) :
    ∀ {g : Graph}, P g → (xs.forM f g).graph.nextId < lastNumber →
      g.Told (heard (xs.forM f g).reports) [] (xs.forM f g).graph := by
  induction xs with
  | nil => exact fun _ _ => .refl _
  | cons x xs ih =>
    intro g hg hlast
    obtain ⟨hfirst, hnext⟩ :=
      hstep x g hg (Nat.lt_of_le_of_lt (Counts.forM hc xs _ hlast) hlast)
    rw [heard_forM_cons]
    exact hfirst.trans (ih hnext hlast)

end Edit

namespace Graph

open Edit

variable {g g' : Graph}

/-! ## Links -/

@[simp] theorem heard_tellDisconnected (owner : NodeId) (pin : PinId) (g : Graph) :
    heard (tellDisconnected owner pin g).reports = [] := by
  simp only [tellDisconnected, bind_reports, current_apply, List.nil_append]
  generalize ((g.nodes.get? owner).bind fun n => n.behavior) = b
  cases b with
  | none => rfl
  | some b => cases b <;> rfl

@[simp] theorem heard_releaseEnd (link : LinkId) (pin : PinId) (g : Graph) :
    heard (releaseEnd link pin g).reports = [] := by
  simp only [releaseEnd, bind_reports, current_apply, List.nil_append]
  cases g.pins.get? pin with
  | none => rfl
  | some p => simp

/-- Both pins of a link of an intact graph list it. -/
theorem Intact.leaves_link (h : g.Intact) {id : LinkId} {link : Link}
    (hl : g.links.get? id = some link) : g.Leaves (.link id) := by
  obtain ⟨a, b, ha, hb, -⟩ := h.joined hl
  have hlists : ∀ {p pin}, g.pins.get? p = some pin → link.involves p = true → id ∈ pin.links := by
    intro p pin hp hi
    rw [h.entered hp]
    exact (mem_linksAt_iff h.links).mpr ⟨link, hl, hi⟩
  refine ⟨link, hl, fun p hp => ?_⟩
  simp only [Link.ends, List.mem_cons, List.not_mem_nil, or_false] at hp
  rcases hp with rfl | rfl
  · exact ⟨a, ha, hlists ha (Link.involves_iff.mpr (.inl rfl))⟩
  · exact ⟨b, hb, hlists hb (Link.involves_iff.mpr (.inr rfl))⟩

theorem deleteLink_told (h : g.Sound) (id : LinkId) :
    g.Told (heard (deleteLink id g).reports) [] (deleteLink id g).graph := by
  cases hl : g.links.get? id with
  | none =>
    have hg : deleteLink id g = ⟨false, g, []⟩ := by simp [deleteLink, hl, current_bind]
    rw [hg]
    exact .refl g
  | some link =>
    have hes : heard (deleteLink id g).reports = [((Entity.link id).deletion, g)] := by
      simp [deleteLink, hl, Link.ends, Entity.deletion]
    rw [hes, deleteLink_graph_of_some hl]
    refine .lost ⟨h.intact.leaves_link hl, rfl, fun y => ?_, fun _ _ hv => hv⟩
    cases y <;> simp [Has]

theorem deleteLinks_told (h : g.Sound) (ids : List LinkId) :
    g.Told (heard (deleteLinks ids g).reports) [] (deleteLinks ids g).graph := by
  refine forM_told (P := Sound) (fun id g hg => ⟨?_, hg.deleteLink id⟩) ids h
  rw [discard_reports]
  exact deleteLink_told hg id

/-! ## Pins -/

theorem deletePin_told (h : g.Sound) (id : PinId) :
    g.Told (heard (deletePin id g).reports) [] (deletePin id g).graph := by
  cases hp : g.pins.get? id with
  | none =>
    have hg : deletePin id g = ⟨false, g, []⟩ := by simp [deletePin, hp, current_bind]
    rw [hg]
    exact .refl g
  | some pin =>
    have hlinks := deleteLinks_told h pin.links
    have hbare : (deleteLinks pin.links g).graph.pins.get? id = some (pin.without pin.links) := by
      rw [deleteLinks_graph h.intact, get?_pin_without, if_neg (by simp), hp]
      rfl
    have hes : heard (deletePin id g).reports = heard (deleteLinks pin.links g).reports ++
        [((Entity.pin id).deletion, (deleteLinks pin.links g).graph)] := by
      simp [deletePin, hp, Entity.deletion]
    have hgraph : (deletePin id g).graph = dropPin id (deleteLinks pin.links g).graph := by
      simp [deletePin, hp]
    rw [hes, hgraph]
    refine hlinks.trans
      (.lost ⟨⟨_, hbare, by simp [Pin.without]⟩, rfl, fun y => ?_, fun _ _ hv => hv⟩)
    cases y <;> simp [Has, dropPin, hbare]

theorem deletePins_told (h : g.Sound) (ids : List PinId) :
    g.Told (heard (deletePins ids g).reports) [] (deletePins ids g).graph := by
  refine forM_told (P := Sound) (fun id g hg => ⟨?_, hg.deletePin id⟩) ids h
  rw [discard_reports]
  exact deletePin_told hg id

/-! ## Nodes -/

theorem deleteNode_told (h : g.Sound) (id : NodeId) :
    g.Told (heard (deleteNode id g).reports) [] (deleteNode id g).graph := by
  cases hn : g.nodes.get? id with
  | none =>
    have hg : deleteNode id g = ⟨false, g, []⟩ := by simp [deleteNode, hn, current_bind]
    rw [hg]
    exact .refl g
  | some n =>
    have hpins := deletePins_told h n.pins
    have hes : heard (deleteNode id g).reports = heard (deletePins n.pins g).reports ++
        [((Entity.node id).deletion, (deletePins n.pins g).graph)] := by
      simp [deleteNode, hn, Entity.deletion]
    have hgraph : (deleteNode id g).graph = { (deletePins n.pins g).graph with
        nodes := (deletePins n.pins g).graph.nodes.erase id } := by
      simp [deleteNode, hn]
    rw [hes, hgraph]
    refine hpins.trans (.lost ⟨?_, rfl, fun y => ?_, fun _ _ hv => hv⟩)
    · -- The list of pins was read before they went, and it is the list of all pins of the node.
      rw [deletePins_graph h.intact]
      have hbare : (g.without [] n.pins (n.pins.flatMap g.linksAt)).nodes.get? id =
          some (n.without n.pins) := by
        rw [get?_node_without, if_neg (by simp), hn]
        rfl
      refine ⟨Table.mem_keys_of_get? hbare, ?_, fun p pin hp hnode => ?_⟩
      · rw [pinsOfNode, hbare]
        refine List.eq_nil_iff_forall_not_mem.mpr fun p hp => ?_
        obtain ⟨d, hd⟩ := Node.mem_pins_iff.mp hp
        rw [Node.pinsOf_without, List.mem_filter] at hd
        have hlisted : p ∈ n.pins := Node.mem_pins_iff.mpr ⟨d, hd.1⟩
        simp [hlisted] at hd
      · obtain ⟨hkept, pin₀, hp₀, rfl⟩ := pin_of_without hp
        have hmem := h.intact.mem_pinsOfNode hp₀
        rw [show pin₀.node = id from hnode, pinsOfNode, hn] at hmem
        exact hkept hmem
    · cases y <;> simp [Has]

/-! ## Properties -/

@[simp] theorem heard_unbindNode (p : PropertyId) (id : NodeId) (g : Graph) :
    heard (unbindNode p id g).reports = [] := by
  simp only [unbindNode, current_bind]
  cases (g.nodes.get? id).bind (·.behavior) with
  | none => rfl
  | some b =>
    by_cases hb : b.bound = some p
    · cases b with
      | scripted script =>
        simp [hb]
        rfl
      | _ => simp [hb]
    · simp [hb]

/-- Unbinding the nodes makes no announcement. -/
theorem heard_dropProperty (p : PropertyId) (g : Graph) :
    heard (dropProperty p g).reports = [((Entity.property p).deletion, g)] := by
  simp only [dropProperty, Entity.deletion, bind_reports, announce_apply, current_apply,
    update_apply, List.append_nil, List.nil_append, List.singleton_append, heard_announced]
  exact congrArg _ (heard_forM_nil (heard_unbindNode p) g.nodes.keys g)

/-- Properties are told to go in the order of the list. -/
theorem heard_dropProperties (ids : List PropertyId) :
    ∀ g, (heard (ids.forM dropProperty g).reports).map Prod.fst = ids.map .propertyDeleted := by
  induction ids with
  | nil => exact fun _ => rfl
  | cons p ids ih =>
    intro g
    rw [heard_forM_cons, List.map_append, heard_dropProperty, ih]
    rfl

/-- A property without children goes. -/
theorem dropProperty_told (h : g.nodes.keys.Nodup) {p : PropertyId} (hp : p ∈ g.properties.keys)
    (hleaf : ∀ q, ¬ g.ChildOf q p) :
    g.Told (heard (dropProperty p g).reports) [] (dropProperty p g).graph := by
  rw [heard_dropProperty, dropProperty_graph h]
  refine .lost ⟨⟨hp, hleaf⟩, rfl, fun y => ?_, fun q v hv => ?_⟩
  · cases y <;> simp [Has, withoutProperties]
  · obtain ⟨prop, hprop, rfl⟩ := Option.map_eq_some_iff.mp hv
    obtain ⟨hprop, -⟩ := Table.get?_filter_eq_some.mp hprop
    simp [propertyValue?, hprop]

theorem childOf_withoutProperties {ids : List PropertyId} {a b : PropertyId} :
    (g.withoutProperties ids).ChildOf a b ↔ a ∉ ids ∧ g.ChildOf a b := by
  constructor
  · rintro ⟨p, hp, hparent⟩
    obtain ⟨hp, ha⟩ := Table.get?_filter_eq_some.mp hp
    exact ⟨by simpa using ha, p, hp, hparent⟩
  · rintro ⟨ha, p, hp, hparent⟩
    exact ⟨p, Table.get?_filter_eq_some.mpr ⟨hp, by simpa using ha⟩, hparent⟩

/-- Properties go one after the other, each after all of its children. -/
theorem dropProperties_told (ids : List PropertyId) :
    ∀ {g : Graph}, g.nodes.keys.Nodup → ids.Nodup → (∀ p ∈ ids, p ∈ g.properties.keys) →
      (∀ {before p}, before ++ [p] <+: ids → ∀ q, g.ChildOf q p → q ∈ before) →
      g.Told (heard (ids.forM dropProperty g).reports) [] (ids.forM dropProperty g).graph := by
  induction ids with
  | nil => exact fun _ _ _ _ => .refl _
  | cons p ids ih =>
    intro g hg hnodup hkeys horder
    obtain ⟨hp, hnodup⟩ := List.nodup_cons.mp hnodup
    have hleaf : ∀ q, ¬ g.ChildOf q p := fun q hq => by
      cases @horder [] p ⟨ids, rfl⟩ q hq
    have hfirst := dropProperty_told hg (hkeys p List.mem_cons_self) hleaf
    have hgraph : ((p :: ids).forM dropProperty g).graph =
        (ids.forM dropProperty (dropProperty p g).graph).graph := rfl
    rw [heard_forM_cons, hgraph]
    refine hfirst.trans (ih ?_ hnodup ?_ ?_)
    · rw [dropProperty_graph hg]
      simpa [withoutProperties] using hg
    · intro q hq
      rw [dropProperty_graph hg]
      have hne : q ≠ p := by
        rintro rfl
        exact hp hq
      simpa [withoutProperties, hne] using hkeys q (List.mem_cons_of_mem p hq)
    · intro before q hbefore c hc
      rw [dropProperty_graph hg, childOf_withoutProperties] at hc
      have hbefore : (p :: before) ++ [q] <+: p :: ids := (List.cons_prefix_cons).mpr ⟨rfl, hbefore⟩
      rcases List.mem_cons.mp (horder hbefore c hc.2) with rfl | hmem
      · exact absurd List.mem_cons_self hc.1
      · exact hmem

theorem deleteProperty_told (h : g.Sound) (id : PropertyId) :
    g.Told (heard (deleteProperty id g).reports) [] (deleteProperty id g).graph := by
  by_cases hid : id ∈ g.properties.keys
  · have hwalk := descended_subtree h.intact.properties hid
    rw [deleteProperty_of_mem hid, bind_reports, bind_graph, pure_apply, List.append_nil]
    refine dropProperties_told _ h.intact.nodes.nodup (List.nodup_reverse.mpr hwalk.nodup)
      (fun p hp => hwalk.keys p (List.mem_reverse.mp hp)) fun {before p} hbefore q hq => ?_
    -- A child is in the subtree too, and not in the part that comes before the parent.
    obtain ⟨after, hsplit⟩ := hbefore
    have hsplit : g.subtree id = after.reverse ++ p :: before.reverse := by
      rw [← List.reverse_reverse (g.subtree id), ← hsplit]
      simp
    have hp : p ∈ g.subtree id := by simp [hsplit]
    have hmem := subtree_closed h.intact.properties hid hp hq
    have horder := hwalk.order h.grouped
    rw [hsplit, List.pairwise_append] at horder
    rw [hsplit, List.mem_append, List.mem_cons, List.mem_reverse, List.mem_reverse] at hmem
    rcases hmem with hmem | rfl | hmem
    · exact absurd (.single hq) (horder.2.2 q (List.mem_reverse.mpr hmem) p List.mem_cons_self)
    · exact absurd (.single hq) (h.grouped.acyclic q)
    · exact hmem
  · rw [deleteProperty_of_not_mem hid]
    exact .refl g

/-! ## What is made -/

/-- One entity is made, under the next number. -/
theorem Quiet.adding {x : Entity} (hx : x.number = g.nextId) (hcounter : g'.nextId = g.nextId + 1)
    (hhas : ∀ y, g'.Has y ↔ g.Has y ∨ y = x)
    (hvalues : ∀ p v, g.propertyValue? p = some v → g'.propertyValue? p = some v) :
    g.Quiet g' where
  counter := by omega
  kept y hy := (hhas y).mpr (.inl hy)
  fresh y hy := by
    rcases (hhas y).mp hy with hy | rfl
    · exact .inl hy
    · exact .inr (by omega)
  values := hvalues

theorem Sound.quiet_withNode (h : g.Sound) (hlast : g.counted.nextId < lastNumber) (n : Node) :
    g.Quiet (g.withNode n) := by
  refine .adding (x := .node ⟨g.nextId⟩) rfl (nextNumber_of_lt hlast) (fun y => ?_) fun _ _ hv => hv
  cases y <;> simp [Has, Graph.withNode, Graph.counted, Table.keys_insert, h.numbered.fresh_node]

theorem Sound.quiet_withPin (h : g.Sound) (hlast : g.counted.nextId < lastNumber) (node : NodeId)
    (spec : PinSpec) : g.Quiet (g.withPin node spec) := by
  refine .adding (x := .pin ⟨g.nextId⟩) rfl (nextNumber_of_lt hlast) (fun y => ?_) fun _ _ hv => hv
  cases y <;> simp [Has, Graph.withPin, Graph.counted, Table.keys_insert, h.numbered.fresh_pin]

theorem Sound.quiet_withLink (h : g.Sound) (hlast : g.counted.nextId < lastNumber) (a b : PinId) :
    g.Quiet (g.withLink a b) := by
  refine .adding (x := .link ⟨g.nextId⟩) rfl (nextNumber_of_lt hlast) (fun y => ?_) fun _ _ hv => hv
  cases y <;>
    simp [Has, Graph.withLink, addLink, Graph.counted, Table.keys_insert, h.numbered.fresh_link]

theorem Sound.quiet_withProperty (h : g.Sound) (hlast : g.counted.nextId < lastNumber)
    (name : String) (v : Value) (parent : Option PropertyId) :
    g.Quiet (g.withProperty name v parent) := by
  refine .adding (x := .property ⟨g.nextId⟩) rfl (nextNumber_of_lt hlast) (fun y => ?_)
    fun p v hv => ?_
  · cases y <;>
      simp [Has, Graph.withProperty, Graph.counted, Table.keys_insert, h.numbered.fresh_property]
  · obtain ⟨prop, hprop, rfl⟩ := Option.map_eq_some_iff.mp hv
    have hne : (⟨g.nextId⟩ : PropertyId) ≠ p := fun heq =>
      h.numbered.fresh_property (heq ▸ Table.mem_keys_of_get? hprop)
    simp [propertyValue?, Graph.withProperty, hne, hprop]

theorem quiet_counted (hlast : g.counted.nextId < lastNumber) : g.Quiet g.counted :=
  ⟨le_counted hlast, fun _ hx => hx, fun _ hx => .inl hx, fun _ _ hv => hv⟩

theorem quiet_withChange (k : NodeId) (f : Node → Node) : g.Quiet (g.withChange k f) :=
  .of_inventory (by simp [inventory, withChange]) fun _ => rfl

/-- An edit that is quiet. -/
theorem told_of_quiet {α : Type} {e : Edit α} (hes : heard (e g).reports = [])
    (h : g.Quiet (e g).graph) : g.Told (heard (e g).reports) [] (e g).graph := by
  rw [hes]
  exact .quiet h

theorem addPins_told (h : g.Sound) {node : NodeId} (hnode : node ∈ g.nodes.keys)
    {specs : List PinSpec} (hlast : (addPins node specs g).graph.nextId < lastNumber) :
    g.Told (heard (addPins node specs g).reports) [] (addPins node specs g).graph := by
  refine forM_told_counting (P := fun g => g.Sound ∧ node ∈ g.nodes.keys) (addPin_counts node)
    (fun spec g hg hl => ⟨told_of_quiet rfl (hg.1.quiet_withPin hl node spec), ?_⟩) specs
    ⟨h, hnode⟩ hlast
  exact ⟨hg.1.withPin hl hg.2 spec, mem_keys_withPin.mpr hg.2⟩

theorem addNode_told (h : g.Sound) {b : Behavior}
    (hlast : (addNode b g).graph.nextId < lastNumber) :
    g.Told (heard (addNode b g).reports) [] (addNode b g).graph := by
  have hes : (addNode b g).reports = (addPins ⟨g.nextId⟩ (b.layout g.propertyValue?)
      (g.withNode (.ofBehavior ⟨g.nextId⟩ b.kind b))).reports := List.append_nil _
  rw [addNode_graph] at hlast ⊢
  rw [hes]
  have hroom : (g.withNode (.ofBehavior ⟨g.nextId⟩ b.kind b)).nextId < lastNumber :=
    Nat.lt_of_le_of_lt (addPins_counts _ _ _ hlast) hlast
  refine (Told.quiet (h.quiet_withNode hroom _)).trans
    (addPins_told (h.withNode hroom b.kind b) ?_ hlast)
  rw [Graph.withNode, Table.keys_insert, if_neg h.numbered.fresh_node]
  simp

theorem createNode_told (h : g.Sound) {type : String}
    (hlast : (createNode type g).graph.nextId < lastNumber) :
    g.Told (heard (createNode type g).reports) [] (createNode type g).graph := by
  cases ht : g.registry.get? type with
  | none =>
    have hg : createNode type g = ⟨.error (.unknownNodeType type), g, []⟩ := by
      simp only [createNode, current_bind, ht]
      rfl
    rw [hg]
    exact .refl g
  | some t =>
    have hgraph : (createNode type g).graph =
        renameNode ⟨g.nextId⟩ t.name (addNode t.fresh g).graph := by simp [createNode_graph, ht]
    have hes : (createNode type g).reports = (addNode t.fresh g).reports := by
      simp [createNode, ht]
    rw [hgraph] at hlast ⊢
    rw [hes, ← List.append_nil (heard _)]
    exact (addNode_told h hlast).trans (.quiet (quiet_withChange _ _))

theorem createProperty_told (h : g.Sound) {name : String} {v : Value} {parent : Option PropertyId}
    (hlast : (createProperty name v parent g).graph.nextId < lastNumber) :
    g.Told (heard (createProperty name v parent g).reports) []
      (createProperty name v parent g).graph := by
  rcases createProperty_cases name v parent g with ⟨q, -, -, hg⟩ | ⟨-, hg⟩
  · rw [hg]
    exact .refl g
  · rw [hg] at hlast ⊢
    exact .quiet (h.quiet_withProperty hlast name v parent)

/-! ## Linking and laying out -/

/-- The link that an input gives up is told to go before the new one is there. -/
theorem createLink_told (h : g.Sound) {a b : PinId}
    (hlast : (createLink a b g).graph.nextId < lastNumber) :
    g.Told (heard (createLink a b g).reports) [] (createLink a b g).graph := by
  rcases createLink_cases a b g with ⟨-, hg, hes⟩ | ⟨p, q, ha, hb, hpq, -, hg⟩
  · rw [hg, hes]
    exact .refl g
  · have hes : (createLink a b g).reports =
        (deleteLinks (if p.direction = .input then p else q).links g).reports := by
      simp [createLink, ha, hb, hpq]
    generalize (if p.direction = .input then p else q).links = old at hg hes
    rw [hg] at hlast ⊢
    rw [hes, ← List.append_nil (heard _)]
    exact (deleteLinks_told h old).trans (.quiet ((h.deleteLinks old).quiet_withLink hlast a b))

theorem redraw_told (h : g.Sound) {node : NodeId} {cut : CutLink}
    (hlast : (redraw node cut g).graph.nextId < lastNumber) :
    g.Told (heard (redraw node cut g).reports) [] (redraw node cut g).graph := by
  rcases redraw_eq node cut g with hg | ⟨a, b, hg⟩
  · rw [hg]
    exact .refl g
  · rw [hg] at hlast ⊢
    rw [discard_reports]
    exact createLink_told h hlast

theorem relayout_told (h : g.Sound) {id : NodeId}
    (hlast : (relayout id g).graph.nextId < lastNumber) :
    g.Told (heard (relayout id g).reports) [] (relayout id g).graph := by
  cases hn : g.nodes.get? id with
  | none =>
    have hg : relayout id g = ⟨.error (.unknownNode id), g, []⟩ := by
      simp only [relayout, current_bind, hn]
      rfl
    rw [hg]
    exact .refl g
  | some n =>
    obtain ⟨b, hb, -⟩ := h.staffed.staff hn
    -- The three stages: without the old pins, with the new ones, and with the links drawn again.
    have hcut := h.deletePins n.pins
    have hnode : id ∈ (deletePins n.pins g).graph.nodes.keys := by
      rw [deletePins_graph h.intact, Table.mem_keys, get?_node_without, if_neg (by simp), hn]
      exact ⟨_, rfl⟩
    have hes : heard (relayout id g).reports = heard (deletePins n.pins g).reports ++
        (heard (addPins id (b.layout g.propertyValue?) (deletePins n.pins g).graph).reports ++
          heard ((g.cutLinks n).forM (redraw id) (addPins id (b.layout g.propertyValue?)
            (deletePins n.pins g).graph).graph).reports) := by
      simp [relayout, hn, hb, h.modify_flow hn hb]
    rw [h.relayout_graph hn hb] at hlast ⊢
    rw [hes]
    have hadd := Nat.lt_of_le_of_lt (Counts.forM (redraw_counts id) _ _ hlast) hlast
    have hadded := addPins_told hcut hnode hadd
    refine (deletePins_told h n.pins).trans (hadded.trans ?_)
    exact forM_told_counting (P := Sound) (redraw_counts id)
      (fun cut g hg hl => ⟨redraw_told hg hl, hg.redraw hl⟩) _ (hcut.addPins hnode hadd) hlast

theorem bindNode_told (h : g.Sound) {k : NodeId} {p : PropertyId}
    (hlast : (bindNode k p g).graph.nextId < lastNumber) :
    g.Told (heard (bindNode k p g).reports) [] (bindNode k p g).graph := by
  rcases bindNode_cases k p g with ⟨cause, hg⟩ | ⟨n, b, b', -, hn, hb, hbind, hg⟩
  · rw [hg]
    exact .refl g
  · rw [hg] at hlast ⊢
    exact (Told.quiet (quiet_withChange k _)).trans
      (relayout_told (h.withBehavior hn hb hbind) hlast)

/-- A pin is written without a word, whether or not the value is taken. -/
theorem setPin_silent (id : PinId) (v : Value) (g : Graph) :
    heard (setPin id v g).reports = [] ∧ (setPin id v g).graph.inventory = g.inventory ∧
      ∀ p, (setPin id v g).graph.propertyValue? p = g.propertyValue? p := by
  rcases setPin_cases id v g with ⟨cause, hg, -⟩ | ⟨_, -, -, hg⟩
  · rw [hg]
    exact ⟨rfl, rfl, fun _ => rfl⟩
  · rw [hg]
    exact ⟨rfl, by simp [inventory], fun _ => rfl⟩

theorem copyPin_silent (source target : PinId) (g : Graph) :
    heard (copyPin source target g).reports = [] ∧
      (copyPin source target g).graph.inventory = g.inventory ∧
      ∀ p, (copyPin source target g).graph.propertyValue? p = g.propertyValue? p := by
  rw [copyPin_eq]
  cases g.pins.get? source with
  | none => exact ⟨rfl, rfl, fun _ => rfl⟩
  | some pin => exact setPin_silent target pin.value g

theorem setPin_told (id : PinId) (v : Value) (g : Graph) :
    g.Told (heard (setPin id v g).reports) [] (setPin id v g).graph := by
  obtain ⟨hes, hsame, hvalues⟩ := setPin_silent id v g
  exact told_of_quiet hes (.of_inventory hsame hvalues)

end Graph

end FlowGraph
