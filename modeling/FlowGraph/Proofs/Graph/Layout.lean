import FlowGraph.Proofs.Graph.Frame
import FlowGraph.Proofs.Graph.Properties

/-!
# Pins as declared

A node of a graph that was never loaded has no pins but those its behavior declares: in the
declared order, with the declared names and types, and perhaps not all of them (`LaidOut`).  A
variable node is measured by the layout it has once it is bound, because a node that lost its
property keeps its pins.

Most operations only ever take pins away from a node, and what they do elsewhere is of no concern
to it; they are all instances of `Thins`.
-/

namespace FlowGraph

/-- What of a pin is fixed by its declaration, besides the direction. -/
def Pin.form (p : Pin) : String × ValueType := (p.name, p.type)

/-- The forms of the declared pins of one direction. -/
def formsOf (specs : List PinSpec) (d : Direction) : List (String × ValueType) :=
  (specs.filter (·.direction = d)).map fun s => (s.name, s.value.type)

theorem formsOf_append (ss ts : List PinSpec) (d : Direction) :
    formsOf (ss ++ ts) d = formsOf ss d ++ formsOf ts d := by
  simp [formsOf]

/-! ## Layouts by what a variable reads -/

/-- The layout of the behavior, where a variable is bound to a property with the value. -/
def Behavior.layoutAs (v : Option Value) (b : Behavior) : List PinSpec :=
  ((b.bind? default).getD b).layout fun _ => v

theorem Behavior.layout_eq (valueOf : PropertyId → Option Value) (b : Behavior) :
    b.layout valueOf = b.layoutAs (b.bound.bind valueOf) := by
  cases b with
  | scripted script =>
    by_cases hb : script.bindable = true <;> simp [layoutAs, layout, bind?, hb]
  | _ => rfl

@[simp] theorem Behavior.layoutAs_keepBound (keep : PropertyId → Bool) (v : Option Value)
    (b : Behavior) : (b.keepBound keep).layoutAs v = b.layoutAs v := by
  cases b with
  | scripted script =>
    by_cases hb : script.bindable = true <;>
      simp [keepBound, withBound, layoutAs, layout, bind?, hb]
  | _ => rfl

/-- Without a value to read there are only fewer pins. -/
theorem Behavior.layoutAs_none_sublist (v : Option Value) (b : Behavior) :
    (b.layoutAs none).Sublist (b.layoutAs v) := by
  cases v with
  | none => exact .refl _
  | some v =>
    cases b with
    | getVariable p => exact List.nil_sublist _
    | setVariable p =>
      have hlayout : (setVariable p).layoutAs (some v) =
          (setVariable p).layoutAs none ++ [.input "Value" v, .output "Value" v] := rfl
      rw [hlayout]
      exact List.sublist_append_left _ _
    | scripted script =>
      by_cases hs : script.bindable = true <;> simp [layoutAs, layout, bind?, hs]
    | _ => exact .refl _

theorem formsOf_layoutAs {v w : Option Value} (h : v.map Value.type = w.map Value.type)
    (b : Behavior) (d : Direction) : formsOf (b.layoutAs v) d = formsOf (b.layoutAs w) d := by
  cases v with
  | none =>
    cases w with
    | none => rfl
    | some w => cases h
  | some v =>
    cases w with
    | none => cases h
    | some w =>
      have htype : v.type = w.type := Option.some.inj h
      cases b with
      | getVariable p =>
        cases d <;>
          simp [formsOf, Behavior.layoutAs, Behavior.layout, Behavior.bind?, PinSpec.output, htype]
      | setVariable p =>
        cases d <;>
          simp [formsOf, Behavior.layoutAs, Behavior.layout, Behavior.bind?, PinSpec.output,
            PinSpec.input, PinSpec.flow, htype]
      | scripted script =>
        by_cases hs : script.bindable = true <;>
          simp [Behavior.layoutAs, Behavior.layout, Behavior.bind?, hs]
      | _ => rfl

namespace Graph

variable {g g' g'' : Graph}

/-- The forms of the pins of a node, in order. -/
def forms (g : Graph) (k : NodeId) (d : Direction) : List (String × ValueType) :=
  (g.pinsOf k d).map Pin.form

/-- The type of a property, if it exists. -/
def typeOf? (g : Graph) (p : PropertyId) : Option ValueType :=
  (g.propertyValue? p).map Value.type

/-- The pins of the node are some of those its behavior declares, in order. -/
def LaidOut (g : Graph) (k : NodeId) : Prop :=
  ∀ n b, g.nodes.get? k = some n → n.behavior = some b →
    ∃ v : Option Value, (∀ p, b.bound = some p → v.map Value.type = g.typeOf? p) ∧
      ∀ d, (g.forms k d).Sublist (formsOf (b.layoutAs v) d)

/-- Nothing happened to a node but that it lost pins or went, and properties kept their types. -/
structure Thins (k : NodeId) (g g' : Graph) : Prop where
  node : ∀ {n'}, g'.nodes.get? k = some n' → ∃ n, g.nodes.get? k = some n ∧
    n'.behavior = n.behavior ∧ (∀ d, (n'.pinsOf d).Sublist (n.pinsOf d)) ∧
    ∀ d p, p ∈ n'.pinsOf d → (g'.pins.get? p).map Pin.form = (g.pins.get? p).map Pin.form
  types : ∀ p, g'.typeOf? p = g.typeOf? p

theorem Thins.refl (k : NodeId) (g : Graph) : Thins k g g :=
  ⟨fun h => ⟨_, h, rfl, fun _ => .refl _, fun _ _ _ => rfl⟩, fun _ => rfl⟩

theorem Thins.trans {k : NodeId} (h : Thins k g g') (h' : Thins k g' g'') : Thins k g g'' := by
  refine ⟨?_, fun p => (h'.types p).trans (h.types p)⟩
  intro n'' hn''
  obtain ⟨n', hn', hb', hlist', hform'⟩ := h'.node hn''
  obtain ⟨n, hn, hb, hlist, hform⟩ := h.node hn'
  refine ⟨n, hn, hb'.trans hb, fun d => (hlist' d).trans (hlist d), ?_⟩
  intro d p hp
  exact (hform' d p hp).trans (hform d p ((hlist' d).subset hp))

theorem forms_eq {k : NodeId} {n : Node} (hn : g.nodes.get? k = some n) (d : Direction) :
    g.forms k d = (n.pinsOf d).filterMap fun p => (g.pins.get? p).map Pin.form := by
  simp only [forms, pinsOf, hn, List.map_filterMap]

theorem forms_of_none {k : NodeId} (hn : g.nodes.get? k = none) (d : Direction) :
    g.forms k d = [] := by
  simp only [forms, pinsOf, hn, List.map_nil]

theorem Thins.forms {k : NodeId} (h : Thins k g g') (d : Direction) :
    (g'.forms k d).Sublist (g.forms k d) := by
  cases hn' : g'.nodes.get? k with
  | none =>
    rw [forms_of_none hn']
    exact List.nil_sublist _
  | some n' =>
    obtain ⟨n, hn, -, hlist, hform⟩ := h.node hn'
    rw [forms_eq hn', forms_eq hn, List.filterMap_congr fun p hp => hform d p hp]
    exact (hlist d).filterMap _

theorem LaidOut.thins {k : NodeId} (h : g.LaidOut k) (ht : Thins k g g') : g'.LaidOut k := by
  intro n' b hn' hb
  obtain ⟨n, hn, hbehavior, -⟩ := ht.node hn'
  obtain ⟨v, hv, hforms⟩ := h n b hn (hbehavior ▸ hb)
  refine ⟨v, fun p hp => (hv p hp).trans (ht.types p).symm, fun d => ?_⟩
  exact (ht.forms d).trans (hforms d)

/-! ## What thins -/

theorem thins_without (k : NodeId) (nodes : List NodeId) (pins : List PinId)
    (links : List LinkId) : Thins k g (g.without nodes pins links) := by
  refine ⟨?_, fun _ => rfl⟩
  intro n' hn'
  obtain ⟨-, n, hn, rfl⟩ := node_of_without hn'
  refine ⟨n, hn, rfl, fun d => ?_, fun d p hp => ?_⟩
  · rw [Node.pinsOf_without]
    exact List.filter_sublist
  · rw [Node.pinsOf_without] at hp
    have hkeep : p ∉ pins := by simpa using (List.mem_filter.mp hp).2
    rw [get?_pin_without, if_neg hkeep, Option.map_map]
    rfl

theorem thins_of_frame (hf : g'.frame = g.frame) (k : NodeId) : Thins k g g' := by
  have hpins : ∀ p, (g'.pins.get? p).map Pin.form = (g.pins.get? p).map Pin.form := by
    intro p
    cases hp : g.pins.get? p with
    | none =>
      cases hp' : g'.pins.get? p with
      | none => rfl
      | some pin' =>
        obtain ⟨pin, hpin, -⟩ := pin_of_frame hf hp'
        rw [hp] at hpin
        cases hpin
    | some pin =>
      obtain ⟨pin', hpin', heq⟩ := pin_of_frame hf.symm hp
      obtain ⟨-, hname, -, -, -, htype⟩ := Pin.blank_eq_blank heq
      rw [hpin', Option.map_some, Option.map_some, Pin.form, Pin.form, hname, htype]
  have htypes : ∀ p, g'.typeOf? p = g.typeOf? p := by
    intro p
    have hmap : ∀ h : Graph, h.typeOf? p = (h.frame.properties.get? p).map Property.type := by
      intro h
      simp only [typeOf?, propertyValue?, frame, Table.get?_map, Option.map_map]
      congr 1
      funext q
      exact (Value.type_ofType q.type).symm
    rw [hmap, hmap, hf]
  refine ⟨fun {n'} hn' => ⟨n', ?_, rfl, fun _ => .refl _, fun _ p _ => hpins p⟩, htypes⟩
  rwa [nodes_of_frame hf] at hn'

theorem Pin.form_connect (pin : Pin) (l : LinkId) : (pin.connect l).form = pin.form := by
  obtain ⟨links, h⟩ := pin.connect_eq l
  rw [h]
  rfl

theorem thins_addLink (k : NodeId) (link : Link) : Thins k g (addLink link g) := by
  refine ⟨fun {n'} hn' => ⟨n', hn', rfl, fun _ => .refl _, fun _ r _ => ?_⟩, fun _ => rfl⟩
  simp only [addLink, Table.get?_modify, Option.map_map]
  congr 1
  funext pin
  simp only [Function.comp_apply]
  split <;> split <;> simp only [Pin.form_connect]

theorem thins_counted (k : NodeId) : Thins k g g.counted :=
  ⟨fun h => ⟨_, h, rfl, fun _ => .refl _, fun _ _ _ => rfl⟩, fun _ => rfl⟩

theorem Intact.thins_createLink (h : g.Intact) (k : NodeId) (a b : PinId) :
    Thins k g (createLink a b g).graph := by
  rcases createLink_cases a b g with ⟨-, hg, -⟩ | ⟨p, q, -, -, -, -, hg⟩
  · rw [hg]
    exact .refl k g
  · rw [hg, deleteLinks_graph h]
    exact (thins_without k _ _ _).trans ((thins_counted k).trans (thins_addLink k _))

theorem Intact.thins_redraw (h : g.Intact) (k : NodeId) (node : NodeId) (cut : CutLink) :
    Thins k g (redraw node cut g).graph := by
  rcases redraw_eq node cut g with hg | ⟨a, b, hg⟩
  · rw [hg]
    exact .refl k g
  · rw [hg]
    exact h.thins_createLink k a b

theorem Sound.thins_redraws (h : g.Sound) (k node : NodeId) {cuts : List CutLink}
    (hlast : (cuts.forM (Graph.redraw node) g).graph.nextId < lastNumber) :
    Thins k g (cuts.forM (Graph.redraw node) g).graph := by
  refine (Edit.forM_steps (Q := fun _ g' => g'.Sound ∧ Thins k g g') (redraw_counts node) ?_ cuts
    ⟨h, .refl k g⟩ hlast).2
  intro _ cut g' hq hl
  exact ⟨hq.1.redraw hl, hq.2.trans (hq.1.intact.thins_redraw k node cut)⟩

/-! ## Adding pins -/

/-- A new pin is none of those a node lists, so they keep their forms. -/
theorem Sound.form_withPin (h : g.Sound) {node k : NodeId} {spec : PinSpec} {n : Node}
    (hn : g.nodes.get? k = some n) {d : Direction} {p : PinId} (hp : p ∈ n.pinsOf d) :
    ((g.withPin node spec).pins.get? p).map Pin.form = (g.pins.get? p).map Pin.form := by
  obtain ⟨pin, hpin, -⟩ := h.intact.listed hn hp
  rw [hpin, get?_pin_withPin h.numbered.fresh_pin hpin]

theorem Sound.thins_withPin (h : g.Sound) {k node : NodeId} (hk : k ≠ node) (spec : PinSpec) :
    Thins k g (g.withPin node spec) := by
  refine ⟨?_, fun _ => rfl⟩
  intro n' hn'
  simp only [Graph.withPin, Table.get?_modify] at hn'
  obtain ⟨n, hn, rfl⟩ := Option.map_eq_some_iff.mp hn'
  rw [if_neg hk]
  exact ⟨n, hn, rfl, fun _ => .refl _, fun d p hp => h.form_withPin hn hp⟩

theorem Node.pinsOf_attach (n : Node) (p : PinId) (d e : Direction) :
    (n.attach p d).pinsOf e = n.pinsOf e ++ if d = e then [p] else [] := by
  cases d <;> cases e <;> simp [Node.attach, Node.pinsOf]

/-- A new pin of a node comes behind its other pins of the direction. -/
theorem Sound.forms_withPin (h : g.Sound) {node : NodeId} {n : Node}
    (hn : g.nodes.get? node = some n) (spec : PinSpec) (d : Direction) :
    (g.withPin node spec).forms node d = g.forms node d ++ formsOf [spec] d := by
  have hn' : (g.withPin node spec).nodes.get? node =
      some (n.attach ⟨g.nextId⟩ spec.direction) := by
    simp [Graph.withPin, hn]
  have hold : (n.pinsOf d).filterMap (fun p => ((g.withPin node spec).pins.get? p).map Pin.form) =
      g.forms node d := by
    rw [forms_eq hn]
    exact List.filterMap_congr fun p hp => h.form_withPin hn hp
  rw [forms_eq hn', Node.pinsOf_attach, List.filterMap_append, hold]
  congr 1
  by_cases hd : spec.direction = d
  · simp [hd, Graph.withPin, formsOf, Pin.form, Pin.ofSpec, Pin.type]
  · simp [hd, formsOf]

/-- What adding declared pins comes to for the pins of the node. -/
theorem Sound.addPins_forms (h : g.Sound) {node : NodeId} {n : Node}
    (hn : g.nodes.get? node = some n) {specs : List PinSpec}
    (hlast : (Graph.addPins node specs g).graph.nextId < lastNumber) :
    (∃ n', (Graph.addPins node specs g).graph.nodes.get? node = some n' ∧
      n'.behavior = n.behavior) ∧
    (∀ d, (Graph.addPins node specs g).graph.forms node d = g.forms node d ++ formsOf specs d) ∧
    (∀ k, k ≠ node → Thins k g (Graph.addPins node specs g).graph) ∧
    ∀ p, (Graph.addPins node specs g).graph.typeOf? p = g.typeOf? p := by
  refine (Edit.forM_steps (Q := fun done g' => g'.Sound ∧
    (∃ n', g'.nodes.get? node = some n' ∧ n'.behavior = n.behavior) ∧
    (∀ d, g'.forms node d = g.forms node d ++ formsOf done d) ∧
    (∀ k, k ≠ node → Thins k g g') ∧ ∀ p, g'.typeOf? p = g.typeOf? p)
    (addPin_counts node) ?_ specs ⟨h, ⟨n, hn, rfl⟩, ?_, fun k _ => .refl k g, fun _ => rfl⟩ hlast).2
  · rintro done spec g' ⟨hg', ⟨n', hn', hb⟩, hforms, hthins, htypes⟩ hl
    refine ⟨hg'.withPin hl (Table.mem_keys_of_get? hn') spec, ?_, fun d => ?_, fun k hk => ?_,
      htypes⟩
    · refine ⟨n'.attach ⟨g'.nextId⟩ spec.direction, by simp [addPin_graph, Graph.withPin, hn'], ?_⟩
      rw [(Node.attach_same n' _ _).1, hb]
    · rw [addPin_graph, hg'.forms_withPin hn', hforms, formsOf_append, List.append_assoc]
    · exact (hthins k hk).trans (hg'.thins_withPin hk spec)
  · intro d
    simp [formsOf]

/-! ## New layouts -/

/-- Every node has the pins it declares, or some of them. -/
def Laid (g : Graph) : Prop := ∀ k, g.LaidOut k

theorem Laid.thins (h : g.Laid) (ht : ∀ k, Thins k g g') : g'.Laid :=
  fun k => (h k).thins (ht k)

theorem Laid.new (name : String) (registry : Registry) : (Graph.new name registry).Laid :=
  fun _ _ _ hn => by cases hn

theorem thins_withNode {k : NodeId} (hk : k ≠ ⟨g.nextId⟩) (n : Node) :
    Thins k g (g.withNode n) := by
  refine ⟨?_, fun _ => rfl⟩
  intro n' hn'
  simp only [Graph.withNode, Table.get?_insert, if_neg (Ne.symm hk)] at hn'
  exact ⟨n', hn', rfl, fun _ => .refl _, fun _ _ _ => rfl⟩

/-- Only one node got new pins, and these are some of those that the behavior declares. -/
structure Lays (id : NodeId) (b : Behavior) (g g' : Graph) : Prop where
  node : ∀ {n'}, g'.nodes.get? id = some n' → n'.behavior = some b
  forms : ∀ d, (g'.forms id d).Sublist (formsOf (b.layout g.propertyValue?) d)
  others : ∀ {k}, k ≠ id → Thins k g g'
  types : ∀ p, g'.typeOf? p = g.typeOf? p

/-- What happens to the other nodes before does not matter. -/
theorem Lays.after {id : NodeId} {b : Behavior} (h : Lays id b g' g'')
    (ht : ∀ {k}, k ≠ id → Thins k g g') (hvalue : g'.propertyValue? = g.propertyValue?) :
    Lays id b g g'' where
  node := h.node
  forms d := hvalue ▸ h.forms d
  others hk := (ht hk).trans (h.others hk)
  types p := (h.types p).trans (by rw [typeOf?, typeOf?, hvalue])

theorem Lays.thins {id : NodeId} {b : Behavior} (h : Lays id b g g')
    (ht : ∀ k, Thins k g' g'') : Lays id b g g'' where
  node hn'' := by
    obtain ⟨n', hn', hb, -⟩ := (ht id).node hn''
    rw [hb, h.node hn']
  forms d := ((ht id).forms d).trans (h.forms d)
  others hk := (h.others hk).trans (ht _)
  types p := ((ht id).types p).trans (h.types p)

/-- A node with new pins has those it declares. -/
theorem Lays.laidOut {id : NodeId} {b : Behavior} (h : Lays id b g g') : g'.LaidOut id := by
  intro n' b' hn' hb'
  rw [h.node hn'] at hb'
  cases hb'
  refine ⟨b.bound.bind g.propertyValue?, fun p hp => ?_, fun d => ?_⟩
  · rw [hp, Option.bind_some, h.types]
    rfl
  · rw [← Behavior.layout_eq]
    exact h.forms d

theorem Laid.lays (h : g.Laid) {id : NodeId} {b : Behavior} (hl : Lays id b g g') : g'.Laid := by
  intro k
  by_cases hk : k = id
  · exact hk ▸ hl.laidOut
  · exact (h k).thins (hl.others hk)

/-- The declared pins of a node without pins are new ones. -/
theorem Sound.lays_addPins (h : g.Sound) {node : NodeId} {n : Node} {b : Behavior}
    (hn : g.nodes.get? node = some n) (hb : n.behavior = some b) (hbare : ∀ d, n.pinsOf d = [])
    (hlast : (Graph.addPins node (b.layout g.propertyValue?) g).graph.nextId < lastNumber) :
    Lays node b g (Graph.addPins node (b.layout g.propertyValue?) g).graph := by
  obtain ⟨⟨n', hn', hb'⟩, hforms, hothers, htypes⟩ := h.addPins_forms hn hlast
  refine ⟨?_, fun d => ?_, fun hk => hothers _ hk, htypes⟩
  · intro n'' hn''
    rw [hn'] at hn''
    cases hn''
    rw [hb', hb]
  · have hnone : g.forms node d = [] := by
      rw [forms_eq hn, hbare d]
      rfl
    rw [hforms d, hnone, List.nil_append]

theorem Sound.lays_addNode (hs : g.Sound) {b : Behavior}
    (hlast : (Graph.addNode b g).graph.nextId < lastNumber) :
    Lays ⟨g.nextId⟩ b g (Graph.addNode b g).graph := by
  rw [addNode_graph] at hlast ⊢
  generalize hnew : Node.ofBehavior ⟨g.nextId⟩ b.kind b = n at hlast ⊢
  have hnode : (g.withNode n).nextId < lastNumber :=
    Nat.lt_of_le_of_lt (addPins_counts _ _ _ hlast) hlast
  have hn : (g.withNode n).nodes.get? ⟨g.nextId⟩ = some n := by simp [Graph.withNode]
  have hsound : (g.withNode n).Sound := hnew ▸ hs.withNode hnode b.kind b
  have hb : n.behavior = some b := by rw [← hnew]; rfl
  have hbare : ∀ d, n.pinsOf d = [] := by
    intro d
    rw [← hnew]
    cases d <;> rfl
  exact (hsound.lays_addPins hn hb hbare hlast).after (fun hk => thins_withNode hk n) rfl

theorem thins_renameNode (k id : NodeId) (name : String) :
    Thins k g (Graph.renameNode id name g) := by
  refine ⟨?_, fun _ => rfl⟩
  intro n' hn'
  simp only [Graph.renameNode, Table.get?_modify] at hn'
  obtain ⟨n, hn, rfl⟩ := Option.map_eq_some_iff.mp hn'
  refine ⟨n, hn, by split <;> rfl, fun d => ?_, fun d p _ => rfl⟩
  split <;> exact .refl _

/-- A new layout gives a node the pins it declares and leaves the other nodes theirs. -/
theorem Sound.lays_relayout (h : g.Sound) {id : NodeId} {n : Node} {b : Behavior}
    (hn : g.nodes.get? id = some n) (hb : n.behavior = some b)
    (hlast : (Graph.relayout id g).graph.nextId < lastNumber) :
    Lays id b g (Graph.relayout id g).graph := by
  rw [h.relayout_graph hn hb] at hlast ⊢
  have hadd := Nat.lt_of_le_of_lt (Edit.Counts.forM (redraw_counts id) _ _ hlast) hlast
  have hcut := h.deletePins n.pins
  have hn' : (Graph.deletePins n.pins g).graph.nodes.get? id = some (n.without n.pins) := by
    rw [deletePins_graph h.intact, get?_node_without, if_neg (by simp), hn]
    rfl
  have hbare : ∀ d, (n.without n.pins).pinsOf d = [] := by
    intro d
    rw [Node.pinsOf_without]
    refine List.filter_eq_nil_iff.mpr fun p hp => ?_
    simpa using Node.mem_pins_iff.mpr ⟨d, hp⟩
  have hvalue : (Graph.deletePins n.pins g).graph.propertyValue? = g.propertyValue? := by
    rw [deletePins_graph h.intact]
    rfl
  have hnode : id ∈ (Graph.deletePins n.pins g).graph.nodes.keys := Table.mem_keys_of_get? hn'
  rw [← hvalue] at hlast hadd ⊢
  refine ((hcut.lays_addPins hn' hb hbare hadd).thins fun k => ?_).after (fun {k} _ => ?_) hvalue
  · exact (hcut.addPins hnode hadd).thins_redraws k id hlast
  · rw [deletePins_graph h.intact]
    exact thins_without k _ _ _

theorem thins_withBehavior {k id : NodeId} (hk : k ≠ id) (b : Behavior) :
    Thins k g (g.withBehavior id b) := by
  refine ⟨?_, fun _ => rfl⟩
  intro n' hn'
  simp only [Graph.withBehavior, Table.get?_modify, if_neg hk] at hn'
  obtain ⟨n, hn, rfl⟩ := Option.map_eq_some_iff.mp hn'
  exact ⟨n, hn, rfl, fun _ => .refl _, fun _ _ _ => rfl⟩

/-- What an operation can do to the pins of the nodes that are there. -/
inductive Repins (g g' : Graph) : Prop where
  /-- It takes some away. -/
  | thins (h : ∀ k, Thins k g g')
  /-- One node, which may be new, gets pins as declared. -/
  | lays {id : NodeId} {b : Behavior} (h : Lays id b g g')

theorem Repins.same (h : g' = g) : Repins g g' := .thins fun k => h ▸ .refl k g

theorem Laid.repins (h : g.Laid) (hr : Repins g g') : g'.Laid := by
  cases hr with
  | thins ht => exact h.thins ht
  | lays hl => exact h.lays hl

theorem Sound.repins_createNode (hs : g.Sound) {type : String}
    (hlast : (Graph.createNode type g).graph.nextId < lastNumber) :
    Repins g (Graph.createNode type g).graph := by
  rw [createNode_graph] at hlast ⊢
  cases ht : g.registry.get? type with
  | none => exact .same rfl
  | some t =>
    simp only [ht] at hlast
    exact .lays ((hs.lays_addNode hlast).thins fun k => thins_renameNode k _ _)

theorem Sound.repins_relayout (h : g.Sound) {id : NodeId}
    (hlast : (Graph.relayout id g).graph.nextId < lastNumber) :
    Repins g (Graph.relayout id g).graph := by
  cases hn : g.nodes.get? id with
  | none => exact .same (by simp [Graph.relayout, hn])
  | some n =>
    obtain ⟨b, hb, -⟩ := h.staffed.staff hn
    exact .lays (h.lays_relayout hn hb hlast)

theorem Sound.repins_bindNode (hs : g.Sound) {id : NodeId} {p : PropertyId}
    (hlast : (Graph.bindNode id p g).graph.nextId < lastNumber) :
    Repins g (Graph.bindNode id p g).graph := by
  rcases bindNode_cases id p g with ⟨cause, hg⟩ | ⟨n, b, b', -, hn, hb, hbind, hg⟩
  · exact .same (by rw [hg])
  · rw [hg] at hlast ⊢
    have hn' : (g.withBehavior id b').nodes.get? id = some { n with behavior := some b' } := by
      simp [Graph.withBehavior, hn]
    have hlays := (hs.withBehavior hn hb hbind).lays_relayout hn' rfl hlast
    exact .lays (hlays.after (fun hk => thins_withBehavior hk b') rfl)

/-! ## Properties -/

/-- A node that loses its property keeps its pins. -/
theorem forms_withoutProperties (g : Graph) (ids : List PropertyId) (k : NodeId) (d : Direction) :
    (g.withoutProperties ids).forms k d = g.forms k d := by
  cases hn : g.nodes.get? k with
  | none =>
    have hn' : (g.withoutProperties ids).nodes.get? k = none := by
      simp [Graph.withoutProperties, hn]
    rw [forms_of_none hn, forms_of_none hn']
  | some n =>
    have hn' : (g.withoutProperties ids).nodes.get? k = some (n.unbindAll ids) := by
      simp [Graph.withoutProperties, hn]
    rw [forms_eq hn', forms_eq hn]
    cases d <;> rfl

/-- A property that goes takes the bindings to it along, and no pins. -/
theorem Laid.withoutProperties (h : g.Laid) (ids : List PropertyId) :
    (g.withoutProperties ids).Laid := by
  intro k n' b' hn' hb'
  simp only [Graph.withoutProperties, Table.get?_map] at hn'
  obtain ⟨n, hn, rfl⟩ := Option.map_eq_some_iff.mp hn'
  obtain ⟨b, hb, rfl⟩ := Option.map_eq_some_iff.mp hb'
  obtain ⟨v, hv, hforms⟩ := h k n b hn hb
  refine ⟨v, fun p hp => ?_, fun d => ?_⟩
  · obtain ⟨hp, hnot⟩ := Behavior.bound_unbindAll.mp hp
    rw [hv p hp]
    simp [Graph.withoutProperties, typeOf?, propertyValue?, hnot]
  · rw [Behavior.unbindAll, Behavior.layoutAs_keepBound, forms_withoutProperties]
    exact hforms d

theorem Laid.deleteProperty (h : g.Laid) (hs : g.Sound) (id : PropertyId) :
    (Graph.deleteProperty id g).graph.Laid := by
  by_cases hid : id ∈ g.properties.keys
  · rw [deleteProperty_graph hs.intact.nodes.nodup hid]
    exact h.withoutProperties _
  · rwa [deleteProperty_of_not_mem hid]

/-- A node may be bound to the property already, from a time before there was one; such a node has
    no value pins, so it is laid out whatever the type of the property is. -/
theorem Laid.withProperty (h : g.Laid) (hs : g.Sound) (name : String) (value : Value)
    (parent : Option PropertyId) : (g.withProperty name value parent).Laid := by
  intro k n b hn hb
  obtain ⟨v, hv, hforms⟩ := h k n b hn hb
  have hnone : g.typeOf? ⟨g.nextId⟩ = none := by
    simp [typeOf?, propertyValue?, Table.get?_eq_none hs.numbered.fresh_property]
  have htypes : ∀ p, (g.withProperty name value parent).typeOf? p =
      if (⟨g.nextId⟩ : PropertyId) = p then some value.type else g.typeOf? p := by
    intro p
    simp only [Graph.withProperty, typeOf?, propertyValue?, Table.get?_insert]
    split <;> rfl
  by_cases hp : b.bound = some ⟨g.nextId⟩
  · refine ⟨some value, fun p hbound => ?_, fun d => ?_⟩
    · rw [hp] at hbound
      cases hbound
      rw [htypes, if_pos rfl]
      rfl
    · have hv' : v = none := Option.map_eq_none_iff.mp ((hv _ hp).trans hnone)
      subst hv'
      refine (hforms d).trans ?_
      exact ((Behavior.layoutAs_none_sublist (some value) b).filter _).map _
  · refine ⟨v, fun p hbound => ?_, hforms⟩
    have hne : (⟨g.nextId⟩ : PropertyId) ≠ p := fun heq => hp (heq ▸ hbound)
    rw [htypes, if_neg hne, hv p hbound]

theorem Laid.createProperty (h : g.Laid) (hs : g.Sound) (name : String) (value : Value)
    (parent : Option PropertyId) : (Graph.createProperty name value parent g).graph.Laid := by
  rcases createProperty_cases name value parent g with ⟨q, -, -, hg⟩ | ⟨-, hg⟩
  · rwa [hg]
  · rw [hg]
    exact h.withProperty hs name value parent

end Graph

end FlowGraph
