import FlowGraph.Graph.Layout
import FlowGraph.Proofs.Graph.Deletion

/-!
# What additions come to

Nodes, pins and links enter a graph under the number the counter stands at, behind everything that
is there.  `addPin` and `addLink` are the two steps in which integrity is at stake: a pin has to
be listed by its node at once, and a link has to be entered at both of its ends behind their other
links.  Both keep the graph intact as long as the number is not in use, which `Graph.Numbered`
provides.
-/

namespace FlowGraph

theorem Node.mem_pinsOf_attach {n : Node} {p q : PinId} {d e : Direction} :
    q ∈ (n.attach p d).pinsOf e ↔ q ∈ n.pinsOf e ∨ (q = p ∧ e = d) := by
  cases d <;> cases e <;> simp [Node.attach, Node.pinsOf]

@[simp] theorem Node.id_attach (n : Node) (p : PinId) (d : Direction) :
    (n.attach p d).id = n.id := by
  cases d <;> rfl

/-- A new link at a pin changes nothing about the pin but its list. -/
theorem Pin.connect_eq (p : Pin) (l : LinkId) :
    ∃ links, p.connect l = { p with links := links } := by
  unfold Pin.connect
  cases p.direction with
  | input => exact ⟨_, rfl⟩
  | output => exact ⟨_, rfl⟩

@[simp] theorem Pin.id_connect (p : Pin) (l : LinkId) : (p.connect l).id = p.id := by
  obtain ⟨ls, h⟩ := p.connect_eq l
  rw [h]

@[simp] theorem Pin.node_connect (p : Pin) (l : LinkId) : (p.connect l).node = p.node := by
  obtain ⟨ls, h⟩ := p.connect_eq l
  rw [h]

@[simp] theorem Pin.direction_connect (p : Pin) (l : LinkId) :
    (p.connect l).direction = p.direction := by
  obtain ⟨ls, h⟩ := p.connect_eq l
  rw [h]

@[simp] theorem Pin.value_connect (p : Pin) (l : LinkId) : (p.connect l).value = p.value := by
  obtain ⟨ls, h⟩ := p.connect_eq l
  rw [h]

theorem Pin.links_connect {p : Pin} (h : p.direction = .input → p.links = []) (l : LinkId) :
    (p.connect l).links = p.links ++ [l] := by
  unfold Pin.connect
  cases hd : p.direction with
  | input => rw [h hd, List.nil_append]
  | output => rfl

theorem Pin.canConnect_connect (p q : Pin) (l m : LinkId) :
    (p.connect l).canConnect (q.connect m) = p.canConnect q := by
  rw [Bool.eq_iff_iff, Pin.canConnect_iff, Pin.canConnect_iff]
  simp [Pin.type]

def Pin.unlinked (p : Pin) : Pin := { p with links := [] }

theorem Pin.unlinked_connect (p : Pin) (l : LinkId) : (p.connect l).unlinked = p.unlinked := by
  obtain ⟨ls, h⟩ := p.connect_eq l
  rw [h]
  rfl

theorem Pin.canConnect_unlinked (a b : Pin) : a.unlinked.canConnect b.unlinked = a.canConnect b :=
  rfl

namespace Graph

variable {g g' : Graph}

/-- A pin is the same pin in both, but for its links. -/
theorem pin_of_unlinked (h : g'.pins.map .unlinked = g.pins.map .unlinked) {p : PinId} {pin' : Pin}
    (hp : g'.pins.get? p = some pin') :
    ∃ pin, g.pins.get? p = some pin ∧ pin'.unlinked = pin.unlinked := by
  have hget : (g'.pins.map .unlinked).get? p = (g.pins.map .unlinked).get? p := by rw [h]
  simp only [Table.get?_map, hp, Option.map_some] at hget
  obtain ⟨pin, hpin, heq⟩ := Option.map_eq_some_iff.mp hget.symm
  exact ⟨pin, hpin, heq.symm⟩

/-! ## The counter -/

theorem nextNumber_of_lt {n : Nat} (h : nextNumber n < lastNumber) : nextNumber n = n + 1 := by
  unfold nextNumber at h ⊢
  omega

/-- The graph after the next number was given out. -/
def counted (g : Graph) : Graph := { g with nextId := nextNumber g.nextId }

theorem Intact.counted (h : g.Intact) : g.counted.Intact := h.congr rfl rfl rfl rfl

theorem Numbered.counted (h : g.Numbered) (hlast : g.counted.nextId < lastNumber) :
    g.counted.Numbered := by
  refine h.sublist (List.Sublist.refl _) ?_
  have hnext : g.counted.nextId = g.nextId + 1 := nextNumber_of_lt hlast
  omega

theorem Numbered.without (h : g.Numbered) (nodes : List NodeId) (pins : List PinId)
    (links : List LinkId) : (g.without nodes pins links).Numbered := by
  refine h.sublist ?_ (Nat.le_refl _)
  simp only [ids, Graph.without, Table.keys_map, Table.keys_filter]
  exact ((List.filter_sublist.map _).append (List.filter_sublist.map _)).append
    (List.filter_sublist.map _) |>.append (List.Sublist.refl _)

/-! ## Nodes -/

/-- The graph with a node under the next number. -/
def withNode (g : Graph) (n : Node) : Graph :=
  { g.counted with nodes := g.nodes.insert ⟨g.nextId⟩ n }

theorem Intact.withNode (h : g.Intact) (hfresh : (⟨g.nextId⟩ : NodeId) ∉ g.nodes.keys) {n : Node}
    (hid : n.id = ⟨g.nextId⟩) (hi : n.inputs = []) (ho : n.outputs = []) :
    (g.withNode n).Intact where
  nodes := h.nodes.insert hfresh hid
  pins := h.pins
  links := h.links
  properties := h.properties
  listed {k m} hm {d p} hp := by
    simp only [Graph.withNode, Table.get?_insert] at hm
    by_cases hk : (⟨g.nextId⟩ : NodeId) = k
    · rw [if_pos hk] at hm
      cases hm
      cases d with
      | input => exact absurd hp (by simp [Node.pinsOf, hi])
      | output => exact absurd hp (by simp [Node.pinsOf, ho])
    · rw [if_neg hk] at hm
      exact h.listed hm hp
  owned {p pin} hp := by
    obtain ⟨m, hm, hlist⟩ := h.owned hp
    refine ⟨m, ?_, hlist⟩
    have hne : (⟨g.nextId⟩ : NodeId) ≠ pin.node := fun heq =>
      hfresh (heq ▸ Table.mem_keys_of_get? hm)
    simp only [Graph.withNode, Table.get?_insert, if_neg hne]
    exact hm
  joined := h.joined
  entered := h.entered
  fed := h.fed

theorem Numbered.withNode (h : g.Numbered) (hlast : g.counted.nextId < lastNumber) (n : Node) :
    (g.withNode n).Numbered := by
  have hnext : g.counted.nextId = g.nextId + 1 := nextNumber_of_lt hlast
  refine h.cons ?_ (show g.nextId < g.counted.nextId by omega)
  simp only [ids, Graph.withNode, Graph.counted, Table.keys_insert, if_neg h.fresh_node,
    List.map_append, List.map_cons, List.map_nil, List.append_assoc]
  exact List.perm_middle

/-! ## Pins -/

/-- The graph with a pin under the next number, listed by its node. -/
def withPin (g : Graph) (node : NodeId) (spec : PinSpec) : Graph :=
  { g.counted with
    pins := g.pins.insert ⟨g.nextId⟩ (.ofSpec ⟨g.nextId⟩ node spec)
    nodes := g.nodes.modify node (·.attach ⟨g.nextId⟩ spec.direction) }

theorem addPin_graph (node : NodeId) (spec : PinSpec) (g : Graph) :
    (addPin node spec g).graph = g.withPin node spec := rfl

/-- A new pin leaves the others as they are. -/
theorem get?_pin_withPin (hfresh : (⟨g.nextId⟩ : PinId) ∉ g.pins.keys) {p : PinId} {pin : Pin}
    (hp : g.pins.get? p = some pin) {node : NodeId} {spec : PinSpec} :
    (g.withPin node spec).pins.get? p = some pin := by
  have hne : (⟨g.nextId⟩ : PinId) ≠ p := fun heq => hfresh (heq ▸ Table.mem_keys_of_get? hp)
  simp only [Graph.withPin, Table.get?_insert, if_neg hne]
  exact hp

theorem pin_of_withPin {p : PinId} {pin : Pin} {node : NodeId} {spec : PinSpec}
    (hp : (g.withPin node spec).pins.get? p = some pin) :
    (p = ⟨g.nextId⟩ ∧ pin = .ofSpec ⟨g.nextId⟩ node spec) ∨ g.pins.get? p = some pin := by
  simp only [Graph.withPin, Table.get?_insert] at hp
  by_cases hk : (⟨g.nextId⟩ : PinId) = p
  · rw [if_pos hk] at hp
    cases hp
    exact .inl ⟨hk.symm, rfl⟩
  · rw [if_neg hk] at hp
    exact .inr hp

theorem Intact.withPin (h : g.Intact) (hfresh : (⟨g.nextId⟩ : PinId) ∉ g.pins.keys)
    {node : NodeId} (hnode : node ∈ g.nodes.keys) (spec : PinSpec) :
    (g.withPin node spec).Intact := by
  obtain ⟨owner, howner⟩ := Table.mem_keys.mp hnode
  have hnew : g.pins.get? ⟨g.nextId⟩ = none := Table.get?_eq_none hfresh
  have hself : (g.withPin node spec).pins.get? ⟨g.nextId⟩ =
      some (.ofSpec ⟨g.nextId⟩ node spec) := by
    simp [Graph.withPin]
  exact {
    nodes := h.nodes.modify node (f := (·.attach ⟨g.nextId⟩ spec.direction)) (by simp)
    pins := h.pins.insert hfresh rfl
    links := h.links
    properties := h.properties
    listed := fun {k n} hn {d p} hp => by
      simp only [Graph.withPin, Table.get?_modify] at hn
      obtain ⟨n₀, hn₀, rfl⟩ := Option.map_eq_some_iff.mp hn
      by_cases hk : k = node
      · rw [if_pos hk] at hp
        rcases Node.mem_pinsOf_attach.mp hp with hm | ⟨rfl, rfl⟩
        · obtain ⟨pin, hpin, hrest⟩ := h.listed hn₀ hm
          exact ⟨pin, get?_pin_withPin hfresh hpin, hrest⟩
        · exact ⟨_, hself, hk.symm, rfl⟩
      · rw [if_neg hk] at hp
        obtain ⟨pin, hpin, hrest⟩ := h.listed hn₀ hp
        exact ⟨pin, get?_pin_withPin hfresh hpin, hrest⟩
    owned := fun {p pin} hp => by
      rcases pin_of_withPin hp with ⟨rfl, rfl⟩ | hp₀
      · refine ⟨owner.attach ⟨g.nextId⟩ spec.direction, ?_, ?_⟩
        · show (g.nodes.modify node _).get? node = _
          simp [howner]
        · exact Node.mem_pinsOf_attach.mpr (.inr ⟨rfl, rfl⟩)
      · obtain ⟨n, hn, hlist⟩ := h.owned hp₀
        refine ⟨if pin.node = node then n.attach ⟨g.nextId⟩ spec.direction else n, ?_, ?_⟩
        · simp [Graph.withPin, hn]
        · split
          · exact Node.mem_pinsOf_attach.mpr (.inl hlist)
          · exact hlist
    joined := fun {l link} hl => by
      obtain ⟨a, b, ha, hb, hab⟩ := h.joined hl
      exact ⟨a, b, get?_pin_withPin hfresh ha, get?_pin_withPin hfresh hb, hab⟩
    entered := fun {p pin} hp => by
      rcases pin_of_withPin hp with ⟨rfl, rfl⟩ | hp₀
      · exact (h.linksAt_eq_nil hnew).symm
      · exact h.entered hp₀
    fed := fun {p pin} hp hd => by
      rcases pin_of_withPin hp with ⟨rfl, rfl⟩ | hp₀
      · exact Nat.zero_le 1
      · exact h.fed hp₀ hd }

theorem Numbered.withPin (h : g.Numbered) (hlast : g.counted.nextId < lastNumber) (node : NodeId)
    (spec : PinSpec) : (g.withPin node spec).Numbered := by
  have hnext : g.counted.nextId = g.nextId + 1 := nextNumber_of_lt hlast
  refine h.cons ?_ (show g.nextId < g.counted.nextId by omega)
  simp only [ids, Graph.withPin, Graph.counted, Table.keys_insert, if_neg h.fresh_pin,
    Table.keys_modify, List.map_append, List.map_cons, List.map_nil, List.append_assoc]
  exact (List.perm_middle.append_left _).trans List.perm_middle

/-! ## Links -/

theorem linksAt_addLink {link : Link} (hfresh : link.id ∉ g.links.keys) (p : PinId) :
    (addLink link g).linksAt p =
      g.linksAt p ++ if link.involves p = true then [link.id] else [] := by
  simp only [linksAt, addLink, Table.values_insert hfresh, List.filter_append, List.map_append]
  by_cases hp : link.involves p = true <;> simp [hp]

/-- A pin after a link was added: entered if it is an end, else as before. -/
theorem get?_pin_addLink {link : Link} (hne : link.start ≠ link.finish) (p : PinId) :
    (addLink link g).pins.get? p =
      (g.pins.get? p).map fun pin =>
        if link.involves p = true then pin.connect link.id else pin := by
  simp only [addLink, Table.get?_modify, Option.map_map]
  congr 1
  funext pin
  by_cases hs : p = link.start
  · have hf : p ≠ link.finish := fun h => hne (hs.symm.trans h)
    simp [Link.involves, hs, hne]
  · by_cases hf : p = link.finish
    · simp [Link.involves, hf, Ne.symm hne]
    · simp [Link.involves, hs, hf, Ne.symm hs, Ne.symm hf]

/-- A link may be added between two pins that fit if the input has none yet. -/
theorem Intact.addLink (h : g.Intact) {link : Link} (hfresh : link.id ∉ g.links.keys)
    {a b : Pin} (ha : g.pins.get? link.start = some a) (hb : g.pins.get? link.finish = some b)
    (hab : a.canConnect b = true)
    (hfree : ∀ {p pin}, g.pins.get? p = some pin → link.involves p = true →
      pin.direction = .input → pin.links = []) :
    (addLink link g).Intact := by
  -- The ends are different pins, so that each of them enters the link once.
  have hne : link.start ≠ link.finish := by
    intro heq
    rw [heq, hb] at ha
    cases ha
    exact (Pin.canConnect_iff.mp hab).1 rfl
  have hview := get?_pin_addLink (g := g) hne
  have hold : ∀ {p pin}, g.pins.get? p = some pin → (Graph.addLink link g).pins.get? p =
      some (if link.involves p = true then pin.connect link.id else pin) := by
    intro p pin hp
    rw [hview, hp]
    rfl
  exact {
    nodes := h.nodes
    pins := (h.pins.modify _ (f := (·.connect link.id)) (by simp)).modify _
      (f := (·.connect link.id)) (by simp)
    links := h.links.insert hfresh rfl
    properties := h.properties
    listed := fun {k n} hn {d p} hp => by
      obtain ⟨pin, hpin, hk, hd⟩ := h.listed hn hp
      refine ⟨_, hold hpin, ?_, ?_⟩ <;> split <;> simp [hk, hd]
    owned := fun {p pin} hp => by
      rw [hview] at hp
      obtain ⟨pin₀, hp₀, rfl⟩ := Option.map_eq_some_iff.mp hp
      obtain ⟨n, hn, hlist⟩ := h.owned hp₀
      refine ⟨n, ?_, ?_⟩ <;> split <;> simpa using ‹_›
    joined := fun {l link'} hl => by
      simp only [Graph.addLink, Table.get?_insert] at hl
      by_cases hk : link.id = l
      · rw [if_pos hk] at hl
        cases hl
        refine ⟨_, _, hold ha, hold hb, ?_⟩
        have hs : link.involves link.start = true := Link.involves_iff.mpr (.inl rfl)
        have hf : link.involves link.finish = true := Link.involves_iff.mpr (.inr rfl)
        rw [if_pos hs, if_pos hf, Pin.canConnect_connect]
        exact hab
      · rw [if_neg hk] at hl
        obtain ⟨a', b', ha', hb', hab'⟩ := h.joined hl
        refine ⟨_, _, hold ha', hold hb', ?_⟩
        rw [Pin.canConnect_iff] at hab' ⊢
        split <;> split <;> simpa [Pin.type] using hab'
    entered := fun {p pin} hp => by
      rw [hview] at hp
      obtain ⟨pin₀, hp₀, rfl⟩ := Option.map_eq_some_iff.mp hp
      -- The new link is the last of the table, and each of its ends puts it last.
      rw [linksAt_addLink hfresh, ← h.entered hp₀]
      by_cases hi : link.involves p = true
      · rw [if_pos hi, if_pos hi, Pin.links_connect (hfree hp₀ hi)]
      · rw [if_neg hi, if_neg hi, List.append_nil]
    fed := fun {p pin} hp hd => by
      rw [hview] at hp
      obtain ⟨pin₀, hp₀, rfl⟩ := Option.map_eq_some_iff.mp hp
      by_cases hi : link.involves p = true
      · rw [if_pos hi] at hd ⊢
        rw [Pin.direction_connect] at hd
        rw [Pin.links_connect (hfree hp₀ hi), hfree hp₀ hi hd]
        exact Nat.le_refl 1
      · rw [if_neg hi] at hd ⊢
        exact h.fed hp₀ hd }

/-- The graph with a link under the next number. -/
def withLink (g : Graph) (a b : PinId) : Graph := addLink ⟨⟨g.nextId⟩, a, b⟩ g.counted

theorem Numbered.withLink (h : g.Numbered) (hlast : g.counted.nextId < lastNumber)
    (a b : PinId) : (g.withLink a b).Numbered := by
  have hnext : g.counted.nextId = g.nextId + 1 := nextNumber_of_lt hlast
  refine h.cons ?_ (show g.nextId < g.counted.nextId by omega)
  simp only [ids, Graph.withLink, Graph.addLink, Graph.counted, Table.keys_insert,
    if_neg h.fresh_link, Table.keys_modify, List.map_append, List.map_cons, List.map_nil,
    List.append_assoc]
  exact ((List.perm_middle.append_left _).trans List.perm_middle).append_left _ |>.trans
    List.perm_middle

end Graph

end FlowGraph
