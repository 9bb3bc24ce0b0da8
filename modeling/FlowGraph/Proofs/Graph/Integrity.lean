import FlowGraph.Graph.Basic
import FlowGraph.Proofs.Table

/-!
# Referential integrity

A graph refers from one entity to another by id, in both directions: a node lists its pins and a
pin names its node, a link names its two pins and each pin lists its links.  `Graph.Intact` says
that all of these references lead somewhere and agree.  The list of links of a pin is not only
right as a set: it is the link table read from the beginning (`entered`), and this order is what
the flow follows and what a document saves.

`Graph.Numbered` says that no id is used twice in the four tables together and that the counter is
above all of them.  It is apart from `Intact` because it can be lost in one way only, by running
the counter up to `lastNumber`.
-/

namespace FlowGraph

theorem eq_singleton_of_mem {α : Type} {xs : List α} {x : α} (hx : x ∈ xs)
    (hle : xs.length ≤ 1) : xs = [x] := by
  cases xs with
  | nil => cases hx
  | cons y rest =>
    rw [List.length_cons] at hle
    have hrest : rest = [] := List.eq_nil_of_length_eq_zero (by omega)
    rw [hrest, List.mem_singleton] at hx
    rw [hrest, hx]

namespace Node

theorem mem_pins_iff {n : Node} {p : PinId} : p ∈ n.pins ↔ ∃ d, p ∈ n.pinsOf d := by
  constructor
  · intro h
    rcases List.mem_append.mp h with h | h
    · exact ⟨.input, h⟩
    · exact ⟨.output, h⟩
  · rintro ⟨d, h⟩
    cases d with
    | input => exact List.mem_append_left _ h
    | output => exact List.mem_append_right _ h

end Node

namespace Link

theorem involves_iff {l : Link} {p : PinId} : l.involves p = true ↔ l.start = p ∨ l.finish = p := by
  simp [involves]

end Link

namespace Pin

theorem canConnect_iff {p q : Pin} :
    p.canConnect q = true ↔ q.id ≠ p.id ∧ q.type = p.type ∧ q.direction ≠ p.direction := by
  simp [canConnect, and_assoc]

end Pin

namespace Graph

/-- The ids of the links that involve a pin, in the order of the links. -/
def linksAt (g : Graph) (p : PinId) : List LinkId :=
  (g.links.values.filter (·.involves p)).map (·.id)

/-- The ends of the link exist and may be linked. -/
def Joins (g : Graph) (link : Link) : Prop :=
  ∃ a b, g.pins.get? link.start = some a ∧ g.pins.get? link.finish = some b ∧
    a.canConnect b = true

/-- Every reference from one entity to another leads somewhere, and the references back and forth
    between two entities agree. -/
structure Intact (g : Graph) : Prop where
  nodes : g.nodes.Keyed Node.id
  pins : g.pins.Keyed Pin.id
  links : g.links.Keyed Link.id
  properties : g.properties.Keyed Property.id
  /-- What a node lists is a pin of its own. -/
  listed : ∀ {k n}, g.nodes.get? k = some n → ∀ {d p}, p ∈ n.pinsOf d →
    ∃ pin, g.pins.get? p = some pin ∧ pin.node = k ∧ pin.direction = d
  /-- A pin is listed by the node it names. -/
  owned : ∀ {p pin}, g.pins.get? p = some pin →
    ∃ n, g.nodes.get? pin.node = some n ∧ p ∈ n.pinsOf pin.direction
  joined : ∀ {l link}, g.links.get? l = some link → g.Joins link
  /-- The links of a pin are those that involve it, in the order of the links. -/
  entered : ∀ {p pin}, g.pins.get? p = some pin → pin.links = g.linksAt p
  /-- At most one link feeds an input. -/
  fed : ∀ {p pin}, g.pins.get? p = some pin → pin.direction = .input → pin.links.length ≤ 1

/-- All ids in use, in the four tables. -/
def ids (g : Graph) : List Nat :=
  g.nodes.keys.map (·.number) ++ g.pins.keys.map (·.number) ++
    g.links.keys.map (·.number) ++ g.properties.keys.map (·.number)

/-- No id is in use twice, and the next one is above them all. -/
structure Numbered (g : Graph) : Prop where
  distinct : g.ids.Nodup
  below : ∀ i ∈ g.ids, i < g.nextId

variable {g g' : Graph}

/-! ## Ids in use -/

theorem mem_ids_iff {i : Nat} :
    i ∈ g.ids ↔ ⟨i⟩ ∈ g.nodes.keys ∨ ⟨i⟩ ∈ g.pins.keys ∨ ⟨i⟩ ∈ g.links.keys ∨
      ⟨i⟩ ∈ g.properties.keys := by
  have hnode : (∃ k ∈ g.nodes.keys, k.number = i) ↔ ⟨i⟩ ∈ g.nodes.keys :=
    ⟨fun ⟨_, hk, hi⟩ => hi ▸ hk, fun h => ⟨_, h, rfl⟩⟩
  have hpin : (∃ k ∈ g.pins.keys, k.number = i) ↔ ⟨i⟩ ∈ g.pins.keys :=
    ⟨fun ⟨_, hk, hi⟩ => hi ▸ hk, fun h => ⟨_, h, rfl⟩⟩
  have hlink : (∃ k ∈ g.links.keys, k.number = i) ↔ ⟨i⟩ ∈ g.links.keys :=
    ⟨fun ⟨_, hk, hi⟩ => hi ▸ hk, fun h => ⟨_, h, rfl⟩⟩
  have hproperty : (∃ k ∈ g.properties.keys, k.number = i) ↔ ⟨i⟩ ∈ g.properties.keys :=
    ⟨fun ⟨_, hk, hi⟩ => hi ▸ hk, fun h => ⟨_, h, rfl⟩⟩
  simp only [ids, List.mem_append, List.mem_map, hnode, hpin, hlink, hproperty, or_assoc]

/-- The number the counter stands at is not in use. -/
theorem Numbered.fresh (h : g.Numbered) : g.nextId ∉ g.ids :=
  fun hm => absurd (h.below _ hm) (Nat.lt_irrefl _)

theorem Numbered.fresh_node (h : g.Numbered) : (⟨g.nextId⟩ : NodeId) ∉ g.nodes.keys :=
  fun hm => h.fresh (mem_ids_iff.mpr (.inl hm))

theorem Numbered.fresh_pin (h : g.Numbered) : (⟨g.nextId⟩ : PinId) ∉ g.pins.keys :=
  fun hm => h.fresh (mem_ids_iff.mpr (.inr (.inl hm)))

theorem Numbered.fresh_link (h : g.Numbered) : (⟨g.nextId⟩ : LinkId) ∉ g.links.keys :=
  fun hm => h.fresh (mem_ids_iff.mpr (.inr (.inr (.inl hm))))

theorem Numbered.fresh_property (h : g.Numbered) :
    (⟨g.nextId⟩ : PropertyId) ∉ g.properties.keys :=
  fun hm => h.fresh (mem_ids_iff.mpr (.inr (.inr (.inr hm))))

/-- Fewer ids under a counter that did not go back. -/
theorem Numbered.sublist (h : g.Numbered) (hids : g'.ids.Sublist g.ids)
    (hnext : g.nextId ≤ g'.nextId) : g'.Numbered where
  distinct := h.distinct.sublist hids
  below i hi := Nat.lt_of_lt_of_le (h.below i (hids.subset hi)) hnext

/-- One more id, the one the counter stood at. -/
theorem Numbered.cons (h : g.Numbered) (hids : g'.ids.Perm (g.nextId :: g.ids))
    (hnext : g.nextId < g'.nextId) : g'.Numbered where
  distinct := hids.nodup_iff.mpr (List.nodup_cons.mpr ⟨h.fresh, h.distinct⟩)
  below i hi := by
    rcases List.mem_cons.mp (hids.mem_iff.mp hi) with rfl | hm
    · exact hnext
    · exact Nat.lt_trans (h.below i hm) hnext

/-! ## What integrity gives -/

theorem mem_linksAt_iff (h : g.links.Keyed Link.id) {l : LinkId} {p : PinId} :
    l ∈ g.linksAt p ↔ ∃ link, g.links.get? l = some link ∧ link.involves p = true := by
  constructor
  · intro hl
    obtain ⟨link, hm, rfl⟩ := List.mem_map.mp hl
    obtain ⟨hv, hi⟩ := List.mem_filter.mp hm
    exact ⟨link, h.get?_of_mem_values hv, hi⟩
  · rintro ⟨link, hl, hi⟩
    have hid : link.id = l := h.get?_id hl
    exact hid ▸ List.mem_map_of_mem
      (List.mem_filter.mpr ⟨Table.mem_values_of_get? hl, hi⟩)

theorem nodup_linksAt (h : g.links.Keyed Link.id) (p : PinId) : (g.linksAt p).Nodup := by
  have hsub : (g.linksAt p).Sublist g.links.keys := by
    rw [← h.map_values]
    exact List.filter_sublist.map _
  exact h.nodup.sublist hsub

/-- Both ends of a link exist. -/
theorem Intact.end_exists (h : g.Intact) {l : LinkId} {link : Link}
    (hl : g.links.get? l = some link) {p : PinId} (hp : link.involves p = true) :
    ∃ pin, g.pins.get? p = some pin := by
  obtain ⟨a, b, ha, hb, -⟩ := h.joined hl
  rcases Link.involves_iff.mp hp with rfl | rfl
  · exact ⟨a, ha⟩
  · exact ⟨b, hb⟩

/-- A pin that does not exist has no links. -/
theorem Intact.linksAt_eq_nil (h : g.Intact) {p : PinId} (hp : g.pins.get? p = none) :
    g.linksAt p = [] := by
  refine List.eq_nil_iff_forall_not_mem.mpr fun l hl => ?_
  obtain ⟨link, hlink, hi⟩ := (mem_linksAt_iff h.links).mp hl
  obtain ⟨pin, hpin⟩ := h.end_exists hlink hi
  rw [hp] at hpin
  cases hpin

/-- A pin is listed by no other node than its own. -/
theorem Intact.node_of_listed (h : g.Intact) {k : NodeId} {n : Node} (hn : g.nodes.get? k = some n)
    {p : PinId} (hp : p ∈ n.pins) : ∃ pin, g.pins.get? p = some pin ∧ pin.node = k := by
  obtain ⟨d, hd⟩ := Node.mem_pins_iff.mp hp
  obtain ⟨pin, hpin, hk, -⟩ := h.listed hn hd
  exact ⟨pin, hpin, hk⟩

theorem Intact.node_eq (h : g.Intact) {k : NodeId} {n : Node} (hn : g.nodes.get? k = some n)
    {p : PinId} (hp : p ∈ n.pins) {pin : Pin} (hpin : g.pins.get? p = some pin) :
    pin.node = k := by
  obtain ⟨pin', hpin', hk⟩ := h.node_of_listed hn hp
  rw [hpin] at hpin'
  cases hpin'
  exact hk

/-- Integrity is about the four tables only. -/
theorem Intact.congr (h : g.Intact) (hn : g'.nodes = g.nodes) (hp : g'.pins = g.pins)
    (hl : g'.links = g.links) (hq : g'.properties = g.properties) : g'.Intact where
  nodes := hn ▸ h.nodes
  pins := hp ▸ h.pins
  links := hl ▸ h.links
  properties := hq ▸ h.properties
  listed hk _ _ hd := by
    rw [hn] at hk
    rw [hp]
    exact h.listed hk hd
  owned hk := by
    rw [hp] at hk
    rw [hn]
    exact h.owned hk
  joined hk := by
    rw [hl] at hk
    unfold Joins
    rw [hp]
    exact h.joined hk
  entered hk := by
    rw [hp] at hk
    unfold linksAt
    rw [hl]
    exact h.entered hk
  fed hk hd := by
    rw [hp] at hk
    exact h.fed hk hd

theorem Intact.new (name : String) (registry : Registry) : (Graph.new name registry).Intact where
  nodes := .empty
  pins := .empty
  links := .empty
  properties := .empty
  listed h := by cases h
  owned h := by cases h
  joined h := by cases h
  entered h := by cases h
  fed h := by cases h

theorem Numbered.new (name : String) (registry : Registry) :
    (Graph.new name registry).Numbered where
  distinct := List.nodup_nil
  below i hi := by cases hi

end Graph

end FlowGraph
