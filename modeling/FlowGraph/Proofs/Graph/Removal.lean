import FlowGraph.Graph.Deletion
import FlowGraph.Proofs.Graph.Integrity

/-!
# What deletions come to

A deletion is written as a cascade: a node deletes its pins one by one, a pin its links, a link
takes itself off the lists of its ends.  In an intact graph every cascade comes to the same closed
form, `Graph.without`: the tables without some nodes, pins and links, which also leave the lists
they were on.  Everything about deletions is read off this form, since two of them in a row are one
again (`without_without`).
-/

namespace FlowGraph

/-- The node without some of its pins. -/
def Node.without (pins : List PinId) (n : Node) : Node :=
  { n with
    inputs := n.inputs.filter fun p => !pins.contains p
    outputs := n.outputs.filter fun p => !pins.contains p }

/-- The pin without some of its links. -/
def Pin.without (links : List LinkId) (p : Pin) : Pin :=
  { p with links := p.links.filter fun l => !links.contains l }

namespace Graph

/-- The graph without some of its nodes, pins and links. -/
def without (g : Graph) (nodes : List NodeId) (pins : List PinId) (links : List LinkId) : Graph :=
  { g with
    nodes := (g.nodes.filter fun k => !nodes.contains k).map (.without pins)
    pins := (g.pins.filter fun k => !pins.contains k).map (.without links)
    links := g.links.filter fun k => !links.contains k }

end Graph

theorem Node.pinsOf_without (pins : List PinId) (n : Node) (d : Direction) :
    (n.without pins).pinsOf d = (n.pinsOf d).filter fun p => !pins.contains p := by
  cases d <;> rfl

theorem Node.without_without (ps qs : List PinId) (n : Node) :
    (n.without ps).without qs = n.without (ps ++ qs) := by
  simp only [Node.without, List.filter_filter, List.contains_append, Bool.not_or, Bool.and_comm]

theorem Pin.without_without (ls ms : List LinkId) (p : Pin) :
    (p.without ls).without ms = p.without (ls ++ ms) := by
  simp only [Pin.without, List.filter_filter, List.contains_append, Bool.not_or, Bool.and_comm]

theorem Pin.without_idem (ls : List LinkId) (p : Pin) :
    (p.without ls).without ls = p.without ls := by
  simp only [Pin.without, List.filter_filter, Bool.and_self]

theorem Pin.disconnect_eq_without (l : LinkId) (p : Pin) : p.disconnect l = p.without [l] := by
  unfold Pin.disconnect Pin.without
  congr 1
  exact List.filter_congr fun k _ => by simp

theorem Node.detach_eq_without (p : PinId) (n : Node) : n.detach p = n.without [p] := by
  unfold Node.detach Node.without
  congr 1
  · exact List.filter_congr fun k _ => by simp
  · exact List.filter_congr fun k _ => by simp

/-- A node loses nothing when none of its pins goes. -/
theorem Node.without_eq_self {pins : List PinId} {n : Node} (h : ∀ p ∈ n.pins, p ∉ pins) :
    n.without pins = n := by
  have hkeep : ∀ ps : List PinId, (∀ p ∈ ps, p ∈ n.pins) →
      ps.filter (fun p => !pins.contains p) = ps := by
    intro ps hps
    refine List.filter_eq_self.mpr fun p hp => ?_
    simpa using h p (hps p hp)
  unfold Node.without
  rw [hkeep n.inputs fun p hp => List.mem_append_left _ hp,
    hkeep n.outputs fun p hp => List.mem_append_right _ hp]

theorem Pin.without_eq_self {links : List LinkId} {p : Pin} (h : ∀ l ∈ p.links, l ∉ links) :
    p.without links = p := by
  unfold Pin.without
  rw [List.filter_eq_self.mpr fun l hl => by simpa using h l hl]

namespace Graph

variable {g : Graph} {nodes : List NodeId} {pins : List PinId} {links : List LinkId}

theorem without_without (nodes' : List NodeId) (pins' : List PinId) (links' : List LinkId) :
    (g.without nodes pins links).without nodes' pins' links' =
      g.without (nodes ++ nodes') (pins ++ pins') (links ++ links') := by
  have hn : Node.without pins' ∘ Node.without pins = Node.without (pins ++ pins') :=
    funext fun n => n.without_without pins pins'
  have hp : Pin.without links' ∘ Pin.without links = Pin.without (links ++ links') :=
    funext fun p => p.without_without links links'
  simp only [without, Table.filter_map, Table.map_map, Table.filter_filter, hn, hp,
    List.contains_append, Bool.not_or]

/-- Only which ids are on the lists counts, not how often and in what order. -/
theorem without_congr {nodes' : List NodeId} {pins' : List PinId} {links' : List LinkId}
    (hn : ∀ k, k ∈ nodes ↔ k ∈ nodes') (hp : ∀ k, k ∈ pins ↔ k ∈ pins')
    (hl : ∀ k, k ∈ links ↔ k ∈ links') :
    g.without nodes pins links = g.without nodes' pins' links' := by
  have en : (fun k => !nodes.contains k) = fun k => !nodes'.contains k :=
    funext fun k => by simp [hn k]
  have ep : (fun k => !pins.contains k) = fun k => !pins'.contains k :=
    funext fun k => by simp [hp k]
  have el : (fun k => !links.contains k) = fun k => !links'.contains k :=
    funext fun k => by simp [hl k]
  have enode : Node.without pins = Node.without pins' := by
    funext n
    simp only [Node.without, ep]
  have epin : Pin.without links = Pin.without links' := by
    funext p
    simp only [Pin.without, el]
  simp only [without, en, ep, el, enode, epin]

/-- Nothing is lost when nothing that exists is to go. -/
theorem Intact.without_eq_self (h : g.Intact) (hn : ∀ k ∈ g.nodes.keys, k ∉ nodes)
    (hp : ∀ k ∈ g.pins.keys, k ∉ pins) (hl : ∀ k ∈ g.links.keys, k ∉ links) :
    g.without nodes pins links = g := by
  have e1 : (g.nodes.filter fun k => !nodes.contains k) = g.nodes :=
    Table.filter_eq_self fun k hk => by simpa using hn k hk
  have e2 : (g.pins.filter fun k => !pins.contains k) = g.pins :=
    Table.filter_eq_self fun k hk => by simpa using hp k hk
  have e3 : (g.links.filter fun k => !links.contains k) = g.links :=
    Table.filter_eq_self fun k hk => by simpa using hl k hk
  have e4 : g.nodes.map (.without pins) = g.nodes := by
    refine (Table.map_congr fun n hm => ?_).trans (Table.map_id _)
    refine Node.without_eq_self fun p hpm => ?_
    obtain ⟨pin, hpin, -⟩ := h.node_of_listed (h.nodes.get?_of_mem_values hm) hpm
    exact hp p (Table.mem_keys_of_get? hpin)
  have e5 : g.pins.map (.without links) = g.pins := by
    refine (Table.map_congr fun p hm => ?_).trans (Table.map_id _)
    refine Pin.without_eq_self fun l hlm => ?_
    rw [h.entered (h.pins.get?_of_mem_values hm)] at hlm
    obtain ⟨link, hlink, -⟩ := (mem_linksAt_iff h.links).mp hlm
    exact hl l (Table.mem_keys_of_get? hlink)
  unfold without
  rw [e1, e2, e3, e4, e5]

/-! ## Views of the closed form -/

theorem get?_node_without (k : NodeId) :
    (g.without nodes pins links).nodes.get? k =
      if k ∈ nodes then none else (g.nodes.get? k).map (.without pins) := by
  by_cases hk : k ∈ nodes <;> simp [without, hk]

theorem get?_pin_without (k : PinId) :
    (g.without nodes pins links).pins.get? k =
      if k ∈ pins then none else (g.pins.get? k).map (.without links) := by
  by_cases hk : k ∈ pins <;> simp [without, hk]

theorem get?_link_without (k : LinkId) :
    (g.without nodes pins links).links.get? k =
      if k ∈ links then none else g.links.get? k := by
  by_cases hk : k ∈ links <;> simp [without, hk]

/-- What is left of a node was left out of the removal, and lost only what was removed. -/
theorem node_of_without {k : NodeId} {n : Node}
    (hn : (g.without nodes pins links).nodes.get? k = some n) :
    k ∉ nodes ∧ ∃ n₀, g.nodes.get? k = some n₀ ∧ n = n₀.without pins := by
  rw [get?_node_without] at hn
  by_cases hk : k ∈ nodes
  · rw [if_pos hk] at hn
    cases hn
  · rw [if_neg hk] at hn
    obtain ⟨n₀, hn₀, rfl⟩ := Option.map_eq_some_iff.mp hn
    exact ⟨hk, n₀, hn₀, rfl⟩

theorem pin_of_without {k : PinId} {pin : Pin}
    (hp : (g.without nodes pins links).pins.get? k = some pin) :
    k ∉ pins ∧ ∃ pin₀, g.pins.get? k = some pin₀ ∧ pin = pin₀.without links := by
  rw [get?_pin_without] at hp
  by_cases hk : k ∈ pins
  · rw [if_pos hk] at hp
    cases hp
  · rw [if_neg hk] at hp
    obtain ⟨pin₀, hp₀, rfl⟩ := Option.map_eq_some_iff.mp hp
    exact ⟨hk, pin₀, hp₀, rfl⟩

theorem link_of_without {k : LinkId} {link : Link}
    (hl : (g.without nodes pins links).links.get? k = some link) :
    k ∉ links ∧ g.links.get? k = some link := by
  rw [get?_link_without] at hl
  by_cases hk : k ∈ links
  · rw [if_pos hk] at hl
    cases hl
  · rw [if_neg hk] at hl
    exact ⟨hk, hl⟩

theorem linksAt_without (h : g.links.Keyed Link.id) (p : PinId) :
    (g.without nodes pins links).linksAt p =
      (g.linksAt p).filter fun l => !links.contains l := by
  simp only [linksAt, without, h.values_filter, List.filter_map, List.filter_filter,
    Function.comp_def]
  congr 1
  exact List.filter_congr fun l _ => Bool.and_comm _ _

/-- What is left is intact when the pins of a node go with it and the links of a pin with it. -/
theorem Intact.without (h : g.Intact)
    (hpins : ∀ {p pin}, g.pins.get? p = some pin → pin.node ∈ nodes → p ∈ pins)
    (hlinks : ∀ {l link}, g.links.get? l = some link → ∀ p ∈ pins, link.involves p = true →
      l ∈ links) :
    (g.without nodes pins links).Intact where
  nodes := (h.nodes.filter _).map fun _ => rfl
  pins := (h.pins.filter _).map fun _ => rfl
  links := h.links.filter fun k => !links.contains k
  properties := h.properties
  listed {k n} hn {d p} hp := by
    obtain ⟨-, n₀, hn₀, rfl⟩ := node_of_without hn
    rw [Node.pinsOf_without] at hp
    obtain ⟨hp₀, hkeep⟩ := List.mem_filter.mp hp
    obtain ⟨pin, hpin, hnode, hd⟩ := h.listed hn₀ hp₀
    have hnp : p ∉ pins := by simpa using hkeep
    refine ⟨pin.without links, ?_, hnode, hd⟩
    rw [get?_pin_without, if_neg hnp, hpin]
    rfl
  owned {p pin} hp := by
    obtain ⟨hk, pin₀, hpin₀, rfl⟩ := pin_of_without hp
    obtain ⟨n, hn, hlist⟩ := h.owned hpin₀
    refine ⟨n.without pins, ?_, ?_⟩
    · have hnode : (pin₀.without links).node ∉ nodes := fun hm => hk (hpins hpin₀ hm)
      rw [get?_node_without, if_neg hnode]
      show (g.nodes.get? pin₀.node).map _ = _
      rw [hn]
      rfl
    · rw [Node.pinsOf_without]
      exact List.mem_filter.mpr ⟨hlist, by simpa using hk⟩
  joined {l link} hl := by
    obtain ⟨hk, hl⟩ := link_of_without hl
    obtain ⟨a, b, ha, hb, hab⟩ := h.joined hl
    have hs : link.start ∉ pins := fun hm =>
      hk (hlinks hl _ hm (Link.involves_iff.mpr (.inl rfl)))
    have hf : link.finish ∉ pins := fun hm =>
      hk (hlinks hl _ hm (Link.involves_iff.mpr (.inr rfl)))
    refine ⟨a.without links, b.without links, ?_, ?_, hab⟩
    · rw [get?_pin_without, if_neg hs, ha]
      rfl
    · rw [get?_pin_without, if_neg hf, hb]
      rfl
  entered {p pin} hp := by
    obtain ⟨-, pin₀, hpin₀, rfl⟩ := pin_of_without hp
    -- Both lists are filtered by the same links, so the order stays.
    rw [linksAt_without h.links, ← h.entered hpin₀]
    rfl
  fed {p pin} hp hd := by
    obtain ⟨-, pin₀, hpin₀, rfl⟩ := pin_of_without hp
    exact Nat.le_trans (List.length_filter_le _ _) (h.fed hpin₀ hd)

end Graph

end FlowGraph
