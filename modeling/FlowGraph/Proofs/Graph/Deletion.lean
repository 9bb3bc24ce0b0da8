import FlowGraph.Proofs.Graph.Removal

/-!
# Deletions in closed form

`deleteLink_graph`, `deletePin_graph` and `deleteNode_graph` say what each deletion leaves of an
intact graph: the graph without the entity and without what belongs to it.  They hold whether or
not the entity exists, since nothing belongs to one that does not.
-/

namespace FlowGraph.Graph

open Edit

variable {g : Graph}

/-! ## Links -/

@[simp] theorem tellDisconnected_graph (owner : NodeId) (pin : PinId) (g : Graph) :
    (tellDisconnected owner pin g).graph = g := by
  simp only [tellDisconnected, bind_graph, current_apply]
  generalize ((g.nodes.get? owner).bind fun n => n.behavior) = b
  cases b with
  | none => rfl
  | some b => cases b <;> rfl

@[simp] theorem releaseEnd_graph (link : LinkId) (pin : PinId) (g : Graph) :
    (releaseEnd link pin g).graph = { g with pins := g.pins.modify pin (·.disconnect link) } := by
  simp only [releaseEnd, bind_graph, current_apply]
  cases hp : g.pins.get? pin with
  | none =>
    rw [Table.modify_of_get?_none hp]
    rfl
  | some p => simp

theorem deleteLink_graph_of_none {id : LinkId} (h : g.links.get? id = none) :
    (deleteLink id g).graph = g := by
  simp [deleteLink, h]

theorem deleteLink_graph_of_some {id : LinkId} {link : Link} (h : g.links.get? id = some link) :
    (deleteLink id g).graph =
      { g with
        pins := (g.pins.modify link.start (·.disconnect id)).modify link.finish (·.disconnect id)
        links := g.links.erase id } := by
  simp [deleteLink, h, Link.ends]

/-- A pin that a link does not involve does not list it. -/
theorem Intact.not_mem_links (h : g.Intact) {id : LinkId} {link : Link}
    (hl : g.links.get? id = some link) {p : PinId} {pin : Pin} (hp : g.pins.get? p = some pin)
    (hi : link.involves p = false) : id ∉ pin.links := by
  intro hm
  rw [h.entered hp, mem_linksAt_iff h.links] at hm
  obtain ⟨link', hl', hi'⟩ := hm
  rw [hl] at hl'
  cases hl'
  rw [hi] at hi'
  cases hi'

/-- Taking a link off the lists of its ends takes it off all lists. -/
theorem Intact.release_ends (h : g.Intact) {id : LinkId} {link : Link}
    (hl : g.links.get? id = some link) :
    (g.pins.modify link.start (·.disconnect id)).modify link.finish (·.disconnect id) =
      g.pins.map (.without [id]) := by
  rw [(h.pins.modify link.start (f := (·.disconnect id)) fun _ => rfl).modify_eq_map,
    h.pins.modify_eq_map, Table.map_map]
  refine Table.map_congr fun pin hm => ?_
  simp only [Function.comp_apply, Pin.disconnect_eq_without]
  by_cases hs : pin.id = link.start
  · rw [if_pos hs]
    by_cases hf : (pin.without [id]).id = link.finish
    · rw [if_pos hf, Pin.without_idem]
    · rw [if_neg hf]
  · rw [if_neg hs]
    by_cases hf : pin.id = link.finish
    · rw [if_pos hf]
    · rw [if_neg hf]
      have hi : link.involves pin.id = false := by
        simp [Link.involves, Ne.symm hs, Ne.symm hf]
      have hnot := h.not_mem_links hl (h.pins.get?_of_mem_values hm) hi
      refine (Pin.without_eq_self fun l hlm hid => ?_).symm
      exact hnot (List.mem_singleton.mp hid ▸ hlm)

theorem deleteLink_graph (h : g.Intact) (id : LinkId) :
    (deleteLink id g).graph = g.without [] [] [id] := by
  cases hl : g.links.get? id with
  | none =>
    -- The closed form takes nothing away either, since no pin lists a link that is not there.
    rw [deleteLink_graph_of_none hl, h.without_eq_self (by simp) (by simp)]
    intro k hk hm
    exact Table.not_mem_keys_of_none hl (List.mem_singleton.mp hm ▸ hk)
  | some link =>
    rw [deleteLink_graph_of_some hl, h.release_ends hl]
    have hn : g.nodes.map (.without []) = g.nodes :=
      (Table.map_congr fun n _ => Node.without_eq_self (by simp)).trans (Table.map_id _)
    rw [without, Table.filter_not_nil, Table.filter_not_nil, hn, Table.filter_not_singleton]

/-- Any links may go without harm. -/
theorem Intact.without_links (h : g.Intact) (links : List LinkId) :
    (g.without [] [] links).Intact :=
  h.without (fun _ hm => absurd hm (by simp)) (fun _ p hm => absurd hm (by simp))

theorem deleteLinks_graph (h : g.Intact) (ids : List LinkId) :
    (deleteLinks ids g).graph = g.without [] [] ids := by
  rw [deleteLinks, forM_graph]
  induction ids generalizing g with
  | nil => exact (h.without_eq_self (by simp) (by simp) (by simp)).symm
  | cons id ids ih =>
    have hfirst : (discard (deleteLink id) g).graph = g.without [] [] [id] :=
      deleteLink_graph h id
    rw [List.foldl_cons, hfirst, ih (h.without_links [id]), without_without]
    rfl

/-! ## Pins -/

/-- Taking a pin off the lists of its owner takes it off all lists. -/
theorem Intact.detach_owner (h : g.Intact) {id : PinId} {pin : Pin}
    (hp : g.pins.get? id = some pin) :
    g.nodes.modify pin.node (·.detach id) = g.nodes.map (.without [id]) := by
  rw [h.nodes.modify_eq_map]
  refine Table.map_congr fun n hm => ?_
  rw [Node.detach_eq_without]
  by_cases hn : n.id = pin.node
  · rw [if_pos hn]
  · rw [if_neg hn]
    refine (Node.without_eq_self fun p hlist hid => hn ?_).symm
    rw [List.mem_singleton.mp hid] at hlist
    exact (h.node_eq (h.nodes.get?_of_mem_values hm) hlist hp).symm

/-- A pin that does not exist is nothing to lose. -/
theorem Intact.without_missing_pin (h : g.Intact) {id : PinId} (hp : g.pins.get? id = none) :
    g.without [] [id] [] = g :=
  h.without_eq_self (by simp)
    (fun _ hk hm => Table.not_mem_keys_of_none hp (List.mem_singleton.mp hm ▸ hk)) (by simp)

theorem dropPin_eq_without (h : g.Intact) (id : PinId) :
    dropPin id g = g.without [] [id] [] := by
  cases hp : g.pins.get? id with
  | none =>
    rw [h.without_missing_pin hp]
    simp only [dropPin, hp, Table.erase_of_get?_none hp]
  | some pin =>
    have hpins : (g.pins.filter fun k => !([id].contains k)).map (.without []) =
        g.pins.erase id := by
      rw [Table.filter_not_singleton]
      exact (Table.map_congr fun p _ => Pin.without_eq_self (by simp)).trans (Table.map_id _)
    simp only [dropPin, hp, h.detach_owner hp, without, Table.filter_not_nil, hpins]

theorem deletePin_graph (h : g.Intact) (id : PinId) :
    (deletePin id g).graph = g.without [] [id] (g.linksAt id) := by
  cases hp : g.pins.get? id with
  | none =>
    rw [h.linksAt_eq_nil hp, h.without_missing_pin hp]
    simp [deletePin, hp]
  | some pin =>
    -- The list of the pin is read before its links go, and it is the list of all of them.
    have hcut : (deletePin id g).graph = dropPin id (g.without [] [] pin.links) := by
      simp [deletePin, hp, deleteLinks_graph h]
    rw [hcut, h.entered hp, dropPin_eq_without (h.without_links _), without_without]
    simp

/-- The pins may go if their links go with them. -/
theorem Intact.without_pins (h : g.Intact) (pins : List PinId) :
    (g.without [] pins (pins.flatMap g.linksAt)).Intact := by
  refine h.without (fun _ hm => absurd hm (by simp)) (fun {l link} hl p hp hi => ?_)
  exact List.mem_flatMap.mpr ⟨p, hp, (mem_linksAt_iff h.links).mpr ⟨link, hl, hi⟩⟩

theorem deletePins_graph (h : g.Intact) (ids : List PinId) :
    (deletePins ids g).graph = g.without [] ids (ids.flatMap g.linksAt) := by
  rw [deletePins, forM_graph]
  induction ids generalizing g with
  | nil => exact (h.without_eq_self (by simp) (by simp) (by simp)).symm
  | cons id ids ih =>
    have hfirst : (discard (deletePin id) g).graph = g.without [] [id] (g.linksAt id) :=
      deletePin_graph h id
    have hint : (g.without [] [id] (g.linksAt id)).Intact := by
      have := h.without_pins [id]
      rwa [List.flatMap_singleton] at this
    rw [List.foldl_cons, hfirst, ih hint, without_without]
    -- A link between two of the pins is gone before the second of them asks for its links.
    refine without_congr (by simp) (by simp) fun l => ?_
    simp only [linksAt_without h.links, List.mem_append, List.mem_flatMap, List.mem_filter,
      List.flatMap_cons]
    constructor
    · rintro (hl | ⟨p, hp, hl, -⟩)
      · exact .inl hl
      · exact .inr ⟨p, hp, hl⟩
    · rintro (hl | ⟨p, hp, hl⟩)
      · exact .inl hl
      · by_cases hid : l ∈ g.linksAt id
        · exact .inl hid
        · exact .inr ⟨p, hp, hl, by simpa using hid⟩

/-! ## Nodes -/

/-- The pins that go with a node. -/
def pinsOfNode (g : Graph) (id : NodeId) : List PinId :=
  (g.nodes.get? id).elim [] Node.pins

/-- The links that go with a node. -/
def linksOfPins (g : Graph) (id : NodeId) : List LinkId :=
  (g.pinsOfNode id).flatMap g.linksAt

theorem Intact.mem_pinsOfNode (h : g.Intact) {p : PinId} {pin : Pin}
    (hp : g.pins.get? p = some pin) : p ∈ g.pinsOfNode pin.node := by
  obtain ⟨n, hn, hlist⟩ := h.owned hp
  rw [pinsOfNode, hn]
  exact Node.mem_pins_iff.mpr ⟨_, hlist⟩

/-- The links with an end on the node are those at its pins. -/
theorem mem_linksOfNode {k : NodeId} {n : Node} (hn : g.nodes.get? k = some n) {l : Link} :
    l ∈ g.linksOfNode k ↔ l ∈ g.links.values ∧ ∃ p ∈ n.pins, l.involves p = true := by
  simp only [linksOfNode, hn, Option.elim_some, List.mem_filter, List.any_eq_true]

/-- A node may go if its pins and their links go with it. -/
theorem Intact.without_node (h : g.Intact) (id : NodeId) :
    (g.without [id] (g.pinsOfNode id) (g.linksOfPins id)).Intact := by
  refine h.without (fun {p pin} hp hm => ?_) (fun {l link} hl p hp hi => ?_)
  · rw [← List.mem_singleton.mp hm]
    exact h.mem_pinsOfNode hp
  · exact List.mem_flatMap.mpr ⟨p, hp, (mem_linksAt_iff h.links).mpr ⟨link, hl, hi⟩⟩

theorem deleteNode_graph (h : g.Intact) (id : NodeId) :
    (deleteNode id g).graph = g.without [id] (g.pinsOfNode id) (g.linksOfPins id) := by
  cases hn : g.nodes.get? id with
  | none =>
    have hpins : g.pinsOfNode id = [] := by rw [pinsOfNode, hn]; rfl
    rw [linksOfPins, hpins, h.without_eq_self (fun k hk hm => ?_) (by simp) (by simp)]
    · simp [deleteNode, hn]
    · exact Table.not_mem_keys_of_none hn (List.mem_singleton.mp hm ▸ hk)
  | some n =>
    have hpins : g.pinsOfNode id = n.pins := by rw [pinsOfNode, hn]; rfl
    have herase : (deleteNode id g).graph =
        { g.without [] n.pins (n.pins.flatMap g.linksAt) with
          nodes := (g.without [] n.pins (n.pins.flatMap g.linksAt)).nodes.erase id } := by
      simp [deleteNode, hn, deletePins_graph h]
    rw [herase, linksOfPins, hpins]
    simp only [without, Table.filter_not_nil, Table.filter_not_singleton, Table.erase_eq_filter,
      Table.filter_map]

end FlowGraph.Graph
