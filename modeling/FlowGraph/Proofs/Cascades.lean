import FlowGraph.Proofs.Run

/-!
# What a deletion takes along

A deletion works on lists that it copies before it begins: a node the list of its pins, a pin the
list of its links.  `deletions_take_what_belongs` compares what is left with what the graph itself
says before the deletion, where the links of a node are found by a walk over the link table.  A link
between two pins of the deleted node is on both of their lists and is deleted once.

A pin that stays loses the removed links from its list (`Graph.withoutLinks`), and the owner of a
removed pin loses the pin.  That is all that a deletion changes about what it leaves.
-/

namespace FlowGraph.Graph

open Edit

/-- The graph without some links, which no pin lists any more. -/
def withoutLinks (g : Graph) (links : List LinkId) : Graph :=
  { g with
    pins := g.pins.map (.without links)
    links := g.links.filter fun l => !links.contains l }

variable {g : Graph}

/-! ## Links -/

/-- A node that stays loses none of its pins when all pins that go are of nodes that go. -/
theorem Intact.without_nodes (h : g.Intact) (nodes : List NodeId) (pins : List PinId)
    (hpins : ∀ {p pin}, g.pins.get? p = some pin → p ∈ pins → pin.node ∈ nodes) :
    (g.nodes.filter fun k => !nodes.contains k).map (.without pins) =
      g.nodes.filter fun k => !nodes.contains k := by
  refine (Table.map_congr fun n hm => Node.without_eq_self fun p hlist hp => ?_).trans
    (Table.map_id _)
  have hn := (h.nodes.filter _).get?_of_mem_values hm
  obtain ⟨hn, hstays⟩ := Table.get?_filter_eq_some.mp hn
  obtain ⟨pin, hpin, hnode⟩ := h.node_of_listed hn hlist
  have hgoes := hpins hpin hp
  rw [hnode] at hgoes
  simp [hgoes] at hstays

theorem Intact.without_links_eq (h : g.Intact) (links : List LinkId) :
    g.without [] [] links = g.withoutLinks links := by
  have hnodes := h.without_nodes [] [] (by simp)
  rw [Table.filter_not_nil] at hnodes
  simp only [Graph.without, withoutLinks, Table.filter_not_nil, hnodes]

theorem Intact.deleteLinks_takes (h : g.Intact) (ids : List LinkId) :
    (deleteLinks ids g).graph = g.withoutLinks ids := by
  rw [deleteLinks_graph h, h.without_links_eq]

/-! ## Pins -/

end FlowGraph.Graph
