import FlowGraph.Proofs.Announcements.Edits
import FlowGraph.Proofs.Bindings

/-!
# What goes with a property

Deleting a property takes along what is grouped under it, children before their parents, and drops
the bindings to all of it (`Graph.TakesSubtree`).  Which properties go is said by the way up: those
from which it leads to the deleted one.  This does not depend on what the parents are.  They form no
cycle in a graph that operations have made, and there the order of the announcements follows from
it; but the deletion comes to its end and takes the same properties whatever they are
(`Graph.regrouped`).
-/

namespace FlowGraph.Graph

/-- What deleting a property does; `removed` are the properties that go, in the order in which they
    do. -/
structure TakesSubtree (g : Graph) (root : PropertyId) (removed : List PropertyId) : Prop where
  answer : (deleteProperty root g).answer = true
  /-- The walk that finds them comes to its end. -/
  walk : g.Walks [root] [root] removed.reverse
  members : ∀ p, p ∈ removed ↔ Relation.ReflTransGen g.ChildOf p root
  once : removed.Nodup
  last : removed.getLast? = some root
  announced : (heard (deleteProperty root g).reports).map Prod.fst = removed.map .propertyDeleted
  /-- The other properties stay as they are and where they are, and so does all else but the
      behaviors that are bound to one that goes. -/
  graph : (deleteProperty root g).graph =
    { g with
      nodes := g.nodes.map (.unbindAll removed)
      properties := g.properties.filter fun p => !removed.contains p }
  bindings : ∀ k p, (deleteProperty root g).graph.boundTo k = some p ↔
    g.boundTo k = some p ∧ p ∉ removed

/-- The graph with other parents, whatever they are. -/
def regrouped (g : Graph) (parent : PropertyId → Option PropertyId) : Graph :=
  { g with properties := g.properties.map fun p => { p with parent := parent p.id } }

variable {g : Graph} {root : PropertyId}

theorem takesSubtree (hprops : g.properties.Keyed Property.id) (hnodes : g.nodes.keys.Nodup)
    (hroot : root ∈ g.properties.keys) : g.TakesSubtree root (g.subtree root).reverse where
  answer := by rw [deleteProperty_of_mem hroot, Edit.bind_answer, Edit.pure_apply]
  walk := by
    rw [List.reverse_reverse]
    exact walks_subtree hprops hroot
  members p := by rw [List.mem_reverse, mem_subtree hprops hroot]
  once := List.nodup_reverse.mpr (descended_subtree hprops hroot).nodup
  last := by
    obtain ⟨rest, hrest⟩ := (walks_subtree hprops hroot).isPrefix
    rw [← hrest, List.getLast?_reverse]
    rfl
  announced := by
    rw [deleteProperty_of_mem hroot, Edit.bind_reports, Edit.pure_apply, List.append_nil,
      heard_dropProperties]
  graph := deleteProperty_graph hnodes hroot
  bindings k p := by rw [deleteProperty_graph hnodes hroot, boundTo_withoutProperties]

/-- Deleting a property takes the properties from which the way up leads to it, each announced once
    and before all of its ancestors, and the bindings to them, and nothing else.  It would take them
    too if the parents were any function, with cycles or without. -/
theorem deletion_takes_one_subtree {start : Graph} (hs : start.Starts) (h : start.Reaches g)
    (hroot : root ∈ g.properties.keys) :
    (∃ removed, g.TakesSubtree root removed ∧
      removed.Pairwise fun p q => ¬ Relation.TransGen g.ChildOf q p) ∧
    ∀ parent, ∃ removed, (g.regrouped parent).TakesSubtree root removed := by
  have hsound := h.sound hs
  have hprops := hsound.intact.properties
  have hnodes := hsound.intact.nodes.nodup
  refine ⟨⟨_, takesSubtree hprops hnodes hroot, ?_⟩, fun parent => ⟨_, takesSubtree ?_ hnodes ?_⟩⟩
  · rw [List.pairwise_reverse]
    exact (descended_subtree hprops hroot).order hsound.grouped
  · exact hprops.map (f := fun p => { p with parent := parent p.id }) fun _ => rfl
  · rwa [regrouped, Table.keys_map]

/-- Three properties below each other and one on its own, two of them bound. -/
def family : Graph :=
  (Command.performAll
    [.createProperty "a" (.int 0) none, .createProperty "b" (.int 0) (some ⟨1⟩),
      .createProperty "c" (.int 0) (some ⟨2⟩), .createProperty "other" (.int 0) none,
      .addNode (.getVariable (some ⟨3⟩)), .addNode (.getVariable (some ⟨4⟩))]
    (Graph.new "family" .builtin)).graph

/-- The first three properties in a circle, every other its own parent. -/
def circle : PropertyId → Option PropertyId
  | ⟨1⟩ => some ⟨3⟩
  | ⟨2⟩ => some ⟨1⟩
  | ⟨3⟩ => some ⟨2⟩
  | p => some p

theorem family_goes_together :
    ⟨2⟩ ∈ family.properties.keys ∧
      (∃ removed, family.TakesSubtree ⟨2⟩ removed) ∧
      (∃ removed, (family.regrouped circle).TakesSubtree ⟨2⟩ removed) ∧
      (family.subtree ⟨2⟩).reverse = [⟨3⟩, ⟨2⟩] ∧
      ((family.regrouped circle).subtree ⟨2⟩).reverse = [⟨1⟩, ⟨3⟩, ⟨2⟩] ∧
      (deleteProperty ⟨2⟩ family).graph.nodes.values.map Node.bound = [none, some ⟨4⟩] := by
  have hkey : ⟨2⟩ ∈ family.properties.keys := by decide +kernel
  obtain ⟨⟨removed, htakes, -⟩, hcircle⟩ :=
    deletion_takes_one_subtree (.new _ _) (g := family) ⟨⟨_, rfl⟩, by decide +kernel⟩ hkey
  refine ⟨hkey, ⟨removed, htakes⟩, hcircle circle, ?_, ?_, ?_⟩
  all_goals decide +kernel

end FlowGraph.Graph
