import FlowGraph.Proofs.Announcements.Trace
import FlowGraph.Proofs.Run

/-!
# Deletions in any order

Deletions overlap: a pin goes with its node, a link with either of its pins, a property with any of
its ancestors, so one deletion may find part of its work done by another.  That their order makes no
difference is not shown pair by pair.  `Graph.Belongs` says what goes right along with what, and
each deletion takes exactly what leads up to its target by it (`Sound.delete_graph`).  What is taken
is closed under `Belongs`, so a later deletion finds all that it would have found at first but what
is gone (`goesWith_lacking`), and any number of deletions come to one removal of all that goes with
one of their targets (`deleteAll_graph`).
-/

namespace FlowGraph

open Relation (ReflTransGen)

namespace Entity

def node? : Entity → Option NodeId
  | node id => some id
  | _ => none

def pin? : Entity → Option PinId
  | pin id => some id
  | _ => none

def link? : Entity → Option LinkId
  | link id => some id
  | _ => none

def property? : Entity → Option PropertyId
  | property id => some id
  | _ => none

@[simp] theorem node?_eq_some {x : Entity} {k : NodeId} : x.node? = some k ↔ x = .node k := by
  cases x <;> simp [node?]

@[simp] theorem pin?_eq_some {x : Entity} {k : PinId} : x.pin? = some k ↔ x = .pin k := by
  cases x <;> simp [pin?]

@[simp] theorem link?_eq_some {x : Entity} {k : LinkId} : x.link? = some k ↔ x = .link k := by
  cases x <;> simp [link?]

@[simp] theorem property?_eq_some {x : Entity} {k : PropertyId} :
    x.property? = some k ↔ x = .property k := by
  cases x <;> simp [property?]

/-- Deletes it, whatever it is. -/
def delete : Entity → Edit Bool
  | node id => Graph.deleteNode id
  | pin id => Graph.deletePin id
  | link id => Graph.deleteLink id
  | property id => Graph.deleteProperty id

end Entity

theorem Behavior.unbindAll_congr {ps qs : List PropertyId} (h : ∀ p, p ∈ ps ↔ p ∈ qs)
    (b : Behavior) : b.unbindAll ps = b.unbindAll qs := by
  simp only [unbindAll, h]

namespace Graph

open Edit

/-- Performs the deletions one after the other. -/
def deleteAll (xs : List Entity) : Edit Unit := xs.forM fun x => discard x.delete

/-- `y` goes right along with `x`: a pin with its node, a link with a pin that it involves, a
    property with its parent. -/
inductive Belongs (g : Graph) : Entity → Entity → Prop where
  | pin {p : PinId} {k : NodeId} (h : p ∈ g.pinsOfNode k) : Belongs g (.pin p) (.node k)
  | link {l : LinkId} {p : PinId} (h : l ∈ g.linksAt p) : Belongs g (.link l) (.pin p)
  | property {a b : PropertyId} (h : g.ChildOf a b) : Belongs g (.property a) (.property b)

/-- `y` is there, and it is `x` or goes along with it in the end. -/
def GoesWith (g : Graph) (y x : Entity) : Prop := g.Has y ∧ ReflTransGen g.Belongs y x

/-- The graph without some of its entities, which also leave the lists and bindings they were in. -/
def lacking (g : Graph) (gone : List Entity) : Graph :=
  (g.without (gone.filterMap Entity.node?) (gone.filterMap Entity.pin?)
    (gone.filterMap Entity.link?)).withoutProperties (gone.filterMap Entity.property?)

variable {g : Graph} {gone gone' : List Entity}

/-! ## Removals in a row -/

theorem withoutProperties_without (ps : List PropertyId) (nodes : List NodeId) (pins : List PinId)
    (links : List LinkId) :
    (g.withoutProperties ps).without nodes pins links =
      (g.without nodes pins links).withoutProperties ps := by
  have hn : Node.without pins ∘ Node.unbindAll ps = Node.unbindAll ps ∘ Node.without pins := rfl
  simp only [without, withoutProperties, Table.filter_map, Table.map_map, hn]

theorem lacking_lacking : (g.lacking gone).lacking gone' = g.lacking (gone ++ gone') := by
  simp only [lacking, withoutProperties_without, without_without,
    withoutProperties_withoutProperties, List.filterMap_append]

theorem withoutProperties_congr {ps qs : List PropertyId} (h : ∀ p, p ∈ ps ↔ p ∈ qs) :
    g.withoutProperties ps = g.withoutProperties qs := by
  have hnode : Node.unbindAll ps = Node.unbindAll qs := by
    funext n
    simp only [Node.unbindAll, Behavior.unbindAll_congr h]
  have hkeep : (fun k => !ps.contains k) = fun k => !qs.contains k :=
    funext fun k => by simp [h k]
  simp only [withoutProperties, hnode, hkeep]

/-- Only what is gone counts, not how often and in what order it went. -/
theorem lacking_congr (h : ∀ x, x ∈ gone ↔ x ∈ gone') : g.lacking gone = g.lacking gone' := by
  rw [lacking, lacking, without_congr, withoutProperties_congr]
  all_goals
    intro k
    simp [List.mem_filterMap, h]

theorem Sound.lacking_nil (h : g.Sound) : g.lacking [] = g :=
  (withoutProperties_nil _).trans (h.intact.without_eq_self (by simp) (by simp) (by simp))

theorem lacking_without (nodes : List NodeId) (pins : List PinId) (links : List LinkId) :
    g.lacking (nodes.map .node ++ pins.map .pin ++ links.map .link) =
      g.without nodes pins links := by
  simp only [lacking, List.filterMap_append, List.filterMap_map, Function.comp_def, Entity.node?,
    Entity.pin?, Entity.link?, Entity.property?, List.filterMap_some, List.filterMap_none,
    List.nil_append, List.append_nil, withoutProperties_nil]

theorem Sound.lacking_properties (h : g.Sound) (ps : List PropertyId) :
    g.lacking (ps.map .property) = g.withoutProperties ps := by
  simp only [lacking, List.filterMap_map, Function.comp_def, Entity.node?, Entity.pin?,
    Entity.link?, Entity.property?, List.filterMap_some, List.filterMap_none]
  rw [h.intact.without_eq_self (by simp) (by simp) (by simp)]

/-! ## What a removal leaves -/

theorem has_lacking {x : Entity} : (g.lacking gone).Has x ↔ g.Has x ∧ x ∉ gone := by
  cases x <;> simp [Has, lacking, withoutProperties, without, List.mem_filter]

theorem mem_pinsOfNode {p : PinId} {k : NodeId} :
    p ∈ g.pinsOfNode k ↔ ∃ n, g.nodes.get? k = some n ∧ p ∈ n.pins := by
  rw [pinsOfNode]
  cases g.nodes.get? k <;> simp

theorem mem_pinsOfNode_lacking {p : PinId} {k : NodeId} :
    p ∈ (g.lacking gone).pinsOfNode k ↔
      p ∈ g.pinsOfNode k ∧ .node k ∉ gone ∧ .pin p ∉ gone := by
  have hpins : ∀ (n : Node) ps qs, p ∈ ((n.without ps).unbindAll qs).pins ↔ p ∈ n.pins ∧ p ∉ ps := by
    intro n ps qs
    simp [Node.pins, Node.without, Node.unbindAll, or_and_right]
  simp only [mem_pinsOfNode, lacking, withoutProperties, Table.get?_map, get?_node_without]
  by_cases hk : Entity.node k ∈ gone
  · simp [hk]
  · cases g.nodes.get? k <;> simp [hk, hpins]

theorem mem_linksAt_lacking (h : g.Intact) {l : LinkId} {p : PinId} :
    l ∈ (g.lacking gone).linksAt p ↔ l ∈ g.linksAt p ∧ .link l ∉ gone := by
  have hlinks : (g.lacking gone).linksAt p =
      (g.without (gone.filterMap Entity.node?) (gone.filterMap Entity.pin?)
        (gone.filterMap Entity.link?)).linksAt p := rfl
  rw [hlinks, linksAt_without h.links]
  simp

theorem childOf_lacking {a b : PropertyId} :
    (g.lacking gone).ChildOf a b ↔ g.ChildOf a b ∧ .property a ∉ gone := by
  by_cases ha : Entity.property a ∈ gone <;>
    simp [ChildOf, lacking, withoutProperties, without, ha]

/-- All that belongs to what goes goes too. -/
def Closed (g : Graph) (gone : List Entity) : Prop :=
  ∀ {y x}, g.Belongs y x → x ∈ gone → y ∈ gone

theorem belongs_lacking (h : g.Intact) (hgone : g.Closed gone) {y x : Entity} :
    (g.lacking gone).Belongs y x ↔ g.Belongs y x ∧ y ∉ gone := by
  constructor
  · rintro (hp | hl | hc)
    · obtain ⟨hp, -, hnot⟩ := mem_pinsOfNode_lacking.mp hp
      exact ⟨.pin hp, hnot⟩
    · obtain ⟨hl, hnot⟩ := (mem_linksAt_lacking h).mp hl
      exact ⟨.link hl, hnot⟩
    · obtain ⟨hc, hnot⟩ := childOf_lacking.mp hc
      exact ⟨.property hc, hnot⟩
  · rintro ⟨hp | hl | hc, hnot⟩
    · exact .pin (mem_pinsOfNode_lacking.mpr ⟨hp, fun hk => hnot (hgone (.pin hp) hk), hnot⟩)
    · exact .link ((mem_linksAt_lacking h).mpr ⟨hl, hnot⟩)
    · exact .property (childOf_lacking.mpr ⟨hc, hnot⟩)

/-- What goes along with something once others are gone is what would have gone along with it at
    first, but for them. -/
theorem goesWith_lacking (h : g.Intact) (hgone : g.Closed gone) {y x : Entity} :
    (g.lacking gone).GoesWith y x ↔ g.GoesWith y x ∧ y ∉ gone := by
  constructor
  · rintro ⟨hy, hyx⟩
    obtain ⟨hy, hnot⟩ := has_lacking.mp hy
    exact ⟨⟨hy, hyx.lift id fun _ _ hab => ((belongs_lacking h hgone).mp hab).1⟩, hnot⟩
  · rintro ⟨⟨hy, hyx⟩, hnot⟩
    refine ⟨has_lacking.mpr ⟨hy, hnot⟩, ?_⟩
    clear hy
    -- Nothing on the way up is gone, or all below it were.
    induction hyx using ReflTransGen.head_induction_on with
    | refl => exact .refl
    | head hab _ ih =>
      exact .head ((belongs_lacking h hgone).mpr ⟨hab, hnot⟩) (ih fun hb => hnot (hgone hab hb))

theorem Sound.lacking (h : g.Sound) (hgone : g.Closed gone) : (g.lacking gone).Sound := by
  refine Sound.withoutProperties (h.without (h.intact.without ?_ ?_)) ?_
  · intro p pin hp hk
    simp only [List.mem_filterMap, Entity.node?_eq_some, Entity.pin?_eq_some,
      exists_eq_right] at hk ⊢
    exact hgone (.pin (h.intact.mem_pinsOfNode hp)) hk
  · intro l link hl p hp hi
    simp only [List.mem_filterMap, Entity.pin?_eq_some, Entity.link?_eq_some,
      exists_eq_right] at hp ⊢
    exact hgone (.link ((mem_linksAt_iff h.intact.links).mpr ⟨link, hl, hi⟩)) hp
  · intro a b hab hb
    simp only [List.mem_filterMap, Entity.property?_eq_some, exists_eq_right] at hb ⊢
    exact hgone (.property hab) hb

/-! ## What goes with each entity -/

theorem under_link {y : Entity} {l : LinkId} :
    ReflTransGen g.Belongs y (.link l) ↔ y = .link l := by
  refine ⟨fun h => ?_, fun h => h ▸ .refl⟩
  rcases ReflTransGen.cases_tail h with h | ⟨_, -, h⟩
  · exact h.symm
  · cases h

theorem under_pin {y : Entity} {p : PinId} :
    ReflTransGen g.Belongs y (.pin p) ↔ y = .pin p ∨ ∃ l ∈ g.linksAt p, y = .link l := by
  rw [ReflTransGen.cases_tail_iff]
  constructor
  · rintro (h | ⟨_, h, ⟨⟩⟩)
    · exact .inl h.symm
    · exact .inr ⟨_, ‹_›, under_link.mp h⟩
  · rintro (h | ⟨l, hl, h⟩)
    · exact .inl h.symm
    · exact .inr ⟨.link l, under_link.mpr h, .link hl⟩

theorem under_node {y : Entity} {k : NodeId} :
    ReflTransGen g.Belongs y (.node k) ↔
      y = .node k ∨ (∃ p ∈ g.pinsOfNode k, y = .pin p) ∨ ∃ l ∈ g.linksOfPins k, y = .link l := by
  rw [ReflTransGen.cases_tail_iff]
  simp only [linksOfPins, List.mem_flatMap]
  constructor
  · rintro (h | ⟨_, h, ⟨⟩⟩)
    · exact .inl h.symm
    · rcases under_pin.mp h with h | ⟨l, hl, h⟩
      · exact .inr (.inl ⟨_, ‹_›, h⟩)
      · exact .inr (.inr ⟨l, ⟨_, ‹_›, hl⟩, h⟩)
  · rintro (h | ⟨p, hp, h⟩ | ⟨l, ⟨p, hp, hl⟩, h⟩)
    · exact .inl h.symm
    · exact .inr ⟨.pin p, under_pin.mpr (.inl h), .pin hp⟩
    · exact .inr ⟨.pin p, under_pin.mpr (.inr ⟨l, hl, h⟩), .pin hp⟩

theorem under_property {y : Entity} {q : PropertyId} :
    ReflTransGen g.Belongs y (.property q) ↔
      ∃ a, ReflTransGen g.ChildOf a q ∧ y = .property a := by
  constructor
  · intro h
    induction h using ReflTransGen.head_induction_on with
    | refl => exact ⟨q, .refl, rfl⟩
    | head hab _ ih =>
      obtain ⟨b, hb, rfl⟩ := ih
      cases hab with
      | property hab => exact ⟨_, .head hab hb, rfl⟩
  · rintro ⟨a, ha, rfl⟩
    exact ha.lift Entity.property fun _ _ hab => .property hab

/-- Only what is there belongs to something, and only to what is there. -/
theorem Sound.has_of_belongs (h : g.Sound) {y x : Entity} (hyx : g.Belongs y x) :
    g.Has y ∧ g.Has x := by
  cases hyx with
  | pin hp =>
    obtain ⟨n, hn, hp⟩ := mem_pinsOfNode.mp hp
    obtain ⟨pin, hpin, -⟩ := h.intact.node_of_listed hn hp
    exact ⟨Table.mem_keys_of_get? hpin, Table.mem_keys_of_get? hn⟩
  | link hl =>
    obtain ⟨link, hlink, hinv⟩ := (mem_linksAt_iff h.intact.links).mp hl
    refine ⟨Table.mem_keys_of_get? hlink, ?_⟩
    by_contra hnone
    rw [h.intact.linksAt_eq_nil (Table.get?_eq_none hnone)] at hl
    cases hl
  | property hc => exact ⟨hc.mem_keys, h.grouped.parents hc⟩

theorem Sound.goesWith_iff (h : g.Sound) {y x : Entity} :
    g.GoesWith y x ↔ g.Has x ∧ ReflTransGen g.Belongs y x := by
  refine ⟨fun ⟨hy, hyx⟩ => ⟨?_, hyx⟩, fun ⟨hx, hyx⟩ => ⟨?_, hyx⟩⟩
  · rcases ReflTransGen.cases_tail hyx with rfl | ⟨_, -, hlast⟩
    · exact hy
    · exact (h.has_of_belongs hlast).2
  · rcases ReflTransGen.cases_head hyx with rfl | ⟨_, hfirst, -⟩
    · exact hx
    · exact (h.has_of_belongs hfirst).1

theorem delete_missing {x : Entity} (h : ¬ g.Has x) : (x.delete g).graph = g := by
  cases x with
  | node k => simp [Entity.delete, deleteNode, Table.get?_eq_none h]
  | pin p => simp [Entity.delete, deletePin, Table.get?_eq_none h]
  | link l => simp [Entity.delete, deleteLink, Table.get?_eq_none h]
  | property q => rw [Entity.delete, deleteProperty_of_not_mem h]

/-- A deletion takes all that goes with its target, and nothing else. -/
theorem Sound.delete_graph (h : g.Sound) (x : Entity) :
    ∃ gone, (∀ y, y ∈ gone ↔ g.GoesWith y x) ∧ (x.delete g).graph = g.lacking gone := by
  by_cases hx : g.Has x
  · simp only [h.goesWith_iff, hx, true_and]
    cases x with
    | link l =>
      refine ⟨[].map .node ++ [].map .pin ++ [l].map .link, fun y => ?_, ?_⟩
      · simp [under_link]
      · rw [lacking_without]
        exact deleteLink_graph h.intact l
    | pin p =>
      refine ⟨[].map .node ++ [p].map .pin ++ (g.linksAt p).map .link, fun y => ?_, ?_⟩
      · simp [under_pin, eq_comm]
      · rw [lacking_without]
        exact deletePin_graph h.intact p
    | node k =>
      refine ⟨[k].map .node ++ (g.pinsOfNode k).map .pin ++ (g.linksOfPins k).map .link,
        fun y => ?_, ?_⟩
      · simp [under_node, eq_comm]
      · rw [lacking_without]
        exact deleteNode_graph h.intact k
    | property q =>
      refine ⟨(g.subtree q).reverse.map .property, fun y => ?_, ?_⟩
      · simp [under_property, mem_subtree h.intact.properties hx, eq_comm]
      · rw [h.lacking_properties]
        exact deleteProperty_graph h.intact.nodes.nodup hx
  · refine ⟨[], fun y => ⟨nofun, fun hy => absurd (h.goesWith_iff.mp hy).1 hx⟩, ?_⟩
    rw [delete_missing hx, h.lacking_nil]

/-! ## Any number of deletions -/

/-- What goes with some targets is closed. -/
theorem Sound.closed (h : g.Sound) {xs : List Entity}
    (hgone : ∀ y, y ∈ gone ↔ ∃ x ∈ xs, g.GoesWith y x) : g.Closed gone := by
  intro z y hzy hy
  obtain ⟨x, hx, -, hyx⟩ := (hgone y).mp hy
  exact (hgone z).mpr ⟨x, hx, (h.has_of_belongs hzy).1, .head hzy hyx⟩

/-- However many deletions there are, they take what goes with one of their targets. -/
theorem Sound.deleteAll_graph (xs : List Entity) :
    ∀ {g : Graph}, g.Sound →
      ∃ gone, (∀ y, y ∈ gone ↔ ∃ x ∈ xs, g.GoesWith y x) ∧
        (deleteAll xs g).graph = g.lacking gone := by
  induction xs with
  | nil => exact fun h => ⟨[], by simp, h.lacking_nil.symm⟩
  | cons x xs ih =>
    intro g h
    obtain ⟨first, hfirst, hx⟩ := h.delete_graph x
    have hone : ∀ y, y ∈ first ↔ ∃ z ∈ [x], g.GoesWith y z := by simpa using hfirst
    have hclosed : g.Closed first := h.closed hone
    obtain ⟨rest, hrest, hxs⟩ := ih (h.lacking hclosed)
    refine ⟨first ++ rest, fun y => ?_, ?_⟩
    · simp only [List.mem_append, hfirst, hrest, goesWith_lacking h.intact hclosed,
        List.exists_mem_cons_iff]
      by_cases hy : g.GoesWith y x <;> simp [hy]
    · rw [← lacking_lacking, ← hxs, ← hx]
      rfl

/-- Two deletions come to the same graph in either order, the order of its tables and lists, its
    bindings, values and counter included, and what any number of deletions comes to depends on
    their targets alone. -/
theorem deletions_commute {start : Graph} (hs : start.Starts) (h : start.Reaches g) :
    (∀ x y : Entity, (y.delete (x.delete g).graph).graph = (x.delete (y.delete g).graph).graph) ∧
    ∀ xs ys : List Entity, (∀ x, x ∈ xs ↔ x ∈ ys) →
      (deleteAll xs g).graph = (deleteAll ys g).graph := by
  have hset : ∀ xs ys : List Entity, (∀ x, x ∈ xs ↔ x ∈ ys) →
      (deleteAll xs g).graph = (deleteAll ys g).graph := by
    intro xs ys hsame
    obtain ⟨gone, hgone, hxs⟩ := (h.sound hs).deleteAll_graph xs
    obtain ⟨gone', hgone', hys⟩ := (h.sound hs).deleteAll_graph ys
    rw [hxs, hys]
    exact lacking_congr fun y => by simp only [hgone, hgone', hsame]
  exact ⟨fun x y => hset [x, y] [y, x] (by simp [or_comm]), hset⟩

/-- A log node that follows a variable and shows it, which is bound to a property in a group. -/
def nested : Graph :=
  (Command.performAll
    [.createProperty "car" (.float 0) none, .createProperty "speed" (.float 0) (some ⟨1⟩),
      .addNode (.setVariable (some ⟨2⟩)), .addNode (.logValue "speed"), .createLink ⟨5⟩ ⟨9⟩,
      .createLink ⟨7⟩ ⟨11⟩] (Graph.new "nested" .builtin)).graph

/-- One link goes with any of three targets and the binding with either property. -/
theorem nested_comes_apart_either_way :
    ((Entity.property ⟨1⟩).delete ((Entity.node ⟨3⟩).delete nested).graph).graph =
      ((Entity.node ⟨3⟩).delete ((Entity.property ⟨1⟩).delete nested).graph).graph ∧
    (deleteAll [.property ⟨1⟩, .pin ⟨11⟩, .link ⟨14⟩, .pin ⟨7⟩, .node ⟨99⟩, .property ⟨2⟩]
        nested).graph =
      (deleteAll [.property ⟨2⟩, .link ⟨14⟩, .pin ⟨7⟩, .property ⟨1⟩, .node ⟨99⟩, .pin ⟨11⟩]
        nested).graph ∧
    ((deleteAll [.property ⟨1⟩, .pin ⟨11⟩] nested).graph.nodes.get? ⟨3⟩).bind (·.behavior) =
      some (.setVariable none) ∧
    (deleteAll [.property ⟨1⟩, .pin ⟨11⟩] nested).graph.links.keys = [⟨13⟩] := by
  obtain ⟨hpair, hset⟩ := deletions_commute (.new _ _) (g := nested)
    ⟨⟨_, rfl⟩, by decide +kernel⟩
  refine ⟨hpair _ _, hset _ _ fun x => ?_, rfl, by decide +kernel⟩
  simp only [List.mem_cons, List.not_mem_nil, or_false]
  tauto

end Graph

end FlowGraph
