import FlowGraph.Proofs.Graph.Frame
import FlowGraph.Proofs.Graph.Properties

/-!
# Numbers and what they are given to

Two accounts are kept of an operation.  One is of the numbers it asks for, in the order in which it
asks for them (`Edit.Issues`).  The other is of the tables: entities are dropped or changed where
they stand, and each new one comes under the number that the counter has just given out
(`Graph.Evolves`).  Both are read off the way an operation is put together, so they hold of every
graph whatever its counter is.

As long as the counter has room, the numbers given out are those from the counter on, one after the
other, and every table has what is left of its old keys in front and the new ones behind, in the
order of their numbers (`Graph.Evolves.grows`).
-/

namespace FlowGraph

/-! ## Numbers that are asked for -/

/-- The edit asks for these numbers when it is done on the graph.  An edit that leaves the counter
    alone on every graph asks for none. -/
inductive Edit.Issues : {α : Type} → Edit α → Graph → List Nat → Prop where
  | none {α : Type} {e : Edit α} {g : Graph} (h : ∀ g, (e g).graph.nextId = g.nextId) :
      Issues e g []
  | allocate {g : Graph} : Issues Edit.allocate g [g.nextId]
  | bind {α β : Type} {m : Edit α} {f : α → Edit β} {g : Graph} {first later : List Nat}
      (hm : Issues m g first) (hf : Issues (f (m g).answer) (m g).graph later) :
      Issues (m >>= f) g (first ++ later)

namespace Graph

/-! ## Tables -/

variable {g g' g'' : Graph}

/-- The counter stands where it stood, and no table has a new key. -/
structure Shrinks (g g' : Graph) : Prop where
  nextId : g'.nextId = g.nextId
  nodes : g'.nodes.keys.Sublist g.nodes.keys
  pins : g'.pins.keys.Sublist g.pins.keys
  links : g'.links.keys.Sublist g.links.keys
  properties : g'.properties.keys.Sublist g.properties.keys

theorem Shrinks.refl (g : Graph) : g.Shrinks g := ⟨rfl, .refl _, .refl _, .refl _, .refl _⟩

theorem Shrinks.trans (h : g.Shrinks g') (h' : g'.Shrinks g'') : g.Shrinks g'' where
  nextId := h'.nextId.trans h.nextId
  nodes := h'.nodes.trans h.nodes
  pins := h'.pins.trans h.pins
  links := h'.links.trans h.links
  properties := h'.properties.trans h.properties

/-- The counter and the keys of the tables. -/
def inventory (g : Graph) :
    Nat × List NodeId × List PinId × List LinkId × List PropertyId :=
  (g.nextId, g.nodes.keys, g.pins.keys, g.links.keys, g.properties.keys)

theorem Shrinks.of_inventory (h : g'.inventory = g.inventory) : g.Shrinks g' := by
  simp only [inventory, Prod.mk.injEq] at h
  obtain ⟨hnext, hnodes, hpins, hlinks, hproperties⟩ := h
  exact ⟨hnext, hnodes ▸ .refl _, hpins ▸ .refl _, hlinks ▸ .refl _, hproperties ▸ .refl _⟩

/-- What becomes of a graph while these numbers are given out. -/
inductive Evolves : Graph → Graph → List Nat → Prop where
  | shrinks {g g' : Graph} (h : g.Shrinks g') : Evolves g g' []
  | counted (g : Graph) : Evolves g g.counted [g.nextId]
  | withNode (g : Graph) (n : Node) : Evolves g (g.withNode n) [g.nextId]
  | withPin (g : Graph) (node : NodeId) (spec : PinSpec) :
      Evolves g (g.withPin node spec) [g.nextId]
  | withLink (g : Graph) (a b : PinId) : Evolves g (g.withLink a b) [g.nextId]
  | withProperty (g : Graph) (name : String) (v : Value) (parent : Option PropertyId) :
      Evolves g (g.withProperty name v parent) [g.nextId]
  | trans {g g' g'' : Graph} {first later : List Nat} (h : Evolves g g' first)
      (h' : Evolves g' g'' later) : Evolves g g'' (first ++ later)

end Graph

namespace Edit

variable {α β : Type}

/-- The edit only ever drops or changes what is there. -/
def Shrinks (e : Edit α) : Prop := ∀ g : Graph, g.Shrinks (e g).graph

theorem Shrinks.pure (a : α) : Shrinks (pure a : Edit α) := fun g => .refl g

theorem Shrinks.current : Shrinks current := fun g => .refl g

theorem Shrinks.report (r : Report) : Shrinks (report r) := fun g => .refl g

theorem Shrinks.announce (event : Event) : Shrinks (announce event) := fun g => .refl g

theorem Shrinks.bind {m : Edit α} {f : α → Edit β} (hm : Shrinks m) (hf : ∀ a, Shrinks (f a)) :
    Shrinks (m >>= f) := fun g => (hm g).trans (hf _ _)

theorem Shrinks.discard {m : Edit α} (hm : Shrinks m) : Shrinks (discard m) := fun g => hm g

theorem Shrinks.forM {f : α → Edit Unit} (h : ∀ x, Shrinks (f x)) (xs : List α) :
    Shrinks (xs.forM f) := by
  induction xs with
  | nil => exact .pure ()
  | cons x xs ih => exact (h x).bind fun _ => ih

/-- Both accounts of an edit of the graph. -/
structure Books (e : Edit α) (g : Graph) (issued : List Nat) : Prop where
  issues : e.Issues g issued
  evolves : g.Evolves (e g).graph issued

/-- The edit has its accounts on every graph. -/
def Booked (e : Edit α) : Prop := ∀ g, ∃ issued, e.Books g issued

theorem Shrinks.booked {e : Edit α} (h : Shrinks e) : Booked e :=
  fun g => ⟨[], .none fun g => (h g).nextId, .shrinks (h g)⟩

theorem Booked.pure (a : α) : Booked (pure a : Edit α) := (Shrinks.pure a).booked

/-- Only numbers that are asked for move the counter. -/
theorem Issues.counts {e : Edit α} {g : Graph} {issued : List Nat} (h : e.Issues g issued) :
    (e g).graph.nextId < lastNumber → g.nextId ≤ (e g).graph.nextId := by
  induction h with
  | none h => exact fun _ => Nat.le_of_eq (h _).symm
  | allocate => exact Graph.le_counted
  | bind _ _ ih ih' =>
    intro hlast
    have hlater := ih' hlast
    exact Nat.le_trans (ih (Nat.lt_of_le_of_lt hlater hlast)) hlater

theorem Booked.counts {e : Edit α} (h : Booked e) : Counts e := by
  intro g
  obtain ⟨issued, hbooks⟩ := h g
  exact hbooks.issues.counts

theorem Booked.current : Booked current := Shrinks.current.booked

theorem Booked.bind {m : Edit α} {f : α → Edit β} (hm : Booked m) (hf : ∀ a, Booked (f a)) :
    Booked (m >>= f) := by
  intro g
  obtain ⟨first, hfirst⟩ := hm g
  obtain ⟨later, hlater⟩ := hf (m g).answer (m g).graph
  exact ⟨first ++ later, .bind hfirst.issues hlater.issues, hfirst.evolves.trans hlater.evolves⟩

theorem Booked.discard {m : Edit α} (hm : Booked m) : Booked (discard m) :=
  hm.bind fun _ => .pure ()

theorem Booked.forM {f : α → Edit Unit} (h : ∀ x, Booked (f x)) (xs : List α) :
    Booked (xs.forM f) := by
  induction xs with
  | nil => exact .pure ()
  | cons x xs ih => exact (h x).bind fun _ => ih

/-- A number is asked for and used for something that leaves the counter alone. -/
theorem Booked.allocating {f : Nat → Edit β}
    (hquiet : ∀ i g, (f i g).graph.nextId = g.nextId)
    (h : ∀ g : Graph, g.Evolves (f g.nextId g.counted).graph [g.nextId]) : Booked (allocate >>= f) :=
  fun g => ⟨[g.nextId], .bind .allocate (.none (hquiet _)), h g⟩

end Edit

namespace Graph

open Edit

variable {g g' : Graph}

/-! ## Deletions -/

theorem deleteLink_shrinks (id : LinkId) : Edit.Shrinks (deleteLink id) := by
  intro g
  cases hl : g.links.get? id with
  | none =>
    rw [deleteLink_graph_of_none hl]
    exact .refl g
  | some link =>
    rw [deleteLink_graph_of_some hl]
    refine ⟨rfl, .refl _, ?_, ?_, .refl _⟩
    · simp
    · simp

theorem deleteLinks_shrinks (ids : List LinkId) : Edit.Shrinks (deleteLinks ids) :=
  .forM (fun id => (deleteLink_shrinks id).discard) ids

theorem deletePin_shrinks (id : PinId) : Edit.Shrinks (deletePin id) := by
  refine Edit.Shrinks.current.bind fun g => ?_
  split
  · exact .pure _
  · refine (deleteLinks_shrinks _).bind fun _ => (Edit.Shrinks.announce _).bind fun _ => ?_
    refine Edit.Shrinks.bind (fun g => ?_) fun _ => .pure _
    have hnodes : (dropPin id g).nodes.keys = g.nodes.keys := by
      simp only [dropPin]
      cases g.pins.get? id with
      | none => rfl
      | some pin => exact Table.keys_modify _ _ _
    refine ⟨rfl, hnodes ▸ .refl _, ?_, .refl _, .refl _⟩
    simp [dropPin]

theorem deletePins_shrinks (ids : List PinId) : Edit.Shrinks (deletePins ids) :=
  .forM (fun id => (deletePin_shrinks id).discard) ids

theorem deleteNode_shrinks (id : NodeId) : Edit.Shrinks (deleteNode id) := by
  refine Edit.Shrinks.current.bind fun g => ?_
  split
  · exact .pure _
  · refine (deletePins_shrinks _).bind fun _ => (Edit.Shrinks.announce _).bind fun _ => ?_
    refine Edit.Shrinks.bind (fun g => ⟨rfl, ?_, .refl _, .refl _, .refl _⟩) fun _ => .pure _
    simp

/-- A node is changed where it stands. -/
theorem changeNode_shrinks (k : NodeId) (f : Node → Node) :
    Edit.Shrinks (update fun g => { g with nodes := g.nodes.modify k f }) :=
  fun g => .of_inventory (by simp [inventory])

theorem unbindNode_shrinks (p : PropertyId) (id : NodeId) : Edit.Shrinks (unbindNode p id) := by
  refine Edit.Shrinks.current.bind fun g => ?_
  split
  · split
    · dsimp only
      split
      · exact (Edit.Shrinks.report _).bind fun _ => changeNode_shrinks id _
      · exact changeNode_shrinks id _
    · exact .pure _
  · exact .pure _

theorem deleteProperty_shrinks (id : PropertyId) : Edit.Shrinks (deleteProperty id) := by
  refine Edit.Shrinks.current.bind fun g => ?_
  split
  · refine Edit.Shrinks.bind (.forM (fun p => ?_) _) fun _ => .pure _
    refine (Edit.Shrinks.announce _).bind fun _ => Edit.Shrinks.current.bind fun g => ?_
    refine (Edit.Shrinks.forM (unbindNode_shrinks p) _).bind fun _ g => ?_
    exact ⟨rfl, .refl _, .refl _, .refl _, by simp⟩
  · exact .pure _

/-! ## Additions -/

theorem addPins_booked (node : NodeId) (specs : List PinSpec) : Booked (addPins node specs) :=
  .forM (fun spec => .allocating (fun _ _ => rfl) fun g => .withPin g node spec) specs

theorem addNode_booked (b : Behavior) : Booked (addNode b) := by
  intro g
  obtain ⟨issued, hpins⟩ := addPins_booked ⟨g.nextId⟩ (b.layout g.propertyValue?)
    (g.withNode (.ofBehavior ⟨g.nextId⟩ b.kind b))
  refine ⟨g.nextId :: issued, ?_, (Evolves.withNode g _).trans hpins.evolves⟩
  have hissues : (addNode b).Issues g ([g.nextId] ++ ([] ++ ([] ++ (issued ++ [])))) :=
    .bind .allocate (.bind (.none fun _ => rfl) (.bind (.none fun _ => rfl)
      (.bind hpins.issues (.none fun _ => rfl))))
  simpa using hissues

theorem createNode_booked (type : String) : Booked (createNode type) := by
  refine Booked.current.bind fun g => ?_
  split
  · exact .pure _
  · refine (addNode_booked _).bind fun id => Booked.bind ?_ fun _ => .pure _
    exact (changeNode_shrinks id _).booked

theorem createLink_booked (a b : PinId) : Booked (createLink a b) := by
  refine Booked.current.bind fun g => ?_
  split
  · exact .pure _
  · exact .pure _
  · split
    · refine (deleteLinks_shrinks _).booked.bind fun _ => ?_
      exact .allocating (fun _ _ => rfl) fun g => .withLink g a b
    · exact .pure _

theorem redraw_booked (node : NodeId) (cut : CutLink) : Booked (redraw node cut) := by
  refine Booked.current.bind fun g => ?_
  split
  · exact (createLink_booked _ _).discard
  · exact .pure _

theorem relayout_booked (id : NodeId) : Booked (relayout id) := by
  refine Booked.current.bind fun g => ?_
  split
  · exact .pure _
  · split
    · exact .pure _
    · refine (deletePins_shrinks _).booked.bind fun _ => (changeNode_shrinks id _).booked.bind ?_
      refine fun _ => (addPins_booked _ _).bind fun _ => ?_
      exact (Booked.forM (redraw_booked id) _).bind fun _ => .pure _

theorem bindNode_booked (id : NodeId) (p : PropertyId) : Booked (bindNode id p) := by
  refine Booked.current.bind fun g => ?_
  split
  · split
    · exact .pure _
    · split
      · exact .pure _
      · split
        · exact .pure _
        · exact (changeNode_shrinks id _).booked.bind fun _ => relayout_booked id
  · exact .pure _

theorem createProperty_booked (name : String) (v : Value) (parent : Option PropertyId) :
    Booked (createProperty name v parent) := by
  refine Booked.current.bind fun g => ?_
  split
  · exact .pure _
  · exact .allocating (fun _ _ => rfl) fun g => .withProperty g name v parent

end Graph

end FlowGraph
