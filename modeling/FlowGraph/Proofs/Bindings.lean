import FlowGraph.Proofs.Run

/-!
# References to properties

A property refers to its parent and a variable node to the property it is bound to.  That parents
exist and form no cycle is part of soundness (`Grouped`), and it makes the way up from any property
as short as there are properties (`Grouped.ancestor?_size`).  That bindings lead somewhere depends
on the behaviors that a run brings in: `addNode` takes any behavior, bound or not.  If none of them
is bound to a property that is not there, all operations keep it so, and loading drops the bindings
that lead nowhere (`restoreBindings_bound`).
-/

namespace FlowGraph

namespace Graph

open Edit

variable {g g' : Graph}

/-! ## The way up -/

/-- The property so many parents up, if there are as many. -/
def ancestor? (g : Graph) : Nat → PropertyId → Option PropertyId
  | 0, p => some p
  | steps + 1, p => ((g.properties.get? p).bind (·.parent)).bind (g.ancestor? steps)

theorem path_of_ancestor? {steps : Nat} :
    ∀ {p q : PropertyId}, g.ancestor? steps p = some q → Relation.ReflTransGen g.ChildOf p q := by
  induction steps with
  | zero =>
    intro p q h
    cases h
    exact .refl
  | succ steps ih =>
    intro p q h
    obtain ⟨parent, hparent, hrest⟩ := Option.bind_eq_some_iff.mp h
    obtain ⟨prop, hprop, hp⟩ := Option.bind_eq_some_iff.mp hparent
    exact .head ⟨prop, hprop, hp⟩ (ih hrest)

theorem Grouped.ancestor?_ne (h : g.Grouped) (steps : Nat) (p : PropertyId) :
    g.ancestor? (steps + 1) p ≠ some p := by
  intro hp
  obtain ⟨parent, hparent, hrest⟩ := Option.bind_eq_some_iff.mp hp
  obtain ⟨prop, hprop, hq⟩ := Option.bind_eq_some_iff.mp hparent
  exact h.acyclic p (.head' ⟨prop, hprop, hq⟩ (path_of_ancestor? hrest))

/-- The way up never passes a property again, so with one step for each property not yet passed it
    comes to its end. -/
theorem Grouped.ancestor?_eq_none (h : g.Grouped) (steps : Nat) :
    ∀ {p : PropertyId} {passed : List PropertyId}, p ∈ g.properties.keys → passed.Nodup →
      (∀ a ∈ passed, a ∈ g.properties.keys ∧ Relation.TransGen g.ChildOf a p) →
      g.properties.size ≤ steps + passed.length → g.ancestor? steps p = none := by
  induction steps with
  | zero =>
    intro p passed hp hnodup hpassed hsize
    have hnew : p ∉ passed := fun hm => h.acyclic p (hpassed p hm).2
    have hle : (p :: passed).length ≤ g.properties.keys.length := by
      refine (List.nodup_cons.mpr ⟨hnew, hnodup⟩).length_le_of_subset fun a ha => ?_
      rcases List.mem_cons.mp ha with rfl | ha
      · exact hp
      · exact (hpassed a ha).1
    rw [Table.size_eq_length_keys] at hsize
    simp only [List.length_cons] at hle
    omega
  | succ steps ih =>
    intro p passed hp hnodup hpassed hsize
    cases hparent : (g.properties.get? p).bind (·.parent) with
    | none => simp [ancestor?, hparent]
    | some q =>
      obtain ⟨prop, hprop, hq⟩ := Option.bind_eq_some_iff.mp hparent
      have hpq : g.ChildOf p q := ⟨prop, hprop, hq⟩
      have hnew : p ∉ passed := fun hm => h.acyclic p (hpassed p hm).2
      have hbelow : ∀ a ∈ p :: passed,
          a ∈ g.properties.keys ∧ Relation.TransGen g.ChildOf a q := by
        intro a ha
        rcases List.mem_cons.mp ha with rfl | ha
        · exact ⟨hp, .single hpq⟩
        · exact ⟨(hpassed a ha).1, (hpassed a ha).2.tail hpq⟩
      have hrest := ih (h.parents hpq) (List.nodup_cons.mpr ⟨hnew, hnodup⟩) hbelow
        (by simp only [List.length_cons]; omega)
      simp [ancestor?, hparent, hrest]

theorem Grouped.ancestor?_size (h : g.Grouped) {p : PropertyId} (hp : p ∈ g.properties.keys) :
    g.ancestor? g.properties.size p = none :=
  h.ancestor?_eq_none _ hp List.nodup_nil (fun _ hm => absurd hm (by simp)) (by simp)

/-! ## Bindings -/

/-- The property a node is bound to. -/
def boundTo (g : Graph) (k : NodeId) : Option PropertyId := (g.nodes.get? k).bind Node.bound

/-- Every node that is bound at all is bound to a property that is there. -/
def Bound (g : Graph) : Prop := ∀ k p, g.boundTo k = some p → p ∈ g.properties.keys

theorem Bound.new (name : String) (registry : Registry) : (Graph.new name registry).Bound :=
  fun _ _ h => nomatch h

/-- Bindings may go and properties may come. -/
theorem Bound.mono (h : g.Bound) (hbound : ∀ k p, g'.boundTo k = some p → g.boundTo k = some p)
    (hkeys : ∀ p ∈ g.properties.keys, p ∈ g'.properties.keys) : g'.Bound :=
  fun k p hp => hkeys p (h k p (hbound k p hp))

/-- What bindings are about: what each node is bound to, and which properties there are. -/
def bindings (g : Graph) : (NodeId → Option PropertyId) × List PropertyId :=
  (g.boundTo, g.properties.keys)

theorem Bound.congr (h : g.Bound) (heq : g'.bindings = g.bindings) : g'.Bound := by
  obtain ⟨hbound, hkeys⟩ := Prod.mk.inj heq
  exact h.mono (fun k p hp => by rwa [hbound] at hp) fun p hp => by rwa [hkeys]

/-- Changing a node in what is not its behavior. -/
theorem bindings_withChange (k : NodeId) {f : Node → Node}
    (hf : ∀ n, (f n).behavior = n.behavior) : (g.withChange k f).bindings = g.bindings := by
  refine Prod.ext (funext fun k' => ?_) rfl
  show ((g.nodes.modify k f).get? k').bind Node.bound = (g.nodes.get? k').bind Node.bound
  rw [Table.get?_modify]
  cases g.nodes.get? k' with
  | none => rfl
  | some n =>
    show Node.bound (if k' = k then f n else n) = n.bound
    split
    · rw [Node.bound, Node.bound, hf]
    · rfl

theorem Bound.without (h : g.Bound) (nodes : List NodeId) (pins : List PinId)
    (links : List LinkId) : (g.without nodes pins links).Bound := by
  refine h.mono (fun k p hp => ?_) fun p hp => hp
  obtain ⟨n, hn, hbound⟩ := Option.bind_eq_some_iff.mp hp
  obtain ⟨-, n₀, hn₀, rfl⟩ := node_of_without hn
  rw [boundTo, hn₀]
  exact hbound

/-! ## Links and layouts -/

/-- The tables that links have no part in. -/
def unlinked (g : Graph) : Table NodeId Node × Table PropertyId Property := (g.nodes, g.properties)

theorem deleteLink_unlinked (id : LinkId) (g : Graph) :
    (deleteLink id g).graph.unlinked = g.unlinked := by
  cases h : g.links.get? id with
  | none => rw [deleteLink_graph_of_none h]
  | some link =>
    rw [deleteLink_graph_of_some h]
    rfl

theorem createLink_unlinked (a b : PinId) (g : Graph) :
    (createLink a b g).graph.unlinked = g.unlinked := by
  rcases createLink_cases a b g with ⟨-, hg, -⟩ | ⟨p, q, -, -, -, -, hg⟩
  · rw [hg]
  · rw [hg]
    exact forM_view unlinked (fun id g => deleteLink_unlinked id g) _ g

theorem bindings_of_unlinked (h : g'.unlinked = g.unlinked) : g'.bindings = g.bindings := by
  obtain ⟨hn, hp⟩ := Prod.mk.inj h
  have hbound : g'.boundTo = g.boundTo := by
    funext k
    rw [boundTo, hn, boundTo]
  rw [bindings, hbound, hp, bindings]

theorem redraw_bindings (node : NodeId) (cut : CutLink) (g : Graph) :
    (redraw node cut g).graph.bindings = g.bindings := by
  rcases redraw_eq node cut g with hg | ⟨a, b, hg⟩
  · rw [hg]
  · rw [hg]
    exact bindings_of_unlinked (createLink_unlinked a b g)

theorem addPin_bindings (node : NodeId) (spec : PinSpec) (g : Graph) :
    (addPin node spec g).graph.bindings = g.bindings :=
  bindings_withChange node fun n => (Node.attach_same n ⟨g.nextId⟩ spec.direction).1

theorem addPins_bindings (node : NodeId) (specs : List PinSpec) (g : Graph) :
    (addPins node specs g).graph.bindings = g.bindings :=
  forM_view bindings (addPin_bindings node) specs g

/-- A new layout changes no binding. -/
theorem Bound.relayout (h : g.Bound) (hs : g.Sound) (id : NodeId) :
    (relayout id g).graph.Bound := by
  cases hn : g.nodes.get? id with
  | none =>
    have hg : (Graph.relayout id g).graph = g := by simp [Graph.relayout, hn]
    rwa [hg]
  | some n =>
    obtain ⟨b, hb, -⟩ := hs.staffed.staff hn
    have hcut : (Graph.deletePins n.pins g).graph.Bound := by
      rw [deletePins_graph hs.intact]
      exact h.without [] n.pins _
    rw [hs.relayout_graph hn hb]
    exact (hcut.congr (addPins_bindings id _ _)).congr (forM_view bindings (redraw_bindings id) _ _)

/-! ## Nodes and properties -/

/-- A node may be added with a behavior that is free or bound to a property that is there. -/
theorem Bound.addNode (h : g.Bound) {b : Behavior} (hb : ∀ p ∈ b.bound, p ∈ g.properties.keys) :
    (addNode b g).graph.Bound := by
  have hnode : (g.withNode (.ofBehavior ⟨g.nextId⟩ b.kind b)).Bound := by
    intro k p hp
    simp only [boundTo, Graph.withNode, Table.get?_insert] at hp
    by_cases hk : (⟨g.nextId⟩ : NodeId) = k
    · rw [if_pos hk] at hp
      exact hb p hp
    · rw [if_neg hk] at hp
      exact h k p hp
  rw [addNode_graph]
  exact hnode.congr (addPins_bindings _ _ _)

theorem Bound.renameNode (h : g.Bound) (id : NodeId) (name : String) :
    (renameNode id name g).Bound :=
  h.congr (bindings_withChange id fun _ => rfl)

theorem Behavior.bound_of_bind? {p : PropertyId} {b b' : Behavior} (h : b.bind? p = some b') :
    b'.bound = some p := by
  cases b with
  | getVariable _ =>
    cases h
    rfl
  | setVariable _ =>
    cases h
    rfl
  | scripted script =>
    simp only [Behavior.bind?] at h
    split at h
    · cases h
      rfl
    · cases h
  | _ => cases h

theorem Bound.bindNode (h : g.Bound) (hs : g.Sound) (id : NodeId) (p : PropertyId) :
    (bindNode id p g).graph.Bound := by
  rcases bindNode_cases id p g with ⟨cause, hg⟩ | ⟨n, b, b', hp, hn, hb, hbind, hg⟩
  · rwa [hg]
  · have hbehavior : (g.withBehavior id b').Bound := by
      intro k q hq
      simp only [boundTo, withBehavior, Table.get?_modify] at hq
      obtain ⟨m, hm, hbound⟩ := Option.bind_eq_some_iff.mp hq
      obtain ⟨m₀, hm₀, rfl⟩ := Option.map_eq_some_iff.mp hm
      by_cases hk : k = id
      · rw [if_pos hk] at hbound
        have hq : b'.bound = some q := hbound
        rw [Behavior.bound_of_bind? hbind] at hq
        cases hq
        exact hp
      · rw [if_neg hk] at hbound
        exact h k q (by rw [boundTo, hm₀]; exact hbound)
    rw [hg]
    exact hbehavior.relayout (hs.withBehavior hn hb hbind) id

theorem Bound.createProperty (h : g.Bound) (name : String) (v : Value)
    (parent : Option PropertyId) : (createProperty name v parent g).graph.Bound := by
  rcases createProperty_cases name v parent g with ⟨q, -, -, hg⟩ | ⟨-, hg⟩
  · rwa [hg]
  · rw [hg]
    refine h.mono (fun k p hp => hp) fun p hp => ?_
    show p ∈ (g.properties.insert _ _).keys
    rw [Table.keys_insert]
    split
    · exact hp
    · exact List.mem_append_left _ hp

/-- A binding is dropped exactly if its property goes. -/
theorem boundTo_withoutProperties {ids : List PropertyId} {k : NodeId} {p : PropertyId} :
    (g.withoutProperties ids).boundTo k = some p ↔ g.boundTo k = some p ∧ p ∉ ids := by
  simp only [boundTo, Graph.withoutProperties, Table.get?_map]
  cases g.nodes.get? k with
  | none => simp
  | some n =>
    show (n.behavior.map (·.unbindAll ids)).bind Behavior.bound = some p ↔
      n.behavior.bind Behavior.bound = some p ∧ p ∉ ids
    cases n.behavior with
    | none => simp
    | some b => exact Behavior.bound_unbindAll

theorem Bound.withoutProperties (h : g.Bound) (ids : List PropertyId) :
    (g.withoutProperties ids).Bound := by
  intro k p hp
  obtain ⟨hbound, hp⟩ := boundTo_withoutProperties.mp hp
  rw [Graph.withoutProperties, Table.keys_filter]
  exact List.mem_filter.mpr ⟨h k p hbound, by simpa using hp⟩

theorem Bound.deleteProperty (h : g.Bound) (hs : g.Sound) (id : PropertyId) :
    (deleteProperty id g).graph.Bound := by
  by_cases hid : id ∈ g.properties.keys
  · rw [deleteProperty_graph hs.intact.nodes.nodup hid]
    exact h.withoutProperties _
  · rwa [deleteProperty_of_not_mem hid]

theorem Bound.of_frame (h : g.Bound) (hf : g'.frame = g.frame) : g'.Bound := by
  refine h.mono (fun k p hp => ?_) fun p hp => by rwa [property_keys_of_frame hf]
  rwa [boundTo, nodes_of_frame hf] at hp

/-! ## Loading -/

/-- Once every node was looked at, no binding is left that leads nowhere. -/
theorem restoreBindings_bound (start : Restored) :
    (restoreEach restoreBinding start.1.nodes.keys start).1.Bound := by
  -- The properties stay, and what is bound after its turn is bound to one of them.
  have hloop := restoreEach_steps (Q := fun done r =>
      r.1.nodes.keys = start.1.nodes.keys ∧ r.1.properties = start.1.properties ∧
        ∀ k ∈ done, ∀ p, r.1.boundTo k = some p → p ∈ start.1.properties.keys)
    restoreBinding start.1.nodes.keys ⟨rfl, rfl, by simp⟩ fun done id r _ hq => by
      obtain ⟨hnodes, hproperties, hdone⟩ := hq
      rcases restoreBinding_cases r.1 id with hg | ⟨n, b, p, hn, hb, hbound, hp, hg⟩
      · refine ⟨by rwa [hg], by rwa [hg], fun k hk q hq => ?_⟩
        rw [hg] at hq
        rcases List.mem_append.mp hk with hk | hk
        · exact hdone k hk q hq
        · cases List.mem_singleton.mp hk
          by_contra hnot
          have hcontains : r.1.properties.contains q = false := by
            rw [← hproperties, Table.mem_keys_iff] at hnot
            simpa using hnot
          have hfound : ((r.1.nodes.get? id).bind (·.behavior)).bind Behavior.bound = some q := by
            rw [← hq, boundTo]
            cases r.1.nodes.get? id <;> rfl
          simp [restoreBinding, hfound, hcontains] at hg
      · rw [hg]
        refine ⟨by rw [withChange, Table.keys_modify, hnodes], hproperties, fun k hk q hq => ?_⟩
        simp only [boundTo, withChange, Table.get?_modify] at hq
        by_cases hkid : k = id
        · -- The binding was dropped.
          subst hkid
          simp [hn, Node.bound, hb, Behavior.bound_unbind, hbound] at hq
        · have hk : k ∈ done := (List.mem_append.mp hk).resolve_right fun hm =>
            hkid (List.mem_singleton.mp hm)
          refine hdone k hk q ?_
          rw [boundTo, ← hq]
          cases r.1.nodes.get? k <;> simp [hkid]
  obtain ⟨hnodes, hproperties, hdone⟩ := hloop
  intro k p hp
  rw [hproperties]
  refine hdone k ?_ p hp
  obtain ⟨n, hn, -⟩ := Option.bind_eq_some_iff.mp hp
  exact hnodes ▸ Table.mem_keys_of_get? hn

theorem load_bound {registry : Registry} {d : GraphDocument} {repairs : List Repair}
    (h : d.load registry = .ok (g, repairs)) : g.Bound := by
  obtain ⟨-, -, r, -, rfl, -⟩ := load_eq_ok.mp h
  exact (restoreBindings_bound _).congr rfl

theorem Starts.bound (h : g.Starts) : g.Bound := by
  cases h with
  | new name registry => exact .new name registry
  | loaded h => exact load_bound h

end Graph

/-! ## Runs -/

namespace Command

/-- The behavior that the operation brings in, if it adds a node. -/
def brings? (g : Graph) : Command → Option Behavior
  | addNode b => some b
  | createNode type => g.registry.behavior? type
  | _ => none

/-- A behavior that the operation brings in is free or bound to a property that is there. -/
def BindsWithin (g : Graph) (c : Command) : Prop :=
  ∀ b ∈ c.brings? g, ∀ p ∈ b.bound, p ∈ g.properties.keys

instance (g : Graph) (c : Command) : Decidable (c.BindsWithin g) := by
  unfold BindsWithin
  infer_instance

/-- The same of each operation of a run, on the graph that it meets. -/
def AllBindWithin : Graph → List Command → Prop
  | _, [] => True
  | g, c :: rest => c.BindsWithin g ∧ AllBindWithin (c.perform g).graph rest

instance decidableAllBindWithin : (g : Graph) → (commands : List Command) →
    Decidable (AllBindWithin g commands)
  | _, [] => .isTrue trivial
  | g, c :: rest =>
    have := decidableAllBindWithin (c.perform g).graph rest
    inferInstanceAs (Decidable (_ ∧ _))

end Command

namespace Graph

variable {g : Graph}

/-- Every operation that brings in no dangling binding leaves none. -/
theorem Bound.perform (h : g.Bound) (hs : g.Sound) {c : Command} (hc : c.BindsWithin g) :
    (c.perform g).graph.Bound := by
  have hframed : ∀ {α : Type} {m : Eval α}, m.Keeps (Session.Framed g) → ∀ e,
      (m.on e g).graph.Bound := fun hm e => h.of_frame (hm ⟨e, g⟩ rfl)
  have hparts := keptByParts_framed hs.intact.indexed
  cases c with
  | addNode b => exact h.addNode (hc b rfl)
  | createNode type =>
    show (createNode type g).graph.Bound
    rw [createNode_graph]
    cases ht : g.registry.get? type with
    | none => exact h
    | some t =>
      exact (h.addNode (hc t.fresh (by simp [Command.brings?, Registry.behavior?, ht]))).renameNode
        _ _
  | deleteNode node =>
    show (deleteNode node g).graph.Bound
    rw [deleteNode_graph hs.intact]
    exact h.without _ _ _
  | renameNode node name => exact h.renameNode node name
  | relayout node => exact h.relayout hs node
  | bindNode node p => exact h.bindNode hs node p
  | deletePin pin =>
    show (deletePin pin g).graph.Bound
    rw [deletePin_graph hs.intact]
    exact h.without _ _ _
  | setPin pin v => exact h.of_frame (setPin_frame hs.intact.indexed pin v)
  | createLink a b => exact h.congr (bindings_of_unlinked (createLink_unlinked a b g))
  | deleteLink link => exact h.congr (bindings_of_unlinked (deleteLink_unlinked link g))
  | createProperty name v parent => exact h.createProperty name v parent
  | setProperty p v => exact h.of_frame (setProperty_frame hs.intact.indexed p v)
  | deleteProperty p => exact h.deleteProperty hs p
  | rename name => exact h
  | allocate => exact h
  | refreshInputs e node => exact hframed (hparts.refreshInputs node) e
  | evaluateNode e node => exact hframed (hparts.evaluateNode node) e
  | runPass e entry => exact hframed (hparts.runPass entry) e

theorem Bound.performAll (h : g.Bound) (hs : g.Sound) {commands : List Command}
    (hc : Command.AllBindWithin g commands)
    (hlast : (Command.performAll commands g).graph.nextId < lastNumber) :
    (Command.performAll commands g).graph.Bound := by
  induction commands generalizing g with
  | nil => exact h
  | cons c rest ih =>
    have hfirst : (c.perform g).graph.nextId < lastNumber :=
      Nat.lt_of_le_of_lt (Edit.Counts.forM perform_counts rest _ hlast) hlast
    exact ih (h.perform hs hc.1) (hs.perform c hfirst) hc.2 hlast

/-- Whatever refers to a property refers to one that is there, and the way up from a property ends
    within as many steps as there are properties. -/
structure Anchored (g : Graph) : Prop where
  parents : ∀ {p prop}, g.properties.get? p = some prop → ∀ q ∈ prop.parent, q ∈ g.properties.keys
  ends : ∀ p ∈ g.properties.keys, g.ancestor? g.properties.size p = none
  cycleless : ∀ steps p, g.ancestor? (steps + 1) p ≠ some p
  bound : ∀ {k n}, g.nodes.get? k = some n → ∀ p ∈ n.bound, p ∈ g.properties.keys

theorem Sound.anchored (hs : g.Sound) (h : g.Bound) : g.Anchored where
  parents hp q hq := hs.grouped.parents ⟨_, hp, hq⟩
  ends _ hp := hs.grouped.ancestor?_size hp
  cycleless := hs.grouped.ancestor?_ne
  bound {k n} hn p hp := h k p (by rw [boundTo, hn]; exact hp)

/-- No reference to a property is left dangling: not by a document, whatever parents and bindings it
    has, and not by any operation, unless it is handed a behavior that dangles already. -/
theorem property_references_anchored {start : Graph} (hs : start.Starts) {commands : List Command}
    (hids : (Command.performAll commands start).graph.nextId - start.nextId < 0x7fffffffffffffff)
    (hc : Command.AllBindWithin start commands) :
    (Command.performAll commands start).graph.Anchored := by
  have hreach : start.Reaches (Command.performAll commands start).graph := ⟨⟨commands, rfl⟩, hids⟩
  exact (hreach.sound hs).anchored
    (hs.bound.performAll hs.sound hc (hreach.nextId_lt hs))

/-- A document with two properties that are each other's parent, one that is its own, and a variable
    whose property is missing. -/
def tangled : GraphDocument where
  name := "tangled"
  properties := [
    (Property.mk ⟨1⟩ "left" (.float 0) (some ⟨2⟩)).toDocument,
    (Property.mk ⟨2⟩ "right" (.float 0) (some ⟨1⟩)).toDocument,
    (Property.mk ⟨3⟩ "own" (.int 0) (some ⟨3⟩)).toDocument]
  nodes := [
    (Node.ofBehavior ⟨4⟩ "read" (.getVariable (some ⟨1⟩))).toDocument,
    (Node.ofBehavior ⟨5⟩ "write" (.setVariable (some ⟨9⟩))).toDocument]

/-- Binds, groups and deletes on what is left of the references. -/
def untangle : List Command :=
  [.bindNode ⟨5⟩ ⟨2⟩, .createProperty "below" (.float 0) (some ⟨1⟩),
    .addNode (.getVariable (some ⟨3⟩)), .deleteProperty ⟨1⟩]

theorem tangled_comes_apart :
    ∃ g, tangled.load .builtin =
        .ok (g, [.parentCycle ⟨2⟩ ⟨1⟩, .parentCycle ⟨3⟩ ⟨3⟩, .bindingMissing ⟨5⟩ ⟨9⟩]) ∧
      (Command.performAll untangle g).graph.properties.keys = [⟨2⟩, ⟨3⟩] ∧
      (Command.performAll untangle g).graph.Anchored := by
  have hload : tangled.load .builtin = .ok (_, _) := rfl
  exact ⟨_, hload, by decide +kernel,
    property_references_anchored (.loaded hload) (by decide +kernel) (by decide +kernel)⟩

end Graph

end FlowGraph
