import FlowGraph.Proofs.Graph.Subtree

/-!
# Edits of properties

A new property goes under a parent that exists, so it cannot close a cycle.  Deleting a property
takes its whole subtree: `subtree_closed` says that the walk down from it misses nothing, so no
property is left with a parent that is gone.  Of the behaviors bound to what goes, only the binding
is changed (`Behavior.keepBound`).
-/

namespace FlowGraph

/-! ## Bindings -/

namespace Behavior

/-- The behavior with the binding, if it is of a kind that has one; nothing else is changed. -/
def withBound (bound : Option PropertyId) : Behavior → Behavior
  | getVariable _ => getVariable bound
  | setVariable _ => setVariable bound
  | scripted script => scripted { script with bound := bound }
  | eventBegin => eventBegin
  | logValue label => logValue label
  | floatConstant value => floatConstant value
  | arithmetic op => arithmetic op

/-- The behavior bound to its property if this is to be kept, and to none otherwise. -/
def keepBound (keep : PropertyId → Bool) (b : Behavior) : Behavior :=
  b.withBound (b.bound.filter keep)

/-- Drops the binding if it is to one of the properties. -/
def unbindAll (ids : List PropertyId) (b : Behavior) : Behavior := b.keepBound fun p => p ∉ ids

variable {keep : PropertyId → Bool} {ids : List PropertyId} {b : Behavior} {p : PropertyId}

theorem withBound_bound (b : Behavior) : b.withBound b.bound = b := by
  cases b <;> rfl

/-- Dropping the binding that a behavior has leaves it without one. -/
theorem withBound_none (hb : b.bound = some p) : b.withBound none = b.unbind p := by
  unfold unbind
  rw [if_pos hb]
  cases b <;> rfl

@[simp] theorem bound_keepBound (keep : PropertyId → Bool) (b : Behavior) :
    (b.keepBound keep).bound = b.bound.filter keep := by
  cases b <;> rfl

@[simp] theorem kind_keepBound (keep : PropertyId → Bool) (b : Behavior) :
    (b.keepBound keep).kind = b.kind := by
  cases b <;> rfl

@[simp] theorem hasFlow_keepBound (keep : PropertyId → Bool) (b : Behavior) :
    (b.keepBound keep).hasFlow = b.hasFlow := by
  cases b <;> rfl

@[simp] theorem isBuiltin_keepBound (keep : PropertyId → Bool) (b : Behavior) :
    (b.keepBound keep).isBuiltin = b.isBuiltin := by
  cases b <;> rfl

theorem keepBound_eq_self (h : ∀ p, b.bound = some p → keep p = true) :
    b.keepBound keep = b := by
  have hkept : b.bound.filter keep = b.bound := by
    cases hb : b.bound with
    | none => rfl
    | some p => exact Option.filter_some_pos (h p hb)
  rw [keepBound, hkept, withBound_bound]

theorem keepBound_eq_unbind (hb : b.bound = some p) (hp : keep p = false) :
    b.keepBound keep = b.unbind p := by
  have hdropped : b.bound.filter keep = none := by
    rw [hb]
    exact Option.filter_some_neg (by simp [hp])
  rw [keepBound, hdropped, withBound_none hb]

theorem keepBound_keepBound (keep keep' : PropertyId → Bool) (b : Behavior) :
    (b.keepBound keep).keepBound keep' = b.keepBound fun p => keep p && keep' p := by
  have hbound : ∀ bound : Option PropertyId,
      (bound.filter keep).filter keep' = bound.filter fun p => keep p && keep' p := fun bound => by
    rw [Option.filter_filter]
  cases b with
  | getVariable bound => exact congrArg getVariable (hbound bound)
  | setVariable bound => exact congrArg setVariable (hbound bound)
  | scripted script =>
    exact congrArg (fun bound => scripted { script with bound := bound }) (hbound script.bound)
  | _ => rfl

theorem unbindAll_of_mem (hb : b.bound = some p) (hp : p ∈ ids) : b.unbindAll ids = b.unbind p :=
  keepBound_eq_unbind hb (decide_eq_false (not_not.mpr hp))

theorem unbindAll_eq_self (h : ∀ p, b.bound = some p → p ∉ ids) : b.unbindAll ids = b :=
  keepBound_eq_self fun p hp => decide_eq_true (h p hp)

/-- What becomes of a binding: it goes if its property goes. -/
theorem bound_unbindAll : (b.unbindAll ids).bound = some p ↔ b.bound = some p ∧ p ∉ ids := by
  rw [unbindAll, bound_keepBound, Option.filter_eq_some_iff, decide_eq_true_iff]

theorem unbindAll_unbindAll (ps qs : List PropertyId) (b : Behavior) :
    (b.unbindAll ps).unbindAll qs = b.unbindAll (ps ++ qs) := by
  unfold unbindAll
  rw [keepBound_keepBound]
  congr 1
  funext p
  simp [List.mem_append]

end Behavior

theorem Behavior.bind?_same {p : PropertyId} {b b' : Behavior} (h : b.bind? p = some b') :
    b'.kind = b.kind ∧ b'.hasFlow = b.hasFlow := by
  cases b with
  | getVariable q =>
    cases h
    exact ⟨rfl, rfl⟩
  | setVariable q =>
    cases h
    exact ⟨rfl, rfl⟩
  | scripted script =>
    simp only [bind?] at h
    split at h
    · cases h
      exact ⟨rfl, rfl⟩
    · cases h
  | _ => cases h

/-- The node with a binding to one of the properties dropped. -/
def Node.unbindAll (ids : List PropertyId) (n : Node) : Node :=
  { n with behavior := n.behavior.map (·.unbindAll ids) }

namespace Graph

open Edit

/-- The graph without some of its properties and the bindings to them. -/
def withoutProperties (g : Graph) (ids : List PropertyId) : Graph :=
  { g with
    nodes := g.nodes.map (.unbindAll ids)
    properties := g.properties.filter fun k => !ids.contains k }

variable {g : Graph}

theorem withoutProperties_withoutProperties (ps qs : List PropertyId) :
    (g.withoutProperties ps).withoutProperties qs = g.withoutProperties (ps ++ qs) := by
  have hn : Node.unbindAll qs ∘ Node.unbindAll ps = Node.unbindAll (ps ++ qs) := by
    funext n
    simp only [Function.comp_apply, Node.unbindAll, Option.map_map]
    congr 1
    cases n.behavior with
    | none => rfl
    | some b => simp [Behavior.unbindAll_unbindAll]
  simp only [withoutProperties, Table.map_map, Table.filter_filter, hn, List.contains_append,
    Bool.not_or]

/-! ## One property -/

theorem unbindNode_graph (h : g.nodes.keys.Nodup) (id : PropertyId) (k : NodeId) :
    (unbindNode id k g).graph = { g with nodes := g.nodes.modify k (.unbindAll [id]) } := by
  simp only [unbindNode, current_bind]
  cases hb : (g.nodes.get? k).bind (·.behavior) with
  | none =>
    have hself : g.nodes.modify k (.unbindAll [id]) = g.nodes := by
      refine Table.modify_eq_self h fun n hn => ?_
      rw [hn, Option.bind_some] at hb
      simp [Node.unbindAll, hb]
      rw [← hb]
    rw [hself]
    rfl
  | some b =>
    have hn : ∀ n, g.nodes.get? k = some n → n.behavior = some b := fun n hn => by
      rwa [hn, Option.bind_some] at hb
    by_cases hbound : b.bound = some id
    · have hcongr : (g.nodes.modify k fun n => { n with behavior := some (b.unbind id) }) =
          g.nodes.modify k (.unbindAll [id]) := by
        refine Table.modify_congr h fun n hget => ?_
        simp [Node.unbindAll, hn n hget, Behavior.unbindAll_of_mem hbound]
      rw [← hcongr]
      cases b <;> simp [hbound]
    · have hself : g.nodes.modify k (.unbindAll [id]) = g.nodes := by
        refine Table.modify_eq_self h fun n hget => ?_
        have hb' : b.unbindAll [id] = b := Behavior.unbindAll_eq_self fun p hp => by
          rintro hm
          rw [List.mem_singleton.mp hm] at hp
          exact hbound hp
        simp [Node.unbindAll, hn n hget, hb']
        rw [← hn n hget]
      rw [hself]
      simp [hbound]

theorem unbindNodes_graph (id : PropertyId) (ks : List NodeId) :
    ∀ {g : Graph}, g.nodes.keys.Nodup →
      (ks.forM (unbindNode id) g).graph =
        { g with nodes := ks.foldl (fun t k => t.modify k (.unbindAll [id])) g.nodes } := by
  induction ks with
  | nil => exact fun _ => rfl
  | cons k ks ih =>
    intro g hg
    show (ks.forM (unbindNode id) (unbindNode id k g).graph).graph = _
    rw [unbindNode_graph hg, ih (by simpa using hg)]
    rfl

theorem dropProperty_graph (h : g.nodes.keys.Nodup) (id : PropertyId) :
    (dropProperty id g).graph = g.withoutProperties [id] := by
  have hdrop : (dropProperty id g).graph =
      { (g.nodes.keys.forM (unbindNode id) g).graph with
        properties := (g.nodes.keys.forM (unbindNode id) g).graph.properties.erase id } := rfl
  have herase : g.properties.erase id = g.properties.filter fun k => !([id].contains k) := by
    rw [Table.erase_eq_filter]
    exact Table.filter_congr fun k _ => by simp
  rw [hdrop, unbindNodes_graph id _ h, Table.foldl_modify_keys _ h, herase]
  rfl

theorem withoutProperties_nil (g : Graph) : g.withoutProperties [] = g := by
  have hn : g.nodes.map (.unbindAll []) = g.nodes := by
    refine (Table.map_congr fun n _ => ?_).trans (Table.map_id _)
    unfold Node.unbindAll
    cases hb : n.behavior with
    | none =>
      rw [Option.map_none, ← hb]
      rfl
    | some b =>
      rw [Option.map_some, Behavior.unbindAll_eq_self (by simp), ← hb]
      rfl
  rw [withoutProperties, hn, Table.filter_not_nil]

theorem dropProperties_graph (ids : List PropertyId) :
    ∀ {g : Graph}, g.nodes.keys.Nodup →
      (ids.forM dropProperty g).graph = g.withoutProperties ids := by
  induction ids with
  | nil => exact fun _ => (withoutProperties_nil _).symm
  | cons id ids ih =>
    intro g hg
    show (ids.forM dropProperty (dropProperty id g).graph).graph = _
    rw [dropProperty_graph hg, ih (by simpa [withoutProperties] using hg),
      withoutProperties_withoutProperties]
    rfl

/-! ## The property with its subtree -/

theorem deleteProperty_of_mem {id : PropertyId} (hid : id ∈ g.properties.keys) :
    deleteProperty id g = ((g.subtree id).reverse.forM dropProperty >>= fun _ => pure true) g := by
  have hcontains : g.properties.contains id = true := (Table.mem_keys_iff _ _).mp hid
  simp only [deleteProperty, current_bind, hcontains, if_true]

theorem deleteProperty_of_not_mem {id : PropertyId} (hid : id ∉ g.properties.keys) :
    deleteProperty id g = ⟨false, g, []⟩ := by
  have hcontains : g.properties.contains id = false := by
    rw [Table.mem_keys_iff] at hid
    simpa using hid
  simp only [deleteProperty, current_bind, hcontains]
  rfl

/-- Deleting a property leaves the graph without the property and everything below it. -/
theorem deleteProperty_graph (h : g.nodes.keys.Nodup) {id : PropertyId}
    (hid : id ∈ g.properties.keys) :
    (deleteProperty id g).graph = g.withoutProperties (g.subtree id).reverse := by
  rw [deleteProperty_of_mem hid, bind_graph, pure_apply, dropProperties_graph _ h]

theorem Staffed.withoutProperties (h : g.Staffed) (ids : List PropertyId) :
    (g.withoutProperties ids).Staffed := by
  refine ⟨fun {k n} hn => ?_⟩
  simp only [Graph.withoutProperties, Table.get?_map] at hn
  obtain ⟨n₀, hn₀, rfl⟩ := Option.map_eq_some_iff.mp hn
  obtain ⟨b, hb, ht, hf⟩ := h.staff hn₀
  refine ⟨b.unbindAll ids, ?_, ?_, ?_⟩
  · simp [Node.unbindAll, hb]
  · rw [Behavior.unbindAll, Behavior.kind_keepBound]
    exact ht
  · rw [Behavior.unbindAll, Behavior.hasFlow_keepBound]
    exact hf

theorem Sound.withoutProperties (h : g.Sound) {ids : List PropertyId}
    (hclosed : ∀ {a b}, g.ChildOf a b → b ∈ ids → a ∈ ids) : (g.withoutProperties ids).Sound := by
  have hchild : ∀ {a b}, (g.withoutProperties ids).ChildOf a b → a ∉ ids ∧ g.ChildOf a b := by
    rintro a b ⟨p, hp, hparent⟩
    obtain ⟨hp, ha⟩ := Table.get?_filter_eq_some.mp hp
    exact ⟨by simpa using ha, p, hp, hparent⟩
  have hpins : ∀ (n : Node) d, (n.unbindAll ids).pinsOf d = n.pinsOf d := fun n d => by
    cases d <;> rfl
  exact {
    intact := {
      nodes := h.intact.nodes.map fun _ => rfl
      pins := h.intact.pins
      links := h.intact.links
      properties := h.intact.properties.filter fun k => !ids.contains k
      listed := fun {k n} hn {d p} hp => by
        simp only [Graph.withoutProperties, Table.get?_map] at hn
        obtain ⟨n₀, hn₀, rfl⟩ := Option.map_eq_some_iff.mp hn
        rw [hpins] at hp
        exact h.intact.listed hn₀ hp
      owned := fun {p pin} hp => by
        obtain ⟨n, hn, hlist⟩ := h.intact.owned hp
        refine ⟨n.unbindAll ids, ?_, ?_⟩
        · simp [Graph.withoutProperties, hn]
        · rwa [hpins]
      joined := h.intact.joined
      entered := h.intact.entered
      fed := h.intact.fed }
    numbered := by
      refine h.numbered.sublist ?_ (Nat.le_refl _)
      simp only [Graph.ids, Graph.withoutProperties, Table.keys_map, Table.keys_filter]
      exact (List.Sublist.refl _).append (List.filter_sublist.map _)
    staffed := h.staffed.withoutProperties ids
    grouped := by
      refine ⟨fun {a b} hab => ?_, fun a ha => ?_⟩
      · obtain ⟨ha, hab₀⟩ := hchild hab
        have hb : b ∉ ids := fun hb => ha (hclosed hab₀ hb)
        simp only [Graph.withoutProperties, Table.keys_filter]
        exact List.mem_filter.mpr ⟨h.grouped.parents hab₀, by simpa using hb⟩
      · exact h.grouped.acyclic a (ha.lift id fun _ _ hab => (hchild hab).2) }

theorem Sound.deleteProperty (h : g.Sound) (id : PropertyId) :
    (deleteProperty id g).graph.Sound := by
  by_cases hid : id ∈ g.properties.keys
  · rw [deleteProperty_graph h.intact.nodes.nodup hid]
    refine h.withoutProperties fun hab hb => ?_
    rw [List.mem_reverse] at hb ⊢
    exact subtree_closed h.intact.properties hid hb hab
  · rwa [deleteProperty_of_not_mem hid]

/-! ## New properties -/

/-- The graph with a property under the next number. -/
def withProperty (g : Graph) (name : String) (v : Value) (parent : Option PropertyId) : Graph :=
  { g.counted with
    properties := g.properties.insert ⟨g.nextId⟩ ⟨⟨g.nextId⟩, name, v, parent⟩ }

theorem createProperty_cases (name : String) (v : Value) (parent : Option PropertyId) (g : Graph) :
    (∃ q, parent = some q ∧ q ∉ g.properties.keys ∧
      createProperty name v parent g = ⟨.error (.unknownProperty q), g, []⟩) ∨
    ((∀ q, parent = some q → q ∈ g.properties.keys) ∧
      createProperty name v parent g =
        ⟨.ok ⟨g.nextId⟩, g.withProperty name v parent, []⟩) := by
  simp only [createProperty, current_bind]
  cases parent with
  | none => exact .inr ⟨fun _ h => (by cases h), rfl⟩
  | some q =>
    by_cases hq : g.properties.contains q = true
    · refine .inr ⟨fun _ h => by cases h; exact (Table.mem_keys_iff _ _).mpr hq, ?_⟩
      have hfilter : (some q).filter (fun id => !g.properties.contains id) = none := by
        simp [Option.filter, hq]
      simp only [hfilter]
      rfl
    · refine .inl ⟨q, rfl, fun hm => hq ((Table.mem_keys_iff _ _).mp hm), ?_⟩
      have hfilter : (some q).filter (fun id => !g.properties.contains id) = some q := by
        simp [Option.filter, hq]
      simp only [hfilter]
      rfl

/-- A new property is nobody's parent, so it is on no cycle. -/
theorem Grouped.withProperty (h : g.Grouped)
    (hfresh : (⟨g.nextId⟩ : PropertyId) ∉ g.properties.keys) {name : String} {v : Value}
    {parent : Option PropertyId} (hparent : ∀ q, parent = some q → q ∈ g.properties.keys) :
    (g.withProperty name v parent).Grouped := by
  have hkeys : (g.withProperty name v parent).properties.keys =
      g.properties.keys ++ [⟨g.nextId⟩] := by
    rw [Graph.withProperty, Table.keys_insert, if_neg hfresh]
  have hcases : ∀ {a b}, (g.withProperty name v parent).ChildOf a b →
      b ∈ g.properties.keys ∧ (a ≠ ⟨g.nextId⟩ → g.ChildOf a b) := by
    rintro a b ⟨p, hp, hb⟩
    simp only [Graph.withProperty, Table.get?_insert] at hp
    by_cases ha : (⟨g.nextId⟩ : PropertyId) = a
    · rw [if_pos ha] at hp
      cases hp
      exact ⟨hparent b hb, fun hne => absurd ha.symm hne⟩
    · rw [if_neg ha] at hp
      exact ⟨h.parents ⟨p, hp, hb⟩, fun _ => ⟨p, hp, hb⟩⟩
  have hpath : ∀ {a b}, Relation.TransGen (g.withProperty name v parent).ChildOf a b →
      b ∈ g.properties.keys ∧ (a ≠ ⟨g.nextId⟩ → Relation.TransGen g.ChildOf a b) := by
    intro a b hab
    induction hab with
    | single hab => exact ⟨(hcases hab).1, fun ha => .single ((hcases hab).2 ha)⟩
    | tail _ hbc ih =>
      refine ⟨(hcases hbc).1, fun ha => (ih.2 ha).tail ((hcases hbc).2 ?_)⟩
      rintro rfl
      exact hfresh ih.1
  refine ⟨fun hab => ?_, fun a ha => ?_⟩
  · rw [hkeys]
    exact List.mem_append_left _ (hcases hab).1
  · refine h.acyclic a ((hpath ha).2 ?_)
    rintro rfl
    exact hfresh (hpath ha).1

theorem Sound.withProperty (h : g.Sound) (hlast : g.counted.nextId < lastNumber) {name : String}
    {v : Value} {parent : Option PropertyId}
    (hparent : ∀ q, parent = some q → q ∈ g.properties.keys) :
    (g.withProperty name v parent).Sound where
  intact := {
    nodes := h.intact.nodes
    pins := h.intact.pins
    links := h.intact.links
    properties := h.intact.properties.insert h.numbered.fresh_property rfl
    listed := h.intact.listed
    owned := h.intact.owned
    joined := h.intact.joined
    entered := h.intact.entered
    fed := h.intact.fed }
  numbered := by
    have hnext : g.counted.nextId = g.nextId + 1 := nextNumber_of_lt hlast
    refine h.numbered.cons ?_ (show g.nextId < g.counted.nextId by omega)
    simp only [ids, Graph.withProperty, Graph.counted, Table.keys_insert,
      if_neg h.numbered.fresh_property, List.map_append, List.map_cons, List.map_nil,
      ← List.append_assoc]
    exact List.perm_append_singleton _ _
  staffed := ⟨h.staffed.staff⟩
  grouped := h.grouped.withProperty h.numbered.fresh_property hparent

theorem Sound.createProperty (h : g.Sound) {name : String} {v : Value}
    {parent : Option PropertyId}
    (hlast : (createProperty name v parent g).graph.nextId < lastNumber) :
    (createProperty name v parent g).graph.Sound := by
  rcases createProperty_cases name v parent g with ⟨q, -, -, hg⟩ | ⟨hparent, hg⟩
  · rwa [hg]
  · rw [hg] at hlast ⊢
    exact h.withProperty hlast hparent

/-! ## Bindings -/

/-- The graph in which a node holds another behavior. -/
def withBehavior (g : Graph) (k : NodeId) (b : Behavior) : Graph :=
  { g with nodes := g.nodes.modify k fun n => { n with behavior := some b } }

theorem Staffed.withBehavior (h : g.Staffed) {k : NodeId} {n : Node} {p : PropertyId}
    {b b' : Behavior} (hn : g.nodes.get? k = some n) (hb : n.behavior = some b)
    (hbind : b.bind? p = some b') : (g.withBehavior k b').Staffed := by
  obtain ⟨hkind, hflow⟩ := Behavior.bind?_same hbind
  refine h.withChange k fun m c hm hc ht hf => ?_
  rw [hn] at hm
  cases hm
  rw [hb] at hc
  cases hc
  exact ⟨b', rfl, ht.trans hkind.symm, hf.trans hflow.symm⟩

theorem Sound.withBehavior (h : g.Sound) {k : NodeId} {n : Node} {p : PropertyId}
    {b b' : Behavior} (hn : g.nodes.get? k = some n) (hb : n.behavior = some b)
    (hbind : b.bind? p = some b') : (g.withBehavior k b').Sound :=
  h.withChange k (fun _ => rfl) (fun _ d => by cases d <;> rfl) (h.staffed.withBehavior hn hb hbind)

/-- Binding a node is refused, or it is a new behavior and a new layout. -/
theorem bindNode_cases (k : NodeId) (p : PropertyId) (g : Graph) :
    (∃ cause, bindNode k p g = ⟨.error cause, g, []⟩) ∨
    ∃ n b b', p ∈ g.properties.keys ∧ g.nodes.get? k = some n ∧ n.behavior = some b ∧
      b.bind? p = some b' ∧ bindNode k p g = relayout k (g.withBehavior k b') := by
  simp only [bindNode, current_bind]
  by_cases hp : g.properties.contains p = true
  · rw [if_pos hp]
    cases hn : g.nodes.get? k with
    | none => exact .inl ⟨_, rfl⟩
    | some n =>
      cases hb : n.behavior with
      | none => exact .inl ⟨.nodeBusy k, by simp [hb]⟩
      | some b =>
        cases hbind : b.bind? p with
        | none => exact .inl ⟨.notBindable k, by simp [hb, hbind]⟩
        | some b' =>
          refine .inr ⟨n, b, b', (Table.mem_keys_iff _ _).mpr hp, rfl, hb, hbind, ?_⟩
          simp only [hb, hbind]
          rfl
  · rw [if_neg hp]
    exact .inl ⟨_, rfl⟩

theorem Sound.bindNode (h : g.Sound) {k : NodeId} {p : PropertyId}
    (hlast : (bindNode k p g).graph.nextId < lastNumber) : (bindNode k p g).graph.Sound := by
  rcases bindNode_cases k p g with ⟨cause, hg⟩ | ⟨n, b, b', -, hn, hb, hbind, hg⟩
  · rwa [hg]
  · rw [hg] at hlast ⊢
    exact (h.withBehavior hn hb hbind).relayout hlast

end Graph

end FlowGraph
