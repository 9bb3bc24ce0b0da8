import FlowGraph.Proofs.Graph.Allocation

/-!
# What observers hear

An operation is followed from one announcement to the next.  Between two of them nothing is taken
away and no property gets another value (`Graph.Quiet`); a deletion is announced with the graph as
it stood before and takes away that one entity (`Graph.Loses`); a store is announced with the graph
as it stands after (`Graph.Told`).  What is made meanwhile comes under numbers that were not in use
before, so nothing that went comes back, and the announcements of an operation can be counted on the
graphs before and after it (`Graph.Told.exactly`).
-/

namespace FlowGraph

/-- Anything that a graph is made of. -/
inductive Entity where
  | node (id : NodeId)
  | pin (id : PinId)
  | link (id : LinkId)
  | property (id : PropertyId)
deriving DecidableEq

namespace Entity

def number : Entity → Nat
  | node id => id.number
  | pin id => id.number
  | link id => id.number
  | property id => id.number

/-- The event that tells of its deletion. -/
def deletion : Entity → Event
  | node id => .nodeDeleted id
  | pin id => .pinDeleted id
  | link id => .linkDeleted id
  | property id => .propertyDeleted id

theorem deletion_inj {x y : Entity} (h : x.deletion = y.deletion) : x = y := by
  cases x <;> cases y <;> cases h <;> rfl

theorem deletion_ne (x : Entity) (p : PropertyId) : x.deletion ≠ .propertyModified p := by
  cases x <;> exact nofun

end Entity

/-- The announcement, if the report is one. -/
def Report.heard? : Report → Option (Event × Graph)
  | .announced e g => some (e, g)
  | _ => none

/-- What an observer is told, in order: each event with the graph as it stood. -/
def heard (reports : List Report) : List (Event × Graph) := reports.filterMap Report.heard?

@[simp] theorem heard_nil : heard [] = [] := rfl

@[simp] theorem heard_append (before after : List Report) :
    heard (before ++ after) = heard before ++ heard after := List.filterMap_append

@[simp] theorem heard_announced (e : Event) (g : Graph) (reports : List Report) :
    heard (.announced e g :: reports) = (e, g) :: heard reports := rfl

/-- The stores among the announcements: which property was written, and what it held then. -/
def heardStores (es : List (Event × Graph)) : List (PropertyId × Option Value) :=
  es.filterMap fun
    | (.propertyModified p, g) => some (p, g.propertyValue? p)
    | _ => none

@[simp] theorem heardStores_append (es es' : List (Event × Graph)) :
    heardStores (es ++ es') = heardStores es ++ heardStores es' := List.filterMap_append

theorem heardStores_modified (p : PropertyId) (g : Graph) :
    heardStores [(.propertyModified p, g)] = [(p, g.propertyValue? p)] := rfl

theorem heardStores_deletion (x : Entity) (g : Graph) : heardStores [(x.deletion, g)] = [] := by
  cases x <;> rfl

namespace Graph

variable {g g' g'' : Graph}

def Has (g : Graph) : Entity → Prop
  | .node id => id ∈ g.nodes.keys
  | .pin id => id ∈ g.pins.keys
  | .link id => id ∈ g.links.keys
  | .property id => id ∈ g.properties.keys

instance (g : Graph) (x : Entity) : Decidable (g.Has x) := by
  cases x <;> unfold Has <;> infer_instance

/-- The entity is there and what goes before it is gone: it is a link that both of its pins list, a
    pin without links, a node without pins, or a property that is nobody's parent. -/
def Leaves (g : Graph) : Entity → Prop
  | .node id => id ∈ g.nodes.keys ∧ g.pinsOfNode id = [] ∧
      ∀ p pin, g.pins.get? p = some pin → pin.node ≠ id
  | .pin id => ∃ pin, g.pins.get? id = some pin ∧ pin.links = []
  | .link id => ∃ link, g.links.get? id = some link ∧
      ∀ p ∈ link.ends, ∃ pin, g.pins.get? p = some pin ∧ id ∈ pin.links
  | .property id => id ∈ g.properties.keys ∧ ∀ q, ¬ g.ChildOf q id

theorem Leaves.has {x : Entity} (h : g.Leaves x) : g.Has x := by
  cases x with
  | node id => exact h.1
  | pin id =>
    obtain ⟨pin, hpin, -⟩ := h
    exact Table.mem_keys_of_get? hpin
  | link id =>
    obtain ⟨link, hlink, -⟩ := h
    exact Table.mem_keys_of_get? hlink
  | property id => exact h.1

/-! ## Steps -/

/-- Nothing is taken away, no property gets another value, and what is new has a new number. -/
structure Quiet (g g' : Graph) : Prop where
  counter : g.nextId ≤ g'.nextId
  kept : ∀ x, g.Has x → g'.Has x
  fresh : ∀ x, g'.Has x → g.Has x ∨ g.nextId ≤ x.number ∧ x.number < g'.nextId
  values : ∀ p v, g.propertyValue? p = some v → g'.propertyValue? p = some v

/-- The one entity is taken away, which was ready to go. -/
structure Loses (g : Graph) (x : Entity) (g' : Graph) : Prop where
  leaves : g.Leaves x
  counter : g'.nextId = g.nextId
  rest : ∀ y, g'.Has y ↔ g.Has y ∧ y ≠ x
  values : ∀ p v, g'.propertyValue? p = some v → g.propertyValue? p = some v

/-- From one graph to the other these announcements and these stores are made. -/
inductive Told :
    Graph → List (Event × Graph) → List (PropertyId × Value) → Graph → Prop where
  | quiet {g g' : Graph} (h : g.Quiet g') : Told g [] [] g'
  | lost {g g' : Graph} {x : Entity} (h : g.Loses x g') : Told g [(x.deletion, g)] [] g'
  | stored {g : Graph} {p : PropertyId} {v : Value} (h : (setProperty p v g).answer = .ok ()) :
      Told g [(.propertyModified p, (setProperty p v g).graph)] [(p, v)] (setProperty p v g).graph
  | trans {g g' g'' : Graph} {es es' : List (Event × Graph)}
      {stores stores' : List (PropertyId × Value)} (h : Told g es stores g')
      (h' : Told g' es' stores' g'') : Told g (es ++ es') (stores ++ stores') g''

theorem Quiet.refl (g : Graph) : g.Quiet g :=
  ⟨Nat.le_refl _, fun _ h => h, fun _ h => .inl h, fun _ _ h => h⟩

theorem Told.refl (g : Graph) : g.Told [] [] g := .quiet (.refl g)

/-- A store is refused and nothing is told, or it is told once with the value in place. -/
theorem setProperty_heard (p : PropertyId) (v : Value) (g : Graph) :
    ((∃ cause, (setProperty p v g).answer = .error cause) ∧ (setProperty p v g).graph = g ∧
      heard (setProperty p v g).reports = []) ∨
    ((setProperty p v g).answer = .ok () ∧
      heard (setProperty p v g).reports = [(.propertyModified p, (setProperty p v g).graph)] ∧
      (setProperty p v g).graph.inventory = g.inventory ∧
      ∀ q, (setProperty p v g).graph.propertyValue? q =
        if q = p then some v else g.propertyValue? q) := by
  rcases setProperty_cases p v g with ⟨cause, hg, -⟩ | ⟨q, hq, -, g', rfl, hg⟩
  · rw [hg]
    exact .inl ⟨⟨cause, rfl⟩, rfl, rfl⟩
  · rw [hg]
    refine .inr ⟨rfl, rfl, by simp [inventory], fun r => ?_⟩
    by_cases hr : r = p
    · subst hr
      simp [propertyValue?, hq]
    · simp [propertyValue?, hr]

theorem has_of_inventory (h : g'.inventory = g.inventory) (x : Entity) : g'.Has x ↔ g.Has x := by
  simp only [inventory, Prod.mk.injEq] at h
  obtain ⟨-, hnodes, hpins, hlinks, hproperties⟩ := h
  cases x <;> simp only [Has, hnodes, hpins, hlinks, hproperties]

theorem Quiet.of_inventory (h : g'.inventory = g.inventory)
    (hvalues : ∀ p, g'.propertyValue? p = g.propertyValue? p) : g.Quiet g' where
  counter := Nat.le_of_eq (congrArg (·.1) h).symm
  kept x hx := (has_of_inventory h x).mpr hx
  fresh x hx := .inl ((has_of_inventory h x).mp hx)
  values p _ hv := (hvalues p).trans hv

theorem setProperty_told (p : PropertyId) (v : Value) (g : Graph) :
    ((∃ cause, (setProperty p v g).answer = .error cause) ∧
      g.Told (heard (setProperty p v g).reports) [] (setProperty p v g).graph) ∨
    ((setProperty p v g).answer = .ok () ∧
      g.Told (heard (setProperty p v g).reports) [(p, v)] (setProperty p v g).graph) := by
  rcases setProperty_heard p v g with ⟨hno, hg, hes⟩ | ⟨hok, hes, -, -⟩
  · rw [hg, hes]
    exact .inl ⟨hno, .refl g⟩
  · rw [hes]
    exact .inr ⟨hok, .stored hok⟩

/-! ## Counting -/

/-- All entities have numbers below the counter. -/
theorem Numbered.number_lt (h : g.Numbered) {x : Entity} (hx : g.Has x) : x.number < g.nextId := by
  refine h.below _ (mem_ids_iff.mpr ?_)
  cases x with
  | node id => exact .inl hx
  | pin id => exact .inr (.inl hx)
  | link id => exact .inr (.inr (.inl hx))
  | property id => exact .inr (.inr (.inr hx))

/-- How often the deletion of an entity is announced. -/
def farewells (es : List (Event × Graph)) (x : Entity) : Nat := (es.map Prod.fst).count x.deletion

theorem farewells_append (es es' : List (Event × Graph)) (x : Entity) :
    farewells (es ++ es') x = farewells es x + farewells es' x := by
  rw [farewells, List.map_append, List.count_append]
  rfl

/-- What the announcements come to for one entity: if it was there, it is told to go exactly if it
    is not there any more; if it was there once, it does not come back; if it is new, it is told to
    go at most once, and not if it stayed. -/
structure Balanced (g : Graph) (es : List (Event × Graph)) (g' : Graph) (x : Entity) : Prop where
  present : g.Has x → farewells es x = if g'.Has x then 0 else 1
  past : ¬ g.Has x → x.number < g.nextId → ¬ g'.Has x ∧ farewells es x = 0
  future : ¬ g.Has x → g.nextId ≤ x.number →
    (farewells es x = 0 ∧ (g'.Has x → x.number < g'.nextId)) ∨
    (farewells es x = 1 ∧ ¬ g'.Has x ∧ x.number < g'.nextId)

theorem Balanced.of_same {es : List (Event × Graph)} {x : Entity} (hes : farewells es x = 0)
    (hkept : g.Has x → g'.Has x)
    (hfresh : g'.Has x → g.Has x ∨ g.nextId ≤ x.number ∧ x.number < g'.nextId) :
    g.Balanced es g' x where
  present hx := by rw [hes, if_pos (hkept hx)]
  past hx hlt := ⟨fun hx' => (hfresh hx').elim hx fun h => absurd hlt (Nat.not_lt.mpr h.1), hes⟩
  future hx _ := .inl ⟨hes, fun hx' => ((hfresh hx').resolve_left hx).2⟩

theorem Balanced.trans {es es' : List (Event × Graph)} {x : Entity} (h : g.Balanced es g' x)
    (h' : g'.Balanced es' g'' x) (hlt : g.Has x → x.number < g.nextId)
    (hcounter : g.nextId ≤ g'.nextId) (hcounter' : g'.nextId ≤ g''.nextId) :
    g.Balanced (es ++ es') g'' x := by
  refine ⟨fun hx => ?_, fun hx hpast => ?_, fun hx hfuture => ?_⟩
  · rw [farewells_append, h.present hx]
    by_cases hmid : g'.Has x
    · rw [if_pos hmid, h'.present hmid, Nat.zero_add]
    · obtain ⟨hend, hzero⟩ := h'.past hmid (Nat.lt_of_lt_of_le (hlt hx) hcounter)
      rw [if_neg hmid, if_neg hend, hzero]
  · obtain ⟨hmid, hzero⟩ := h.past hx hpast
    obtain ⟨hend, hzero'⟩ := h'.past hmid (Nat.lt_of_lt_of_le hpast hcounter)
    exact ⟨hend, by rw [farewells_append, hzero, hzero']⟩
  · rw [farewells_append]
    rcases h.future hx hfuture with ⟨hzero, hmidlt⟩ | ⟨hone, hmid, hmidlt⟩
    · rw [hzero, Nat.zero_add]
      by_cases hmid : g'.Has x
      · have hlast := Nat.lt_of_lt_of_le (hmidlt hmid) hcounter'
        rw [h'.present hmid]
        by_cases hend : g''.Has x
        · exact .inl ⟨if_pos hend, fun _ => hlast⟩
        · exact .inr ⟨if_neg hend, hend, hlast⟩
      · rcases Nat.lt_or_ge x.number g'.nextId with hmidlt | hge
        · obtain ⟨hend, hzero'⟩ := h'.past hmid hmidlt
          exact .inl ⟨hzero', fun hx => absurd hx hend⟩
        · exact h'.future hmid hge
    · obtain ⟨hend, hzero'⟩ := h'.past hmid hmidlt
      exact .inr ⟨by rw [hone, hzero'], hend, Nat.lt_of_lt_of_le hmidlt hcounter'⟩

/-- The counts of a whole operation, from those of its steps. -/
theorem Told.balanced {es : List (Event × Graph)} {stores : List (PropertyId × Value)}
    (h : g.Told es stores g')
    (hlt : ∀ x, g.Has x → x.number < g.nextId) :
    g.nextId ≤ g'.nextId ∧ (∀ x, g'.Has x → x.number < g'.nextId) ∧ ∀ x, g.Balanced es g' x := by
  induction h with
  | quiet h =>
    refine ⟨h.counter, fun x hx => ?_, fun x => .of_same rfl (h.kept x) (h.fresh x)⟩
    rcases h.fresh x hx with hx | hx
    · exact Nat.lt_of_lt_of_le (hlt x hx) h.counter
    · exact hx.2
  | @lost g g' y h =>
    refine ⟨Nat.le_of_eq h.counter.symm, fun x hx => ?_, fun x => ?_⟩
    · rw [h.counter]
      exact hlt x ((h.rest x).mp hx).1
    · by_cases hxy : x = y
      · subst hxy
        have hgone : ¬ g'.Has x := fun hx => ((h.rest x).mp hx).2 rfl
        have hhas := h.leaves.has
        exact ⟨fun _ => by simp [farewells, hgone], fun hx => absurd hhas hx,
          fun hx => absurd hhas hx⟩
      · have hes : farewells [(y.deletion, g)] x = 0 := by
          have hne : y.deletion ≠ x.deletion := fun heq => hxy (Entity.deletion_inj heq).symm
          simp [farewells, hne]
        exact .of_same hes (fun hx => (h.rest x).mpr ⟨hx, hxy⟩)
          fun hx => .inl ((h.rest x).mp hx).1
  | @stored g p v h =>
    rcases setProperty_heard p v g with ⟨⟨cause, hno⟩, -⟩ | ⟨-, -, hsame, -⟩
    · rw [h] at hno
      cases hno
    · have hcounter : (setProperty p v g).graph.nextId = g.nextId := congrArg (·.1) hsame
      refine ⟨Nat.le_of_eq hcounter.symm, fun x hx => ?_, fun x => ?_⟩
      · rw [hcounter]
        exact hlt x ((has_of_inventory hsame x).mp hx)
      · refine .of_same ?_ (has_of_inventory hsame x).mpr
          fun hx => .inl ((has_of_inventory hsame x).mp hx)
        simp [farewells, (x.deletion_ne p).symm]
  | trans h h' ih ih' =>
    obtain ⟨hcounter, hmid, hfirst⟩ := ih hlt
    obtain ⟨hcounter', hend, hlater⟩ := ih' hmid
    exact ⟨Nat.le_trans hcounter hcounter', hend,
      fun x => (hfirst x).trans (hlater x) (hlt x) hcounter hcounter'⟩

/-- Every deletion is announced while the entity is ready to go. -/
theorem Told.leaves {es : List (Event × Graph)} {stores : List (PropertyId × Value)}
    (h : g.Told es stores g') {x : Entity} {then' : Graph} (hx : (x.deletion, then') ∈ es) :
    then'.Leaves x := by
  induction h with
  | quiet => cases hx
  | lost h =>
    obtain ⟨heq, rfl⟩ := Prod.mk.inj (List.mem_singleton.mp hx)
    cases Entity.deletion_inj heq
    exact h.leaves
  | stored =>
    exact absurd (Prod.mk.inj (List.mem_singleton.mp hx)).1 (x.deletion_ne _)
  | trans _ _ ih ih' => exact (List.mem_append.mp hx).elim ih ih'

/-- The stores are announced one by one and in their order, each with the value in place. -/
theorem Told.heardStores {es : List (Event × Graph)} {stores : List (PropertyId × Value)}
    (h : g.Told es stores g') :
    FlowGraph.heardStores es = stores.map fun w => (w.1, some w.2) := by
  induction h with
  | quiet => rfl
  | @lost _ _ x _ => exact heardStores_deletion x _
  | @stored g p v h =>
    rcases setProperty_heard p v g with ⟨⟨cause, hno⟩, -⟩ | ⟨-, -, -, hvalue⟩
    · rw [h] at hno
      cases hno
    · rw [heardStores_modified, hvalue, if_pos rfl]
      rfl
  | trans _ _ ih ih' => rw [heardStores_append, ih, ih', List.map_append]

/-- A property that is still there has its old value or one that was stored. -/
theorem Told.values {es : List (Event × Graph)} {stores : List (PropertyId × Value)}
    (h : g.Told es stores g') (hlt : ∀ x, g.Has x → x.number < g.nextId) {p : PropertyId}
    {v v' : Value} (hv : g.propertyValue? p = some v) (hv' : g'.propertyValue? p = some v') :
    v' = v ∨ (p, v') ∈ stores := by
  induction h generalizing v v' with
  | quiet h =>
    exact .inl (Option.some.inj (hv'.symm.trans (h.values p v hv)))
  | lost h =>
    exact .inl (Option.some.inj ((h.values p v' hv').symm.trans hv))
  | @stored g q w h =>
    rcases setProperty_heard q w g with ⟨⟨cause, hno⟩, -⟩ | ⟨-, -, -, hvalue⟩
    · rw [h] at hno
      cases hno
    · rw [hvalue p] at hv'
      by_cases hp : p = q
      · rw [if_pos hp] at hv'
        cases hv'
        exact .inr (hp ▸ List.mem_singleton_self _)
      · rw [if_neg hp, hv] at hv'
        exact .inl (Option.some.inj hv').symm
  | @trans g g' g'' _ _ _ _ h h' ih ih' =>
    obtain ⟨hcounter, hmid, hbalanced⟩ := h.balanced hlt
    obtain ⟨-, -, hbalanced'⟩ := h'.balanced hmid
    have hhas : ∀ {g : Graph} {w}, g.propertyValue? p = some w → g.Has (.property p) := by
      intro g w hw
      obtain ⟨prop, hprop, -⟩ := Option.map_eq_some_iff.mp hw
      exact Table.mem_keys_of_get? hprop
    -- It was there meanwhile, since nothing comes back.
    have hstill : g'.Has (.property p) := by
      by_contra hgone
      have hpast := Nat.lt_of_lt_of_le (hlt _ (hhas hv)) hcounter
      exact ((hbalanced' _).past hgone hpast).1 (hhas hv')
    obtain ⟨prop, hprop⟩ := Table.mem_keys.mp hstill
    have hw : g'.propertyValue? p = some prop.value := by simp [propertyValue?, hprop]
    rcases ih' hmid hw hv' with rfl | hmem
    · exact (ih hlt hv hw).imp_right fun hmem => List.mem_append_left _ hmem
    · exact .inr (List.mem_append_right _ hmem)

/-! ## The whole -/

/-- The announcements fit what became of the graph: of what was there, what is gone was told to go
    once and what is left was not; nothing is told to go twice; each deletion is announced when its
    time has come, and each store once, with the value in place; and no value changed but by a
    store. -/
structure Exactly (g : Graph) (es : List (Event × Graph)) (stores : List (PropertyId × Value))
    (g' : Graph) : Prop where
  told : g.Told es stores g'
  removed : ∀ x, g.Has x → farewells es x = if g'.Has x then 0 else 1
  kept : ∀ x, g'.Has x → farewells es x = 0
  once : ∀ x, farewells es x ≤ 1
  leaves : ∀ x h, (x.deletion, h) ∈ es → h.Leaves x
  stored : FlowGraph.heardStores es = stores.map fun w => (w.1, some w.2)
  values : ∀ p v v', g.propertyValue? p = some v → g'.propertyValue? p = some v' →
    v' = v ∨ (p, v') ∈ stores

theorem Told.exactly {es : List (Event × Graph)} {stores : List (PropertyId × Value)}
    (h : g.Told es stores g') (hg : g.Numbered) : g.Exactly es stores g' := by
  have hlt : ∀ x, g.Has x → x.number < g.nextId := fun _ hx => hg.number_lt hx
  obtain ⟨-, -, hbalanced⟩ := h.balanced hlt
  refine ⟨h, fun x hx => (hbalanced x).present hx, fun x hx' => ?_, fun x => ?_,
    fun x _ hx => h.leaves hx, h.heardStores, fun _ _ _ hv hv' => h.values hlt hv hv'⟩
  · by_cases hx : g.Has x
    · rw [(hbalanced x).present hx, if_pos hx']
    · rcases Nat.lt_or_ge x.number g.nextId with hlt | hge
      · exact ((hbalanced x).past hx hlt).2
      · rcases (hbalanced x).future hx hge with ⟨hzero, -⟩ | ⟨-, hgone, -⟩
        · exact hzero
        · exact absurd hx' hgone
  · by_cases hx : g.Has x
    · rw [(hbalanced x).present hx]
      split <;> decide
    · rcases Nat.lt_or_ge x.number g.nextId with hlt | hge
      · rw [((hbalanced x).past hx hlt).2]
        decide
      · rcases (hbalanced x).future hx hge with ⟨hzero, -⟩ | ⟨hone, -⟩
        · rw [hzero]
          decide
        · exact Nat.le_of_eq hone

end Graph

end FlowGraph
