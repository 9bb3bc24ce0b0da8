import FlowGraph.Proofs.Bindings
import FlowGraph.Proofs.Document.Saved

/-!
# What survives loading

Loading never fails over a reference, it leaves out those that do not hold.  Which ones do is said
here of the records alone (`Records.Survives`).  The stages run one after the other and the parents
and the links are taken greedily, so whether a record keeps its parent depends on the parents kept
before it, and whether a link is kept on the links kept before it.  Each of the two stages is
followed record by record; the others are closed forms.
-/

namespace FlowGraph

open FlowGraph.Graph

/-- The pins that a node record lists on a side. -/
def NodeRecord.listed (x : NodeRecord) : Direction → List Nat
  | .input => x.inputs
  | .output => x.outputs

/-- The behavior bound to its property if that is one of these, and to none otherwise. -/
def Behavior.boundAmong (ids : List PropertyId) (b : Behavior) : Behavior :=
  b.keepBound fun p => p ∈ ids

def Node.boundAmong (ids : List PropertyId) (n : Node) : Node :=
  { n with behavior := n.behavior.map (.boundAmong ids) }

theorem Node.bound_boundAmong {ids : List PropertyId} {n : Node} {p : PropertyId} :
    (n.boundAmong ids).bound = some p ↔ n.bound = some p ∧ p ∈ ids := by
  cases hb : n.behavior with
  | none => simp [boundAmong, bound, hb]
  | some b => simp [boundAmong, bound, hb, Behavior.boundAmong, Option.filter_eq_some_iff]

def Property.unparented (p : Property) : Property := { p with parent := none }

/-- Whether the node that the pin names is among the records and lists the pin on its side. -/
def Records.listsPin (r : Records) (pin : Pin) : Bool :=
  r.nodes.any fun x => x.node.id = pin.node && (x.listed pin.direction).contains pin.id.number

namespace Graph

variable {g g' start : Graph}

/-- `b` is the parent of `a`, and `a` is one of these. -/
def ChildAmong (g : Graph) (ids : List PropertyId) (a b : PropertyId) : Prop :=
  a ∈ ids ∧ g.ChildOf a b

/-- The link fits between two pins, and none of the kept ones before it ends in its input. -/
def Admits (g : Graph) (before : List Link) (l : Link) : Prop :=
  g.Joins l ∧ ∀ m ∈ before, m.id ∈ g.links.keys → ∀ p pin, g.pins.get? p = some pin →
    pin.direction = .input → l.involves p = true → m.involves p = false

end Graph

/-- What of the records is in the graph: all properties and nodes, and of the rest what resolves, in
    the order of the records. -/
structure Records.Survives (r : Records) (g : Graph) : Prop where
  properties : g.properties.map .unparented =
    ⟨r.properties.map fun x => (x.property.id, x.property)⟩
  /-- A parent is kept if it is there and is neither the property itself nor below it by the parents
      kept before. -/
  parents : ∀ before x, before ++ [x] <+: r.properties → ∀ q,
    g.ChildOf x.property.id q ↔ x.parent = some q ∧ q ∈ r.properties.map (·.property.id) ∧
      ¬ Relation.ReflTransGen (g.ChildAmong (before.map (·.property.id))) q x.property.id
  /-- A node lists those of its saved pins that are there and its own; of its behavior only the
      binding may change. -/
  nodes : g.nodes = ⟨r.nodes.map fun x => (x.node.id, { x.node with
    inputs := (x.inputs.map PinId.mk).filter (g.owns x.node.id .input)
    outputs := (x.outputs.map PinId.mk).filter (g.owns x.node.id .output)
    behavior := x.node.behavior.map (.boundAmong (r.properties.map (·.property.id))) })⟩
  /-- A binding is kept if its property is there. -/
  bindings : ∀ x ∈ r.nodes, ∀ q, g.boundTo x.node.id = some q ↔
    x.node.bound = some q ∧ q ∈ r.properties.map (·.property.id)
  /-- A pin is kept if its node lists it. -/
  pins : g.pins.map .unlinked =
    ⟨(r.pins.filter fun y => r.listsPin y.pin).map fun y => (y.pin.id, y.pin)⟩
  links : g.links = ⟨(r.links.filter (·.id ∈ g.links.keys)).map fun l => (l.id, l)⟩
  /-- A link is kept if it fits and its input is not taken by one kept before. -/
  linked : ∀ before l, before ++ [l] <+: r.links → (l.id ∈ g.links.keys ↔ g.Admits before l)

namespace Graph

variable {g g' start : Graph}

/-! ## Parents -/

theorem Grouped.isAncestor_iff (h : g.Grouped) {id p : PropertyId} (hp : p ∈ g.properties.keys) :
    g.isAncestor id g.properties.size p = true ↔ Relation.ReflTransGen g.ChildOf p id :=
  ⟨path_of_isAncestor _, isAncestor_of_path h _ hp List.nodup_nil
    (fun _ hm => absurd hm (by simp)) (by simp)⟩

/-- The graph after the parents of these records were restored. -/
structure ParentsSoFar (start : Graph) (done : List PropertyRecord) (g : Graph) : Prop where
  rest : g = { start with properties := g.properties }
  bare : g.properties.map .unparented = start.properties.map .unparented
  grouped : g.Grouped
  below : ∀ {a b}, g.ChildOf a b → a ∈ done.map (·.property.id)
  kept : ∀ {before x}, before ++ [x] <+: done → ∀ q,
    g.ChildOf x.property.id q ↔ x.parent = some q ∧ q ∈ start.properties.keys ∧
      ¬ Relation.ReflTransGen (g.ChildAmong (before.map (·.property.id))) q x.property.id

theorem ParentsSoFar.keys {done : List PropertyRecord} (h : ParentsSoFar start done g) :
    g.properties.keys = start.properties.keys := by
  have hkeys : (g.properties.map .unparented).keys = (start.properties.map .unparented).keys := by
    rw [h.bare]
  simpa using hkeys

/-- One more record: the others keep their parents, and the new one has its own if it closes no
    cycle with them. -/
theorem ParentsSoFar.extend {done : List PropertyRecord} {x : PropertyRecord}
    (h : ParentsSoFar start done g) (hnew : x.property.id ∉ done.map (·.property.id))
    (hrest : g' = { start with properties := g'.properties })
    (hbare : g'.properties.map .unparented = g.properties.map .unparented)
    (hgrouped : g'.Grouped)
    (hold : ∀ {a b}, a ≠ x.property.id → (g'.ChildOf a b ↔ g.ChildOf a b))
    (hown : ∀ q, g'.ChildOf x.property.id q ↔ x.parent = some q ∧ q ∈ start.properties.keys ∧
      ¬ Relation.ReflTransGen g.ChildOf q x.property.id) :
    ParentsSoFar start (done ++ [x]) g' := by
  have hamong : ∀ {ids : List PropertyId}, (∀ a ∈ ids, a ∈ done.map (·.property.id)) →
      g'.ChildAmong ids = g.ChildAmong ids := by
    intro ids hids
    funext a b
    refine propext (and_congr_right fun ha => hold ?_)
    rintro rfl
    exact hnew (hids _ ha)
  have hall : g.ChildAmong (done.map (·.property.id)) = g.ChildOf := by
    funext a b
    exact propext ⟨fun hab => hab.2, fun hab => ⟨h.below hab, hab⟩⟩
  refine ⟨hrest, hbare.trans h.bare, hgrouped, fun {a b} hab => ?_, fun {before y} hy q => ?_⟩
  · by_cases ha : a = x.property.id
    · simp [ha]
    · have := h.below ((hold ha).mp hab)
      rw [List.map_append]
      exact List.mem_append_left _ this
  · rcases List.prefix_concat_iff.mp hy with heq | hy
    · obtain ⟨rfl, hyx⟩ := List.append_inj' heq rfl
      cases hyx
      rw [hamong fun _ ha => ha, hall]
      exact hown q
    · have hsub : before <+: done := (List.prefix_append before [y]).trans hy
      have hne : y.property.id ≠ x.property.id := by
        intro heq
        refine hnew (heq ▸ List.mem_map_of_mem (hy.subset ?_))
        simp
      rw [hold hne, hamong fun a ha => List.map_subset _ hsub.subset ha]
      exact h.kept hy q

theorem ParentsSoFar.restoreParent {done : List PropertyRecord} {x : PropertyRecord}
    (h : ParentsSoFar start done g) (hx : x.property.id ∈ start.properties.keys)
    (hnew : x.property.id ∉ done.map (·.property.id)) :
    ParentsSoFar start (done ++ [x]) (restoreParent g x).1 := by
  have hfree : ∀ q, ¬ g.ChildOf x.property.id q := fun q hq => hnew (h.below hq)
  have hgrouped := h.grouped.restoreParent x
  have hsame : (∀ q, x.parent = some q → q ∈ start.properties.keys →
      Relation.ReflTransGen g.ChildOf q x.property.id) → ParentsSoFar start (done ++ [x]) g :=
    fun hcycle => h.extend hnew h.rest rfl h.grouped (fun _ => .rfl) fun q =>
      ⟨fun hq => absurd hq (hfree q), fun ⟨hq, hkey, hno⟩ => absurd (hcycle q hq hkey) hno⟩
  cases hparent : x.parent with
  | none =>
    have hg : (FlowGraph.restoreParent g x).1 = g := by simp [FlowGraph.restoreParent, hparent]
    rw [hg]
    exact hsame fun q hq => by simp [hparent] at hq
  | some p =>
    by_cases hp : p ∈ g.properties.keys
    · have hcontains := (Table.mem_keys_iff _ _).mp hp
      by_cases hpath : Relation.ReflTransGen g.ChildOf p x.property.id
      · have hg : (FlowGraph.restoreParent g x).1 = g := by
          simp [FlowGraph.restoreParent, hparent, hcontains,
            (h.grouped.isAncestor_iff hp).mpr hpath]
        rw [hg]
        refine hsame fun q hq _ => ?_
        cases hparent.symm.trans hq
        exact hpath
      · have hno : g.isAncestor x.property.id g.properties.size p = false := by
          rw [← Bool.not_eq_true, h.grouped.isAncestor_iff hp]
          exact hpath
        have hg : (FlowGraph.restoreParent g x).1 = g.withParent x.property.id p := by
          simp [FlowGraph.restoreParent, hparent, hcontains, hno, withParent]
        rw [hg] at hgrouped ⊢
        refine h.extend hnew ?_ ?_ hgrouped (fun {a b} ha => ?_) fun q => ?_
        · rw [h.rest]
          rfl
        · refine Table.ext ?_
          simp only [withParent, Table.map, Table.modify, List.map_map]
          refine List.map_congr_left fun e _ => ?_
          by_cases he : e.1 = x.property.id <;> simp [he, Property.unparented]
        · simp only [ChildOf, withParent, Table.get?_modify]
          cases g.properties.get? a <;> simp [ha]
        · obtain ⟨prop, hprop⟩ := Table.mem_keys.mp (h.keys ▸ hx)
          simp only [ChildOf, withParent, Table.get?_modify, hprop]
          constructor
          · rintro ⟨prop', hprop', hq⟩
            cases hprop'
            have hpq : some p = some q := by simpa using hq
            cases hpq
            exact ⟨hparent, h.keys ▸ hp, hpath⟩
          · rintro ⟨hq, -, -⟩
            cases hparent.symm.trans hq
            exact ⟨_, rfl, by simp⟩
    · have hcontains : g.properties.contains p = false := by
        rw [Table.mem_keys_iff] at hp
        simpa using hp
      have hg : (FlowGraph.restoreParent g x).1 = g := by
        simp [FlowGraph.restoreParent, hparent, hcontains]
      rw [hg]
      refine hsame fun q hq hkey => ?_
      cases hparent.symm.trans hq
      exact absurd (h.keys ▸ hkey) hp

/-! ## Lists of pins -/

/-- A table of records in which each record is changed in its own way. -/
theorem foldl_modify_records {κ α β : Type} [DecidableEq κ] (idOf : β → κ) (a : β → α)
    (f : β → α → α) {xs : List β} (h : (xs.map idOf).Nodup) :
    xs.foldl (fun t x => t.modify (idOf x) (f x)) (⟨xs.map fun x => (idOf x, a x)⟩ : Table κ α) =
      ⟨xs.map fun x => (idOf x, f x (a x))⟩ := by
  -- The records done are changed, those to come are as they were.
  suffices hgen : ∀ rest done : List β, done ++ rest = xs →
      rest.foldl (fun t x => t.modify (idOf x) (f x))
        (⟨(done.map fun x => (idOf x, f x (a x))) ++ rest.map fun x => (idOf x, a x)⟩ : Table κ α) =
      ⟨xs.map fun x => (idOf x, f x (a x))⟩ from hgen xs [] rfl
  intro rest
  induction rest with
  | nil =>
    intro done hdone
    rw [List.append_nil] at hdone
    simp [hdone]
  | cons x rest ih =>
    intro done hdone
    have hx : ∀ y ∈ done ++ rest, idOf y ≠ idOf x := by
      rw [← hdone, List.map_append, List.map_cons, List.nodup_middle, ← List.map_append] at h
      intro y hy heq
      exact (List.nodup_cons.mp h).1 (heq ▸ List.mem_map_of_mem hy)
    have hstep : (⟨(done.map fun x => (idOf x, f x (a x))) ++
        (x :: rest).map fun x => (idOf x, a x)⟩ : Table κ α).modify (idOf x) (f x) =
        ⟨((done ++ [x]).map fun x => (idOf x, f x (a x))) ++ rest.map fun x => (idOf x, a x)⟩ := by
      apply Table.ext
      simp only [Table.modify, List.map_append, List.map_map, List.map_cons, List.map_nil,
        List.append_assoc, List.singleton_append]
      congr 1
      · refine List.map_congr_left fun y hy => ?_
        simp [hx y (List.mem_append_left _ hy)]
      · simp only [if_true, List.cons.injEq, true_and]
        refine List.map_congr_left fun y hy => ?_
        simp [hx y (List.mem_append_right _ hy)]
    rw [List.foldl_cons, hstep]
    exact ih (done ++ [x]) (by rw [← hdone, List.append_assoc]; rfl)

/-- The node with those of the saved pins that are there and its own. -/
def listOwn (g : Graph) (x : NodeRecord) (n : Node) : Node :=
  { n with
    inputs := (x.inputs.map PinId.mk).filter (g.owns x.node.id .input)
    outputs := (x.outputs.map PinId.mk).filter (g.owns x.node.id .output) }

theorem pinsOf_listOwn (g : Graph) (x : NodeRecord) (n : Node) (d : Direction) :
    (g.listOwn x n).pinsOf d = ((x.listed d).map PinId.mk).filter (g.owns x.node.id d) := by
  cases d <;> rfl

theorem owns_iff {node : NodeId} {d : Direction} {p : PinId} :
    g.owns node d p = true ↔
      ∃ pin, g.pins.get? p = some pin ∧ pin.node = node ∧ pin.direction = d := by
  unfold owns
  cases g.pins.get? p <;> simp

/-- Once every node has its pins, an orphan is a pin that its node does not list. -/
theorem mem_orphans_iff {r : Records}
    (hnodes : g.nodes = ⟨r.nodes.map fun x => (x.node.id, g.listOwn x x.node)⟩) {p : PinId}
    {pin : Pin} (hp : g.pins.get? p = some pin) (hid : pin.id = p) :
    p ∈ g.orphans ↔ r.listsPin pin = false := by
  have hlisted : p ∈ g.nodes.values.flatMap Node.pins ↔ r.listsPin pin = true := by
    simp only [hnodes, Table.values, List.map_map, List.mem_flatMap, List.mem_map,
      Function.comp_apply, exists_exists_and_eq_and, Node.mem_pins_iff, pinsOf_listOwn,
      List.mem_filter, owns_iff, hp, Option.some.injEq, Records.listsPin, List.any_eq_true,
      Bool.and_eq_true, decide_eq_true_eq, List.contains_iff_mem]
    constructor
    · rintro ⟨x, hx, d, ⟨i, hi, rfl⟩, pin', rfl, hnode, rfl⟩
      exact ⟨x, hx, hnode.symm, hid ▸ hi⟩
    · rintro ⟨x, hx, hnode, hi⟩
      exact ⟨x, hx, _, ⟨_, hi, hid⟩, pin, rfl, hnode.symm, rfl⟩
  rw [mem_orphans, hlisted, Bool.not_eq_true]
  exact and_iff_right (Table.mem_keys_of_get? hp)

theorem owns_congr (h : g'.pins.map .unlinked = g.pins.map .unlinked) : g'.owns = g.owns := by
  have hview : ∀ (g : Graph) node d p, g.owns node d p =
      ((g.pins.map .unlinked).get? p).any fun pin => pin.node = node && pin.direction = d := by
    intro g node d p
    rw [Table.get?_map, Option.any_map]
    rfl
  funext node d p
  rw [hview, h, ← hview]

/-- Without the orphans the nodes list the same pins: those they listed are none of them. -/
theorem listOwn_without_orphans {r : Records}
    (hnodes : g.nodes = ⟨r.nodes.map fun x => (x.node.id, g.listOwn x x.node)⟩)
    (hkeyed : g.pins.Keyed Pin.id) {x : NodeRecord} (hx : x ∈ r.nodes) (n : Node) :
    Graph.listOwn { g with pins := g.pins.filter fun p => !g.orphans.contains p } x n =
      g.listOwn x n := by
  have hside : ∀ d, ((x.listed d).map PinId.mk).filter (Graph.owns
      { g with pins := g.pins.filter fun p => !g.orphans.contains p } x.node.id d) =
      ((x.listed d).map PinId.mk).filter (g.owns x.node.id d) := by
    intro d
    refine List.filter_congr fun p hp => ?_
    rw [Bool.eq_iff_iff, owns_iff, owns_iff]
    constructor
    · rintro ⟨pin, hpin, hrest⟩
      exact ⟨pin, (Table.get?_filter_eq_some.mp hpin).1, hrest⟩
    · rintro ⟨pin, hpin, hnode, hd⟩
      refine ⟨pin, Table.get?_filter_eq_some.mpr ⟨hpin, ?_⟩, hnode, hd⟩
      have hid := hkeyed.get?_id hpin
      obtain ⟨i, hi, rfl⟩ := List.mem_map.mp hp
      have hlists : r.listsPin pin = true := by
        simp only [Records.listsPin, List.any_eq_true, Bool.and_eq_true, decide_eq_true_eq,
          List.contains_iff_mem]
        exact ⟨x, hx, hnode.symm, by rw [hid, hd]; exact hi⟩
      have hkept : (⟨i⟩ : PinId) ∉ g.orphans := by
        rw [mem_orphans_iff hnodes hpin hid, hlists]
        simp
      simpa using hkept
  have hin := hside .input
  have hout := hside .output
  simp only [NodeRecord.listed] at hin hout
  simp only [listOwn, hin, hout]

theorem pins_without_orphans {r : Records}
    (hnodes : g.nodes = ⟨r.nodes.map fun x => (x.node.id, g.listOwn x x.node)⟩)
    (hpins : g.pins = ⟨r.pins.map fun y => (y.pin.id, y.pin)⟩) (hkeyed : g.pins.Keyed Pin.id) :
    (g.pins.filter fun p => !g.orphans.contains p) =
      ⟨(r.pins.filter fun y => r.listsPin y.pin).map fun y => (y.pin.id, y.pin)⟩ := by
  apply Table.ext
  have hmem : ∀ y ∈ r.pins, g.pins.get? y.pin.id = some y.pin := by
    intro y hy
    refine hkeyed.get?_of_mem (e := (y.pin.id, y.pin)) ?_
    rw [hpins]
    exact List.mem_map_of_mem hy
  conv_lhs => rw [hpins]
  simp only [Table.filter, List.filter_map]
  congr 1
  refine List.filter_congr fun y hy => ?_
  have horphan := mem_orphans_iff hnodes (hmem y hy) rfl
  cases hlists : r.listsPin y.pin with
  | true => simp [horphan, hlists]
  | false => simp [horphan, hlists]

theorem restorePins_all (xs : List NodeRecord) : ∀ start : Restored,
    (restoreEach restorePins xs start).1 =
      { start.1 with
        nodes := xs.foldl (fun t x => t.modify x.node.id (start.1.listOwn x)) start.1.nodes } := by
  induction xs with
  | nil => exact fun _ => rfl
  | cons x xs ih =>
    intro start
    refine (ih _).trans ?_
    simp only [restorePins, ownPins, List.partition_eq_filter_filter, List.foldl_cons]
    rfl

/-! ## Links -/

/-- Whether a link is admitted does not depend on what the pins list. -/
theorem Admits.congr {before : List Link} {l : Link} (h : g.Admits before l)
    (hpins : g'.pins.map .unlinked = g.pins.map .unlinked)
    (hkeys : ∀ m ∈ before, m.id ∈ g'.links.keys → m.id ∈ g.links.keys) : g'.Admits before l := by
  obtain ⟨⟨a, b, ha, hb, hab⟩, hfree⟩ := h
  obtain ⟨a', ha', heqa⟩ := pin_of_unlinked hpins.symm ha
  obtain ⟨b', hb', heqb⟩ := pin_of_unlinked hpins.symm hb
  refine ⟨⟨a', b', ha', hb', ?_⟩, fun m hm hkey p pin' hp hd hl => ?_⟩
  · rwa [← Pin.canConnect_unlinked, heqa, heqb, Pin.canConnect_unlinked] at hab
  · obtain ⟨pin, hpin, heq⟩ := pin_of_unlinked hpins hp
    have hdirection : pin'.direction = pin.direction := congrArg (·.direction) heq
    exact hfree m hm (hkeys m hm hkey) p pin hpin (hdirection ▸ hd) hl

/-- The graph after these links were restored, as far as they were. -/
structure LinksSoFar (start : Graph) (done : List Link) (g : Graph) : Prop where
  rest : g = { start with pins := g.pins, links := g.links }
  bare : g.pins.map .unlinked = start.pins.map .unlinked
  links : g.links = ⟨(done.filter (·.id ∈ g.links.keys)).map fun l => (l.id, l)⟩
  linked : ∀ {before l}, before ++ [l] <+: done → (l.id ∈ g.links.keys ↔ g.Admits before l)

/-- The links of the graph are those that were kept. -/
theorem LinksSoFar.mem_values {done : List Link} (h : LinksSoFar start done g) {l : Link} :
    l ∈ g.links.values ↔ l ∈ done ∧ l.id ∈ g.links.keys := by
  have hvalues : g.links.values = done.filter (·.id ∈ g.links.keys) := by
    conv_lhs => rw [h.links]
    simp [Table.values, Function.comp_def]
  rw [hvalues, List.mem_filter, decide_eq_true_iff]

/-- Restoring a link adds it exactly if it is admitted after those before. -/
theorem LinksSoFar.restoreLink_graph {done : List Link} (h : LinksSoFar start done g)
    (hg : g.Intact) (l : Link) :
    (g.Admits done l → (restoreLink g l).1 = addLink l g) ∧
      (¬ g.Admits done l → (restoreLink g l).1 = g) := by
  constructor
  · rintro ⟨⟨a, b, ha, hb, hab⟩, hfree⟩
    have hnil : ∀ {p pin}, g.pins.get? p = some pin → pin.direction = .input →
        l.involves p = true → pin.links = [] := by
      intro p pin hp hd hl
      rw [hg.entered hp]
      refine List.eq_nil_iff_forall_not_mem.mpr fun i hi => ?_
      obtain ⟨m, hm, hi⟩ := (mem_linksAt_iff hg.links).mp hi
      obtain ⟨hdone, hkey⟩ := h.mem_values.mp (Table.mem_values_of_get? hm)
      rw [hfree m hdone hkey p pin hp hd hl] at hi
      cases hi
    have hstart : a.direction = .input → a.links = [] := fun hd =>
      hnil ha hd (Link.involves_iff.mpr (.inl rfl))
    have hfinish : b.direction = .input → b.links = [] := fun hd =>
      hnil hb hd (Link.involves_iff.mpr (.inr rfl))
    have hany : ([a, b].any fun pin => pin.direction = .input && pin.isConnected) = false := by
      simp only [List.any_cons, List.any_nil, Bool.or_false, Bool.or_eq_false_iff,
        Bool.and_eq_false_imp, decide_eq_true_eq]
      exact ⟨fun hd => by simp [Pin.isConnected, hstart hd],
        fun hd => by simp [Pin.isConnected, hfinish hd]⟩
    simp [restoreLink, ha, hb, hab, hany]
  · intro hno
    rcases restoreLink_cases g l with hsame | ⟨a, b, ha, hb, hab, hfree, -⟩
    · exact hsame
    · refine absurd ⟨⟨a, b, ha, hb, hab⟩, fun m hm hkey p pin hp hd hl => ?_⟩ hno
      have hpin : pin ∈ [a, b] := by
        rcases Link.involves_iff.mp hl with rfl | rfl
        · cases ha.symm.trans hp
          exact List.mem_cons_self
        · cases hb.symm.trans hp
          exact List.mem_cons_of_mem _ List.mem_cons_self
      have hat : g.linksAt p = [] := (hg.entered hp).symm.trans (hfree pin hpin hd)
      rw [← Bool.not_eq_true]
      intro hi
      have hget := hg.links.get?_of_mem_values (h.mem_values.mpr ⟨hm, hkey⟩)
      have hmem := (mem_linksAt_iff hg.links).mpr ⟨m, hget, hi⟩
      rw [hat] at hmem
      cases hmem

theorem LinksSoFar.restoreLink {done : List Link} (h : LinksSoFar start done g) (hg : g.Intact)
    {l : Link} (hnew : l.id ∉ done.map (·.id)) :
    LinksSoFar start (done ++ [l]) (restoreLink g l).1 := by
  have hkeys : ∀ i ∈ g.links.keys, i ∈ done.map (·.id) := by
    intro i hi
    rw [← hg.links.map_values] at hi
    obtain ⟨m, hm, rfl⟩ := List.mem_map.mp hi
    exact List.mem_map_of_mem (h.mem_values.mp hm).1
  have hfresh : l.id ∉ g.links.keys := fun hm => hnew (hkeys _ hm)
  obtain ⟨hadd, hsame⟩ := h.restoreLink_graph hg l
  by_cases hadmits : g.Admits done l
  · rw [hadd hadmits]
    have hbare : (addLink l g).pins.map .unlinked = g.pins.map .unlinked := by
      have hmodify : ∀ (t : Table PinId Pin) k,
          (t.modify k (·.connect l.id)).map .unlinked = t.map .unlinked := by
        intro t k
        apply Table.ext
        simp only [Table.map, Table.modify, List.map_map]
        refine List.map_congr_left fun e _ => ?_
        obtain ⟨links, hlinks⟩ := e.2.connect_eq l.id
        by_cases he : e.1 = k <;> simp [he, hlinks, Pin.unlinked]
      exact (hmodify _ _).trans (hmodify _ _)
    have hafter : ∀ i, i ∈ (addLink l g).links.keys ↔ i ∈ g.links.keys ∨ i = l.id := by
      intro i
      simp [addLink, Table.keys_insert, hfresh]
    have hdone : ∀ m ∈ done, m.id ∈ (addLink l g).links.keys ↔ m.id ∈ g.links.keys := by
      intro m hm
      rw [hafter, or_iff_left]
      exact fun heq => hnew (heq ▸ List.mem_map_of_mem hm)
    refine ⟨?_, hbare.trans h.bare, ?_, fun {before m} hm => ?_⟩
    · rw [h.rest]
      rfl
    · apply Table.ext
      have hfilter : (done ++ [l]).filter (·.id ∈ (addLink l g).links.keys) =
          done.filter (·.id ∈ g.links.keys) ++ [l] := by
        rw [List.filter_append]
        congr 1
        · exact List.filter_congr fun m hm => decide_eq_decide.mpr (hdone m hm)
        · simp [hafter]
      rw [hfilter, List.map_append]
      show (g.links.insert l.id l).entries = _
      rw [Table.entries_insert_of_not_mem hfresh]
      conv_lhs => rw [h.links]
      rfl
    · rcases List.prefix_concat_iff.mp hm with heq | hm
      · obtain ⟨rfl, hml⟩ := List.append_inj' heq rfl
        cases hml
        refine iff_of_true ((hafter _).mpr (.inr rfl)) ?_
        exact hadmits.congr hbare fun m hm => (hdone m hm).mp
      · have hsub : ∀ m' ∈ before, m' ∈ done := fun m' hm' =>
          hm.subset (List.mem_append_left _ hm')
        rw [hdone m (hm.subset (by simp)), h.linked hm]
        exact ⟨fun ha => ha.congr hbare fun m' hm' => (hdone m' (hsub m' hm')).mp,
          fun ha => ha.congr hbare.symm fun m' hm' => (hdone m' (hsub m' hm')).mpr⟩
  · rw [hsame hadmits]
    refine ⟨h.rest, h.bare, ?_, fun {before m} hm => ?_⟩
    · rw [List.filter_append, List.filter_cons_of_neg (by simpa using hfresh), List.filter_nil,
        List.append_nil]
      exact h.links
    · rcases List.prefix_concat_iff.mp hm with heq | hm
      · obtain ⟨rfl, hml⟩ := List.append_inj' heq rfl
        cases hml
        exact iff_of_false hfresh hadmits
      · exact h.linked hm

/-! ## Bindings -/

theorem Node.boundAmong_eq_self {ids : List PropertyId} {n : Node}
    (h : ∀ b p, n.behavior = some b → b.bound = some p → p ∈ ids) : n.boundAmong ids = n := by
  cases hb : n.behavior with
  | none =>
    rw [Node.boundAmong, hb, Option.map_none, ← hb]
  | some b =>
    have hbound : b.boundAmong ids = b :=
      Behavior.keepBound_eq_self fun p hp => decide_eq_true (h b p hb hp)
    rw [Node.boundAmong, hb, Option.map_some, hbound, ← hb]

/-- A binding to a property that is not there is taken off its node. -/
theorem restoreBinding_graph (h : g.nodes.keys.Nodup) (id : NodeId) :
    (restoreBinding g id).1 =
      { g with nodes := g.nodes.modify id (.boundAmong g.properties.keys) } := by
  have hsame : (∀ n b p, g.nodes.get? id = some n → n.behavior = some b → b.bound = some p →
      p ∈ g.properties.keys) → g.nodes.modify id (.boundAmong g.properties.keys) = g.nodes := by
    intro hkept
    exact Table.modify_eq_self h fun n hn => Node.boundAmong_eq_self fun b p => hkept n b p hn
  unfold restoreBinding
  cases hfound : ((g.nodes.get? id).bind (·.behavior)).bind Behavior.bound with
  | none =>
    rw [hsame fun n b p hn hb hp => by simp [hn, hb, hp] at hfound]
  | some p =>
    obtain ⟨b, hb, hp⟩ := Option.bind_eq_some_iff.mp hfound
    obtain ⟨n, hn, hb⟩ := Option.bind_eq_some_iff.mp hb
    by_cases hkey : p ∈ g.properties.keys
    · rw [hsame fun n' b' p' hn' hb' hp' => by
        cases hn.symm.trans hn'
        cases hb.symm.trans hb'
        cases hp.symm.trans hp'
        exact hkey]
      simp [(Table.mem_keys_iff _ _).mp hkey]
    · have hcontains : g.properties.contains p = false := by
        rw [Table.mem_keys_iff] at hkey
        simpa using hkey
      simp only [hcontains, Bool.false_eq_true, if_false]
      congr 1
      refine Table.modify_congr h fun n' hn' => ?_
      cases hn.symm.trans hn'
      have hunbound : b.boundAmong g.properties.keys = b.unbind p :=
        Behavior.keepBound_eq_unbind hp (decide_eq_false hkey)
      simp [Node.boundAmong, hb, hunbound]

theorem restoreBindings_all (ks : List NodeId) : ∀ start : Restored, start.1.nodes.keys.Nodup →
    (restoreEach restoreBinding ks start).1 =
      { start.1 with
        nodes := ks.foldl (fun t k => t.modify k (.boundAmong start.1.properties.keys))
          start.1.nodes } := by
  induction ks with
  | nil => exact fun _ _ => rfl
  | cons k ks ih =>
    intro start h
    have hstep := restoreBinding_graph h k
    refine (ih ((restoreBinding start.1 k).1, start.2 ++ (restoreBinding start.1 k).2) ?_).trans ?_
    · rw [hstep]
      simpa using h
    · simp only [hstep, List.foldl_cons]

end Graph

/-! ## All records -/

theorem not_mem_of_earlier {α β : Type} {f : α → β} {xs before : List α} {x : α}
    (h : (xs.map f).Nodup) (hx : before ++ [x] <+: xs) : f x ∉ before.map f := by
  have hnodup := h.sublist (hx.map f).sublist
  rw [List.map_append, List.nodup_append] at hnodup
  exact fun hm => hnodup.2.2 _ hm _ (by simp) rfl

variable {r : Records}

theorem Records.Fresh.parentsSoFar (hf : r.Fresh) (h : Takes [] r.allIds) (name : String)
    (registry : Registry) :
    ParentsSoFar (r.entities name registry) r.properties
      (restoreEach restoreParent r.properties (r.entities name registry, [])).1 := by
  have hstart := hf.loading h name registry
  have hfree : ∀ a b, ¬ (r.entities name registry).ChildOf a b := by
    rintro a b ⟨p, hp, hparent⟩
    rw [entities_eq h] at hp
    obtain ⟨x, hx, -, rfl⟩ := mem_of_get?_list hp
    rw [hf.properties x hx] at hparent
    cases hparent
  refine restoreEach_steps (Q := fun done s => ParentsSoFar (r.entities name registry) done s.1)
    restoreParent r.properties ?_ fun done x s hdone hq => ?_
  · exact ⟨rfl, rfl, hstart.grouped, fun hab => absurd hab (hfree _ _), fun hx => by simp at hx⟩
  · refine hq.restoreParent ?_ (not_mem_of_earlier h.nodup_properties hdone)
    rw [entities_eq h]
    simp only [Table.keys, List.map_map, Function.comp_def]
    exact List.mem_map_of_mem (hdone.subset (by simp))

/-- The graph before its links are restored: every node has its pins and there are no others. -/
def Records.owned (r : Records) (start : Graph) : Restored :=
  let nodes := restoreEach restorePins r.nodes (restoreEach restoreParent r.properties (start, []))
  restoreEach dropOrphan nodes.1.orphans nodes

/-- What is settled by then. -/
structure Records.Placed (r : Records) (start g : Graph) : Prop where
  parents : ∃ g₀, ParentsSoFar start r.properties g₀ ∧ g.properties = g₀.properties
  nodes : g.nodes = ⟨r.nodes.map fun x => (x.node.id, g.listOwn x x.node)⟩
  pins : g.pins = ⟨(r.pins.filter fun y => r.listsPin y.pin).map fun y => (y.pin.id, y.pin)⟩
  links : g.links = {}

theorem Records.Fresh.loading_listed (hf : r.Fresh) (h : Takes [] r.allIds) (name : String)
    (registry : Registry) :
    (restoreEach restorePins r.nodes
      (restoreEach restoreParent r.properties (r.entities name registry, []))).1.Loading
      (r.properties.map (·.property.id.number) ++ r.nodes.map (·.node.id.number) ++
        r.pins.map (·.pin.id.number)) :=
  restoreEach_keeps restorePins (fun _ x hq => hq.restorePins x) r.nodes
    (restoreEach_keeps restoreParent (fun _ x hq => hq.restoreParent x) r.properties
      (hf.loading h name registry))

theorem Records.Fresh.placed (hf : r.Fresh) (h : Takes [] r.allIds) (name : String)
    (registry : Registry) :
    r.Placed (r.entities name registry) (r.owned (r.entities name registry)).1 := by
  have hloading := hf.loading_listed h name registry
  have hparents := hf.parentsSoFar h name registry
  have hentities := entities_eq h name registry
  simp only [Records.owned]
  generalize r.entities name registry = start at *
  generalize restoreEach restoreParent r.properties (start, []) = parents at *
  have hbefore : parents.1.nodes = ⟨r.nodes.map fun x => (x.node.id, x.node)⟩ := by
    rw [hparents.rest, hentities]
  have hgraph : (restoreEach restorePins r.nodes parents).1 =
      { parents.1 with
        nodes := ⟨r.nodes.map fun x => (x.node.id, parents.1.listOwn x x.node)⟩ } := by
    rw [restorePins_all, hbefore]
    exact congrArg (fun t => { parents.1 with nodes := t })
      (foldl_modify_records (fun x : NodeRecord => x.node.id) (·.node) parents.1.listOwn
        h.nodup_nodes)
  generalize restoreEach restorePins r.nodes parents = nodes at *
  have hnodes : nodes.1.nodes = ⟨r.nodes.map fun x => (x.node.id, nodes.1.listOwn x x.node)⟩ := by
    rw [hgraph]
    rfl
  have hpins : nodes.1.pins = ⟨r.pins.map fun y => (y.pin.id, y.pin)⟩ := by
    rw [hgraph, hparents.rest, hentities]
  rw [dropOrphans_graph]
  refine ⟨⟨parents.1, hparents, by rw [hgraph]⟩, ?_,
    pins_without_orphans hnodes hpins hloading.pins, hloading.links⟩
  refine hnodes.trans (congrArg Table.mk (List.map_congr_left fun x hx => ?_))
  rw [listOwn_without_orphans hnodes hloading.pins hx]

/-- All links, on top of that. -/
theorem Records.Fresh.linksSoFar (hf : r.Fresh) (h : Takes [] r.allIds) (name : String)
    (registry : Registry) :
    LinksSoFar (r.owned (r.entities name registry)).1 r.links
      (restoreEach restoreLink r.links (r.owned (r.entities name registry))).1 := by
  have hids := h.distinct
  rw [Records.allIds] at hids
  have hloading := hf.loading_listed h name registry
  have hrestorable := hloading.dropOrphans
    (restoreEach restorePins r.nodes
      (restoreEach restoreParent r.properties (r.entities name registry, []))).2
  have hlinks := (hf.placed h name registry).links
  change (r.owned (r.entities name registry)).1.Restorable _ at hrestorable
  generalize r.owned (r.entities name registry) = owned at *
  have hlinkIds : (r.links.map (·.id)).Nodup := nodup_ids (List.nodup_append.mp hids).2.1
  refine (restoreEach_steps (Q := fun done s => s.1.Restorable
      ((done.map (·.id.number)).reverse ++ _) ∧ LinksSoFar owned.1 done s.1) restoreLink r.links
    ⟨hrestorable, rfl, rfl, by rw [hlinks]; rfl, fun hl => by simp at hl⟩
    fun done l s hdone hq => ⟨?_, ?_⟩).2
  · have hsofar : done.map (·.id.number) ++ [l.id.number] <+: r.links.map (·.id.number) := by
      simpa using hdone.map (·.id.number)
    have hnext := hq.1.restoreLink (not_mem_before hids hsofar)
    rwa [List.map_append, List.reverse_append]
  · exact hq.2.restoreLink hq.1.intact (not_mem_of_earlier hlinkIds hdone)

/-- The last two stages: the saved lists of links are only looked at, and bindings are dropped. -/
theorem restore_graph (start : Graph)
    (h : (restoreEach restoreLink r.links (r.owned start)).1.nodes.keys.Nodup) :
    (r.restore start).1 =
      { (restoreEach restoreLink r.links (r.owned start)).1 with
        nodes := (restoreEach restoreLink r.links (r.owned start)).1.nodes.map
          (.boundAmong (restoreEach restoreLink r.links (r.owned start)).1.properties.keys) } := by
  have hrestore : (r.restore start).1 = (restoreEach restoreBinding
      (restoreEach checkLinks r.pins (restoreEach restoreLink r.links (r.owned start))).1.nodes.keys
      (restoreEach checkLinks r.pins (restoreEach restoreLink r.links (r.owned start)))).1 := rfl
  rw [hrestore]
  generalize restoreEach restoreLink r.links (r.owned start) = linked at h ⊢
  have hchecked : (restoreEach checkLinks r.pins linked).1 = linked.1 :=
    restoreEach_keeps (Q := fun g => g = linked.1) checkLinks (fun _ _ hq => hq) _ rfl
  rw [restoreBindings_all _ _ (by rwa [hchecked]), hchecked, Table.foldl_modify_keys _ h]

/-- Whatever the records refer to, restoring keeps exactly what resolves. -/
theorem Records.Fresh.survives (hf : r.Fresh) (h : Takes [] r.allIds) (name : String)
    (registry : Registry) : r.Survives (r.restore (r.entities name registry)).1 := by
  have hplaced := hf.placed h name registry
  have hlinks := hf.linksSoFar h name registry
  have hentities := entities_eq h name registry
  have hrestore := restore_graph (r := r) (r.entities name registry)
  generalize r.owned (r.entities name registry) = owned at *
  generalize restoreEach restoreLink r.links owned = linked at *
  obtain ⟨⟨g₀, hparents, hproperties⟩, hnodes, hpins, -⟩ := hplaced
  have hlinkedNodes : linked.1.nodes = owned.1.nodes := by rw [hlinks.rest]
  have hlinkedProperties : linked.1.properties = g₀.properties := by rw [hlinks.rest, hproperties]
  have hkeys : linked.1.properties.keys = r.properties.map (·.property.id) := by
    rw [hlinkedProperties, hparents.keys, hentities]
    simp [Table.keys, Function.comp_def]
  have howns : linked.1.owns = owned.1.owns := owns_congr hlinks.bare
  rw [hrestore ?nodup]
  case nodup =>
    rw [hlinkedNodes, hnodes]
    simpa [Table.keys, Function.comp_def] using h.nodup_nodes
  constructor
  case properties =>
    show linked.1.properties.map .unparented = _
    rw [hlinkedProperties, hparents.bare, hentities]
    apply Table.ext
    simp only [Table.map, List.map_map]
    refine List.map_congr_left fun x hx => ?_
    simp [Property.unparented, ← hf.properties x hx]
  case parents =>
    intro before x hx q
    have hchild : linked.1.ChildOf = g₀.ChildOf := by
      funext a b
      rw [ChildOf, ChildOf, hlinkedProperties]
    have hamong : linked.1.ChildAmong = g₀.ChildAmong := by
      funext ids a b
      rw [ChildAmong, ChildAmong, hchild]
    show linked.1.ChildOf x.property.id q ↔ x.parent = some q ∧ _ ∧
      ¬ Relation.ReflTransGen (linked.1.ChildAmong _) q x.property.id
    rw [hchild, hamong, hparents.kept hx q, ← hparents.keys, ← hlinkedProperties, hkeys]
  case nodes =>
    show linked.1.nodes.map _ = _
    rw [hlinkedNodes, hnodes, hkeys]
    apply Table.ext
    simp only [Table.map, List.map_map]
    refine List.map_congr_left fun x _ => ?_
    show (x.node.id, (owned.1.listOwn x x.node).boundAmong _) = (x.node.id, _)
    rw [listOwn, ← howns]
    rfl
  case bindings =>
    intro x hx q
    have hnode : linked.1.nodes.get? x.node.id = some (owned.1.listOwn x x.node) := by
      rw [hlinkedNodes, hnodes]
      refine (Table.get?_eq_some_iff ?_ _ _).mpr (List.mem_map.mpr ⟨x, hx, rfl⟩)
      simpa [Table.keys, Function.comp_def] using h.nodup_nodes
    show ((linked.1.nodes.map _).get? x.node.id).bind Node.bound = some q ↔ _
    rw [Table.get?_map, hnode, hkeys]
    exact Node.bound_boundAmong
  case pins =>
    show linked.1.pins.map .unlinked = _
    rw [hlinks.bare, hpins]
    apply Table.ext
    simp only [Table.map, List.map_map]
    refine List.map_congr_left fun y hy => ?_
    simp [Pin.unlinked, ← hf.pins y (List.mem_of_mem_filter hy)]
  case links => exact hlinks.links
  case linked => exact fun before l hl => hlinks.linked hl

/-! ## Saved lists of links -/

/-- The same record but for the list of links. -/
def Document.SameButLinks (d d' : Document) : Prop :=
  ∀ key, key ≠ "links" → d'.get? key = d.get? key

/-- The same document but for the lists of links in the records of its pins. -/
structure GraphDocument.SameButLinkLists (d d' : GraphDocument) : Prop where
  version : d'.version = d.version
  name : d'.name = d.name
  nextId : d'.nextId = d.nextId
  nodes : d'.nodes = d.nodes
  links : d'.links = d.links
  properties : d'.properties = d.properties
  pins : List.Forall₂ Document.SameButLinks d.pins d'.pins

theorem Document.SameButLinks.readValue {d d' : Document} (h : d.SameButLinks d') :
    d'.readValue = d.readValue := by
  simp only [Document.readValue, Document.require, h "type" (by decide), h "size" (by decide),
    h "value" (by decide)]

theorem PinRecord.read_sameButLinks {d d' : Document} (h : d.SameButLinks d') {y y' : PinRecord}
    (hy : PinRecord.read d = .ok y) (hy' : PinRecord.read d' = .ok y') : y'.pin = y.pin := by
  simp only [PinRecord.read, bind_eq_ok, h.readValue, Document.require, h "id" (by decide),
    h "node" (by decide), h "name" (by decide), h "direction" (by decide)] at hy hy'
  obtain ⟨id, hid, node, hnode, name, hname, direction, hdirection, value, hvalue,
    links, -, hy⟩ := hy
  obtain ⟨id', hid', node', hnode', name', hname', direction', hdirection', value', hvalue',
    links', -, hy'⟩ := hy'
  cases hid.symm.trans hid'
  cases hnode.symm.trans hnode'
  cases hname.symm.trans hname'
  cases hdirection.symm.trans hdirection'
  cases hvalue.symm.trans hvalue'
  cases hy
  cases hy'
  rfl

/-- A document is read in one way only. -/
theorem forall₂_read_unique {α : Type} {read : Document → Except DocumentError α}
    {ds : List Document} {as as' : List α} (h : List.Forall₂ (fun d a => read d = .ok a) ds as)
    (h' : List.Forall₂ (fun d a => read d = .ok a) ds as') : as' = as := by
  induction h generalizing as' with
  | nil => cases h'; rfl
  | cons ha _ ih =>
    cases h' with
    | cons ha' h' =>
      cases ha.symm.trans ha'
      rw [ih h']

theorem PinRecord.reads_sameButLinks {ds ds' : List Document}
    (h : List.Forall₂ Document.SameButLinks ds ds') {ys ys' : List PinRecord}
    (hys : List.Forall₂ (fun d y => PinRecord.read d = .ok y) ds ys)
    (hys' : List.Forall₂ (fun d y => PinRecord.read d = .ok y) ds' ys') :
    ys'.map (·.pin) = ys.map (·.pin) := by
  induction h generalizing ys ys' with
  | nil => cases hys; cases hys'; rfl
  | cons hd _ ih =>
    cases hys with
    | cons hy hys =>
      cases hys' with
      | cons hy' hys' =>
        rw [List.map_cons, List.map_cons, PinRecord.read_sameButLinks hd hy hy', ih hys hys']

/-- The same records but for the saved lists of links. -/
structure Records.SameButLinkLists (r r' : Records) : Prop where
  properties : r'.properties = r.properties
  nodes : r'.nodes = r.nodes
  pins : r'.pins.map (·.pin) = r.pins.map (·.pin)
  links : r'.links = r.links

theorem GraphDocument.SameButLinkLists.records {registry : Registry} {d d' : GraphDocument}
    (h : d.SameButLinkLists d') {r r' : Records} (hr : d.readAll registry = .ok r)
    (hr' : d'.readAll registry = .ok r') : r.SameButLinkLists r' := by
  obtain ⟨hproperties, hnodes, hpins, hlinks, -, -⟩ := readAll_eq_ok.mp hr
  obtain ⟨hproperties', hnodes', hpins', hlinks', -, -⟩ := readAll_eq_ok.mp hr'
  rw [h.properties] at hproperties'
  rw [h.nodes] at hnodes'
  rw [h.links] at hlinks'
  exact ⟨forall₂_read_unique hproperties hproperties', forall₂_read_unique hnodes hnodes',
    PinRecord.reads_sameButLinks h.pins hpins hpins', forall₂_read_unique hlinks hlinks'⟩

namespace Records.SameButLinkLists

variable {r r' : Records}

theorem allIds (h : r.SameButLinkLists r') : r'.allIds = r.allIds := by
  have hpins : ∀ r : Records,
      r.pins.map (·.pin.id.number) = (r.pins.map (·.pin)).map (·.id.number) := fun r => by
    rw [List.map_map]
    rfl
  rw [Records.allIds, Records.allIds, h.properties, h.nodes, h.links, hpins r', h.pins, ← hpins]

theorem entities (h : r.SameButLinkLists r') (name : String) (registry : Registry) :
    r'.entities name registry = r.entities name registry := by
  have hpins : ∀ r : Records, r.pins.foldl (fun t y => t.insert y.pin.id y.pin) {} =
      (r.pins.map (·.pin)).foldl (fun t pin => t.insert pin.id pin) ({} : Table PinId Pin) :=
    fun r => by rw [List.foldl_map]
  rw [Records.entities, Records.entities, h.properties, h.nodes, hpins r', h.pins, ← hpins]

theorem owned (h : r.SameButLinkLists r') (start : Graph) : r'.owned start = r.owned start := by
  rw [Records.owned, Records.owned, h.properties, h.nodes]

theorem restore (h : r.SameButLinkLists r') (start : Graph)
    (hnodup : (restoreEach restoreLink r.links (r.owned start)).1.nodes.keys.Nodup) :
    (r'.restore start).1 = (r.restore start).1 := by
  have hsame : restoreEach restoreLink r'.links (r'.owned start) =
      restoreEach restoreLink r.links (r.owned start) := by
    rw [h.links, h.owned]
  rw [restore_graph start hnodup, restore_graph start (hsame ▸ hnodup), hsame]

end Records.SameButLinkLists

/-- Of a document that can be loaded, the graph has exactly what resolves, whatever the saved lists
    of links are. -/
theorem load_keeps_what_resolves {registry : Registry} {d : GraphDocument} {g : Graph}
    {repairs : List Repair} (h : d.load registry = .ok (g, repairs)) :
    (∃ r, d.readAll registry = .ok r ∧ r.Survives g) ∧
      ∀ d' g' repairs', d.SameButLinkLists d' → d'.load registry = .ok (g', repairs') → g' = g := by
  obtain ⟨-, -, r, hr, rfl, -⟩ := load_eq_ok.mp h
  have hfresh := readAll_fresh hr
  obtain ⟨-, -, -, -, htakes, hids⟩ := readAll_eq_ok.mp hr
  constructor
  · obtain ⟨hproperties, hparents, hnodes, hbindings, hpins, hlinks, hlinked⟩ :=
      hfresh.survives htakes d.name registry
    exact ⟨r, hr, hproperties, hparents, hnodes, hbindings, hpins, hlinks, hlinked⟩
  · intro d' g' repairs' hsame h'
    obtain ⟨-, -, r', hr', rfl, -⟩ := load_eq_ok.mp h'
    obtain ⟨-, -, -, -, -, hids'⟩ := readAll_eq_ok.mp hr'
    have hrecords := hsame.records hr hr'
    have hnodup : (restoreEach restoreLink r.links
        (r.owned (r.entities d.name registry))).1.nodes.keys.Nodup := by
      have hplaced := hfresh.placed htakes d.name registry
      rw [(hfresh.linksSoFar htakes d.name registry).rest]
      show (r.owned _).1.nodes.keys.Nodup
      rw [hplaced.nodes]
      simpa [Table.keys, Function.comp_def] using htakes.nodup_nodes
    have hsameIds : r'.ids = r.ids := by rw [hids', hids, hrecords.allIds]
    rw [hsame.name, hsame.nextId, hrecords.entities, hrecords.restore _ hnodup, hsameIds]

/-- A document in which most references are bad: the properties are each other's parent, of two
    variables one is bound to a third property, a node lists a pin of another and leaves one of its
    own out, and of three links two end in the same input and one at the pin left out.  The pin of
    the constant is saved with these links. -/
def frayed (links : List LinkId) : GraphDocument where
  name := "frayed"
  properties := [
    (Property.mk ⟨1⟩ "left" (.float 0) (some ⟨2⟩)).toDocument,
    (Property.mk ⟨2⟩ "right" (.float 0) (some ⟨1⟩)).toDocument]
  nodes := [
    { Node.ofBehavior ⟨3⟩ "one" (.floatConstant 1) with outputs := [⟨5⟩, ⟨6⟩] }.toDocument,
    { Node.ofBehavior ⟨4⟩ "sum" (.arithmetic .add) with inputs := [⟨6⟩, ⟨9⟩] }.toDocument,
    (Node.ofBehavior ⟨13⟩ "read" (.getVariable (some ⟨14⟩))).toDocument,
    (Node.ofBehavior ⟨15⟩ "write" (.setVariable (some ⟨1⟩))).toDocument]
  pins := [
    { Pin.ofSpec ⟨5⟩ ⟨3⟩ ⟨"Value", .output, .float 0⟩ with links := links }.toDocument,
    (Pin.ofSpec ⟨6⟩ ⟨4⟩ ⟨"A", .input, .float 0⟩).toDocument,
    (Pin.ofSpec ⟨7⟩ ⟨4⟩ ⟨"B", .input, .float 0⟩).toDocument]
  links := [
    (Link.mk ⟨10⟩ ⟨5⟩ ⟨6⟩).toDocument,
    (Link.mk ⟨11⟩ ⟨5⟩ ⟨6⟩).toDocument,
    (Link.mk ⟨12⟩ ⟨5⟩ ⟨7⟩).toDocument]

theorem Pin.toDocument_sameButLinks (p : Pin) (links : List LinkId) :
    p.toDocument.SameButLinks { p with links := links }.toDocument := by
  intro key hkey
  simp [toDocument, hkey]

theorem frayed_sameButLinkLists (links links' : List LinkId) :
    (frayed links).SameButLinkLists (frayed links') where
  version := rfl
  name := rfl
  nextId := rfl
  nodes := rfl
  links := rfl
  properties := rfl
  pins := .cons (Pin.toDocument_sameButLinks _ links')
    (.cons (fun _ _ => rfl) (.cons (fun _ _ => rfl) .nil))

theorem frayed_keeps_one_link :
    ∃ g r, (frayed [⟨10⟩, ⟨11⟩]).load .builtin = .ok (g, r) ∧
      g.properties.values.map (·.parent) = [some ⟨2⟩, none] ∧ g.pins.keys = [⟨5⟩, ⟨6⟩] ∧
      g.nodes.values.map (·.pins) = [[⟨5⟩], [⟨6⟩], [], []] ∧ g.links.keys = [⟨10⟩] ∧
      g.boundTo ⟨13⟩ = none ∧ g.boundTo ⟨15⟩ = some ⟨1⟩ ∧
      (∃ r, (frayed [⟨10⟩, ⟨11⟩]).readAll .builtin = .ok r ∧
        r.nodes.map (·.node.bound) = [none, none, some ⟨14⟩, some ⟨1⟩] ∧ r.Survives g) ∧
      ∀ links g' r', (frayed links).load .builtin = .ok (g', r') → g' = g := by
  have hload : (frayed [⟨10⟩, ⟨11⟩]).load .builtin = .ok (_, _) := rfl
  have hread : (frayed [⟨10⟩, ⟨11⟩]).readAll .builtin = .ok _ := rfl
  obtain ⟨⟨r, hr, hsurvives⟩, hsame⟩ := load_keeps_what_resolves hload
  have hbound : r.nodes.map (·.node.bound) = [none, none, some ⟨14⟩, some ⟨1⟩] := by
    cases hread.symm.trans hr
    decide +kernel
  refine ⟨_, _, hload, by decide +kernel, by decide +kernel, by decide +kernel, by decide +kernel,
    by decide +kernel, by decide +kernel, ⟨r, hr, hbound, hsurvives⟩, ?_⟩
  exact fun links g' r' => hsame _ g' r' (frayed_sameButLinkLists _ links)

end FlowGraph
