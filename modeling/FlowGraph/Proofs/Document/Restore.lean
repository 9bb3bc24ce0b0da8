import FlowGraph.Proofs.Document.Records
import FlowGraph.Proofs.Graph.Sound

/-!
# Restoring a graph from arbitrary records

Whatever the records refer to, the graph made of them is sound.  The stages build on each other:
parents are restored one by one and a parent that would close a cycle is refused, so the walk up
that looks for the cycle must not miss one (`isAncestor_of_path`).  Once every node has the pins
that are its own and the others are gone, the graph is intact without its links, and each link is
added only where it keeps it so.
-/

namespace FlowGraph

open FlowGraph.Graph

/-- What each restored item keeps, all of them keep.  The invariant may speak of the items done. -/
theorem restoreEach_steps {α : Type} {Q : List α → Restored → Prop}
    (restore : Graph → α → Restored) (items : List α) {start : Restored} (h : Q [] start)
    (hstep : ∀ done x r, done ++ [x] <+: items → Q done r →
      Q (done ++ [x]) ((restore r.1 x).1, r.2 ++ (restore r.1 x).2)) :
    Q items (restoreEach restore items start) := by
  suffices hgen : ∀ (rest done : List α) (r : Restored), done ++ rest = items → Q done r →
      Q items (restoreEach restore rest r) from hgen items [] start rfl h
  intro rest
  induction rest with
  | nil =>
    intro done r hdone hq
    rw [List.append_nil] at hdone
    subst hdone
    exact hq
  | cons x rest ih =>
    intro done r hdone hq
    have hprefix : done ++ [x] <+: items := ⟨rest, by rw [← hdone, List.append_assoc]; rfl⟩
    exact ih (done ++ [x]) _ (by rw [← hdone, List.append_assoc]; rfl) (hstep done x r hprefix hq)

/-- The same for an invariant of the graph alone. -/
theorem restoreEach_keeps {α : Type} {Q : Graph → Prop} (restore : Graph → α → Restored)
    (hstep : ∀ g x, Q g → Q (restore g x).1) (items : List α) {start : Restored}
    (h : Q start.1) : Q (restoreEach restore items start).1 :=
  restoreEach_steps (Q := fun _ r => Q r.1) restore items h fun _ x r _ hq => hstep r.1 x hq

namespace Graph

variable {g : Graph}

/-! ## Parents -/

/-- The walk up finds every ancestor within its steps: the properties it passed are all different,
    so they and the steps left are never fewer than all properties. -/
theorem isAncestor_of_path (h : g.Grouped) {id : PropertyId} (steps : Nat) :
    ∀ {p : PropertyId} {passed : List PropertyId}, p ∈ g.properties.keys → passed.Nodup →
      (∀ a ∈ passed, a ∈ g.properties.keys ∧ Relation.TransGen g.ChildOf a p) →
      g.properties.size ≤ steps + passed.length → Relation.ReflTransGen g.ChildOf p id →
      g.isAncestor id steps p = true := by
  induction steps with
  | zero =>
    intro p passed hp hnodup hpassed hsize hpath
    -- With no step left all properties were passed, and `p` would be one more.
    have hnew : p ∉ passed := fun hm => h.acyclic p (hpassed p hm).2
    have hle : (p :: passed).length ≤ g.properties.keys.length := by
      refine (List.nodup_cons.mpr ⟨hnew, hnodup⟩).length_le_of_subset fun a ha => ?_
      rcases List.mem_cons.mp ha with rfl | ha
      · exact hp
      · exact (hpassed a ha).1
    rw [Table.size_eq_length_keys] at hsize
    simp only [List.length_cons] at hle
    omega
  | succ steps ih =>
    intro p passed hp hnodup hpassed hsize hpath
    rcases hpath.cases_head with rfl | ⟨q, hpq, hpath⟩
    · simp [isAncestor]
    · have hparent : (g.properties.get? p).bind (·.parent) = some q := by
        obtain ⟨prop, hprop, hq⟩ := hpq
        rw [hprop, Option.bind_some, hq]
      have hnew : p ∉ passed := fun hm => h.acyclic p (hpassed p hm).2
      have hbelow : ∀ a ∈ p :: passed,
          a ∈ g.properties.keys ∧ Relation.TransGen g.ChildOf a q := by
        intro a ha
        rcases List.mem_cons.mp ha with rfl | ha
        · exact ⟨hp, .single hpq⟩
        · exact ⟨(hpassed a ha).1, (hpassed a ha).2.tail hpq⟩
      have hrest := ih (h.parents hpq) (List.nodup_cons.mpr ⟨hnew, hnodup⟩) hbelow
        (by simp only [List.length_cons]; omega) hpath
      simp [isAncestor, hparent, hrest]

/-- What it finds is an ancestor. -/
theorem path_of_isAncestor {id : PropertyId} (steps : Nat) :
    ∀ {p : PropertyId}, g.isAncestor id steps p = true → Relation.ReflTransGen g.ChildOf p id := by
  induction steps with
  | zero =>
    intro p hp
    rw [isAncestor, decide_eq_true_iff] at hp
    exact hp ▸ .refl
  | succ steps ih =>
    intro p hp
    rw [isAncestor, Bool.or_eq_true, decide_eq_true_iff] at hp
    rcases hp with rfl | hp
    · exact .refl
    · cases hparent : (g.properties.get? p).bind (·.parent) with
      | none =>
        rw [hparent] at hp
        cases hp
      | some q =>
        rw [hparent] at hp
        obtain ⟨prop, hprop, hq⟩ := Option.bind_eq_some_iff.mp hparent
        exact .head ⟨prop, hprop, hq⟩ (ih hp)

/-- The graph in which a property has the given parent. -/
def withParent (g : Graph) (id parent : PropertyId) : Graph :=
  { g with properties := g.properties.modify id fun p => { p with parent := some parent } }

theorem restoreParent_cases (g : Graph) (r : PropertyRecord) :
    (restoreParent g r).1 = g ∨
    ∃ parent, r.parent = some parent ∧ parent ∈ g.properties.keys ∧
      g.isAncestor r.property.id g.properties.size parent = false ∧
      restoreParent g r = (g.withParent r.property.id parent, []) := by
  unfold restoreParent
  cases r.parent with
  | none => exact .inl rfl
  | some parent =>
    by_cases hc : g.properties.contains parent = true
    · by_cases ha : g.isAncestor r.property.id g.properties.size parent = true
      · exact .inl (by simp [hc, ha])
      · refine .inr ⟨parent, rfl, (Table.mem_keys_iff _ _).mpr hc, by simpa using ha, ?_⟩
        simp [hc, ha, withParent]
    · exact .inl (by simp [hc])

theorem childOf_withParent {id parent a b : PropertyId}
    (h : (g.withParent id parent).ChildOf a b) : g.ChildOf a b ∨ (a = id ∧ b = parent) := by
  obtain ⟨p, hp, hb⟩ := h
  simp only [withParent, Table.get?_modify] at hp
  obtain ⟨p₀, hp₀, rfl⟩ := Option.map_eq_some_iff.mp hp
  by_cases ha : a = id
  · rw [if_pos ha] at hb
    exact .inr ⟨ha, (Option.some.inj hb).symm⟩
  · rw [if_neg ha] at hb
    exact .inl ⟨p₀, hp₀, hb⟩

/-- A parent that is not below the property closes no cycle. -/
theorem Grouped.withParent (h : g.Grouped) {id parent : PropertyId}
    (hparent : parent ∈ g.properties.keys)
    (hfree : ¬ Relation.ReflTransGen g.ChildOf parent id) : (g.withParent id parent).Grouped := by
  -- A way up that uses the new parent goes to `id` before it and on from `parent` after it.
  have hpath : ∀ {a b}, Relation.TransGen (g.withParent id parent).ChildOf a b →
      Relation.TransGen g.ChildOf a b ∨
        (Relation.ReflTransGen g.ChildOf a id ∧ Relation.ReflTransGen g.ChildOf parent b) := by
    intro a b hab
    induction hab with
    | single hab =>
      rcases childOf_withParent hab with hab | ⟨rfl, rfl⟩
      · exact .inl (.single hab)
      · exact .inr ⟨.refl, .refl⟩
    | tail _ hbc ih =>
      rcases childOf_withParent hbc with hbc | ⟨rfl, rfl⟩
      · rcases ih with ih | ⟨hl, hr⟩
        · exact .inl (ih.tail hbc)
        · exact .inr ⟨hl, hr.tail hbc⟩
      · rcases ih with ih | ⟨hl, -⟩
        · exact .inr ⟨ih.to_reflTransGen, .refl⟩
        · exact .inr ⟨hl, .refl⟩
  refine ⟨fun hab => ?_, fun a ha => ?_⟩
  · have hkeys : (g.withParent id parent).properties.keys = g.properties.keys :=
      Table.keys_modify _ _ _
    rw [hkeys]
    rcases childOf_withParent hab with hab | ⟨-, rfl⟩
    · exact h.parents hab
    · exact hparent
  · rcases hpath ha with ha | ⟨hl, hr⟩
    · exact h.acyclic a ha
    · exact hfree (hr.trans hl)

theorem Grouped.restoreParent (h : g.Grouped) (r : PropertyRecord) :
    (restoreParent g r).1.Grouped := by
  rcases restoreParent_cases g r with hg | ⟨parent, -, hp, ha, hg⟩
  · rwa [hg]
  · rw [hg]
    refine h.withParent hp fun hpath => ?_
    have hfound := isAncestor_of_path h g.properties.size hp List.nodup_nil
      (fun _ hm => absurd hm (by simp)) (by simp) hpath
    rw [ha] at hfound
    cases hfound

/-! ## Pins -/

/-- A graph on the way to being restored: its entities stand under their ids, it has no links yet,
    and what its nodes list is their own. -/
structure Loading (used : List Nat) (g : Graph) : Prop where
  nodes : g.nodes.Keyed Node.id
  pins : g.pins.Keyed Pin.id
  properties : g.properties.Keyed Property.id
  links : g.links = {}
  unlinked : ∀ {p pin}, g.pins.get? p = some pin → pin.links = []
  listed : ∀ {k n}, g.nodes.get? k = some n → ∀ {d p}, p ∈ n.pinsOf d →
    ∃ pin, g.pins.get? p = some pin ∧ pin.node = k ∧ pin.direction = d
  staffed : g.Staffed
  grouped : g.Grouped
  distinct : g.ids.Nodup
  known : ∀ i ∈ g.ids, i ∈ used

variable {used : List Nat}

theorem Loading.restoreParent (h : g.Loading used) (r : PropertyRecord) :
    (restoreParent g r).1.Loading used := by
  have hgrouped := h.grouped.restoreParent r
  rcases restoreParent_cases g r with hg | ⟨parent, -, -, -, hg⟩
  · rwa [hg]
  · rw [hg] at hgrouped ⊢
    have hids : (g.withParent r.property.id parent).ids = g.ids := by
      simp [ids, Graph.withParent]
    exact {
      nodes := h.nodes
      pins := h.pins
      properties := h.properties.modify r.property.id
        (f := fun p => { p with parent := some parent }) fun _ => rfl
      links := h.links
      unlinked := h.unlinked
      listed := h.listed
      staffed := ⟨h.staffed.staff⟩
      grouped := hgrouped
      distinct := hids ▸ h.distinct
      known := hids ▸ h.known }

theorem mem_ownPins {node : NodeId} {d : Direction} {saved : List Nat} {p : PinId} :
    p ∈ (ownPins g node d saved).1 ↔
      p.number ∈ saved ∧ ∃ pin, g.pins.get? p = some pin ∧ pin.node = node ∧ pin.direction = d := by
  have hmem : p ∈ saved.map PinId.mk ↔ p.number ∈ saved := by
    rw [List.mem_map]
    exact ⟨fun ⟨i, hi, hp⟩ => hp ▸ hi, fun hp => ⟨_, hp, rfl⟩⟩
  have howns : g.owns node d p = true ↔
      ∃ pin, g.pins.get? p = some pin ∧ pin.node = node ∧ pin.direction = d := by
    rw [Graph.owns]
    cases g.pins.get? p <;> simp
  simp only [ownPins, List.partition_eq_filter_filter, List.mem_filter, hmem, howns]

/-- The graph in which a node lists the given pins. -/
def withLists (g : Graph) (id : NodeId) (inputs outputs : List PinId) : Graph :=
  g.withChange id fun n => { n with inputs := inputs, outputs := outputs }

theorem restorePins_graph (g : Graph) (r : NodeRecord) :
    (restorePins g r).1 = g.withLists r.node.id (ownPins g r.node.id .input r.inputs).1
      (ownPins g r.node.id .output r.outputs).1 := rfl

theorem Loading.restorePins (h : g.Loading used) (r : NodeRecord) :
    (restorePins g r).1.Loading used := by
  rw [restorePins_graph]
  -- The lists of the node hold pins that it owns; those of the other nodes are as they were.
  generalize hi : (ownPins g r.node.id .input r.inputs).1 = inputs
  generalize ho : (ownPins g r.node.id .output r.outputs).1 = outputs
  have hids : (g.withLists r.node.id inputs outputs).ids = g.ids := ids_withChange _ _
  exact {
    nodes := h.nodes.modify r.node.id
      (f := fun n => { n with inputs := inputs, outputs := outputs }) fun _ => rfl
    pins := h.pins
    properties := h.properties
    links := h.links
    unlinked := h.unlinked
    listed := fun {k n} hn {d p} hp => by
      simp only [withLists, withChange, Table.get?_modify] at hn
      obtain ⟨n₀, hn₀, rfl⟩ := Option.map_eq_some_iff.mp hn
      by_cases hk : k = r.node.id
      · rw [if_pos hk] at hp
        subst hk
        cases d with
        | input =>
          rw [← hi] at hp
          exact (mem_ownPins.mp hp).2
        | output =>
          rw [← ho] at hp
          exact (mem_ownPins.mp hp).2
      · rw [if_neg hk] at hp
        exact h.listed hn₀ hp
    staffed := h.staffed.withChange _ fun _ b _ hb ht hf => ⟨b, hb, ht, hf⟩
    grouped := h.grouped.congr rfl
    distinct := hids ▸ h.distinct
    known := hids ▸ h.known }

/-- Removing orphans one by one leaves the pins that are not among them. -/
theorem dropOrphans_graph (orphans : List PinId) :
    ∀ start : Restored, (restoreEach dropOrphan orphans start).1 =
      { start.1 with pins := start.1.pins.filter fun p => !orphans.contains p } := by
  induction orphans with
  | nil =>
    intro start
    rw [Table.filter_not_nil]
    rfl
  | cons p orphans ih =>
    intro start
    refine (ih _).trans ?_
    have hpins : ((start.1.pins.erase p).filter fun q => !orphans.contains q) =
        start.1.pins.filter fun q => !(p :: orphans).contains q := by
      rw [Table.erase_eq_filter, Table.filter_filter]
      refine Table.filter_congr fun q _ => ?_
      by_cases hq : q = p <;> simp [hq]
    exact congrArg (fun pins => { start.1 with pins := pins }) hpins

/-- A sound graph but for the counter, which is set last. -/
structure Restorable (used : List Nat) (g : Graph) : Prop where
  intact : g.Intact
  staffed : g.Staffed
  grouped : g.Grouped
  distinct : g.ids.Nodup
  known : ∀ i ∈ g.ids, i ∈ used

theorem mem_orphans {p : PinId} :
    p ∈ g.orphans ↔ p ∈ g.pins.keys ∧ p ∉ g.nodes.values.flatMap Node.pins := by
  rw [orphans, List.mem_filter, decide_eq_true_iff]

/-- A pin that is no orphan is listed by the node it names. -/
theorem Loading.owner_lists (h : g.Loading used) {p : PinId} {pin : Pin}
    (hp : g.pins.get? p = some pin) (ho : p ∉ g.orphans) :
    ∃ n, g.nodes.get? pin.node = some n ∧ p ∈ n.pinsOf pin.direction := by
  have hlisted : p ∈ g.nodes.values.flatMap Node.pins := by
    by_contra hnot
    exact ho (mem_orphans.mpr ⟨Table.mem_keys_of_get? hp, hnot⟩)
  obtain ⟨n, hn, hpn⟩ := List.mem_flatMap.mp hlisted
  have hget := h.nodes.get?_of_mem_values hn
  obtain ⟨d, hpd⟩ := Node.mem_pins_iff.mp hpn
  obtain ⟨pin', hpin', hk, hd⟩ := h.listed hget hpd
  rw [hp] at hpin'
  cases hpin'
  exact ⟨n, hk ▸ hget, hd ▸ hpd⟩

/-- Without the pins that no node lists, all references are intact. -/
theorem Loading.intact_without_orphans (h : g.Loading used) :
    Graph.Intact { g with pins := g.pins.filter fun p => !g.orphans.contains p } := by
  have hkept : ∀ {p pin}, (g.pins.filter fun p => !g.orphans.contains p).get? p = some pin →
      g.pins.get? p = some pin ∧ p ∉ g.orphans := by
    intro p pin hp
    obtain ⟨hp, ho⟩ := Table.get?_filter_eq_some.mp hp
    exact ⟨hp, by simpa using ho⟩
  have hlinks : g.links.values = [] := by
    rw [h.links]
    rfl
  exact {
    nodes := h.nodes
    pins := h.pins.filter fun p => !g.orphans.contains p
    links := by
      rw [h.links]
      exact .empty
    properties := h.properties
    listed := fun {k n} hn {d p} hp => by
      obtain ⟨pin, hpin, hk, hd⟩ := h.listed hn hp
      have hlisted : p ∈ g.nodes.values.flatMap Node.pins := List.mem_flatMap.mpr
        ⟨n, Table.mem_values_of_get? hn, Node.mem_pins_iff.mpr ⟨d, hp⟩⟩
      have hnot : p ∉ g.orphans := fun ho => (mem_orphans.mp ho).2 hlisted
      exact ⟨pin, Table.get?_filter_eq_some.mpr ⟨hpin, by simpa using hnot⟩, hk, hd⟩
    owned := fun {p pin} hp => by
      obtain ⟨hp, ho⟩ := hkept hp
      exact h.owner_lists hp ho
    joined := fun {l link} hl => by
      have hl' : g.links.get? l = some link := hl
      rw [h.links] at hl'
      cases hl'
    entered := fun {p pin} hp => by
      rw [h.unlinked (hkept hp).1]
      simp [linksAt, hlinks]
    fed := fun {p pin} hp _ => by
      rw [h.unlinked (hkept hp).1]
      exact Nat.zero_le 1 }

theorem Loading.dropOrphans (h : g.Loading used) (repairs : List Repair) :
    (restoreEach dropOrphan g.orphans (g, repairs)).1.Restorable used := by
  rw [dropOrphans_graph]
  have hsub : (Graph.ids { g with
      pins := g.pins.filter fun p => !g.orphans.contains p }).Sublist g.ids := by
    simp only [ids, Table.keys_filter]
    exact (((List.Sublist.refl _).append (List.filter_sublist.map _)).append
      (List.Sublist.refl _)).append (List.Sublist.refl _)
  exact {
    intact := h.intact_without_orphans
    staffed := ⟨h.staffed.staff⟩
    grouped := h.grouped.congr rfl
    distinct := h.distinct.sublist hsub
    known := fun i hi => h.known i (hsub.subset hi) }

/-! ## Links and bindings -/

theorem restoreLink_cases (g : Graph) (link : Link) :
    (restoreLink g link).1 = g ∨
    ∃ p q, g.pins.get? link.start = some p ∧ g.pins.get? link.finish = some q ∧
      p.canConnect q = true ∧ (∀ pin ∈ [p, q], pin.direction = .input → pin.links = []) ∧
      restoreLink g link = (addLink link g, []) := by
  unfold restoreLink
  cases hp : g.pins.get? link.start with
  | none => exact .inl rfl
  | some p =>
    cases hq : g.pins.get? link.finish with
    | none => exact .inl rfl
    | some q =>
      by_cases hpq : p.canConnect q = true
      · by_cases hfree : ([p, q].any fun pin => pin.direction = .input && pin.isConnected) = true
        · exact .inl (by simp only [hpq, hfree]; rfl)
        · refine .inr ⟨p, q, rfl, rfl, hpq, fun pin hm hd => ?_, by simp only [hpq, hfree]; rfl⟩
          rw [List.any_eq_true] at hfree
          by_contra hne
          exact hfree ⟨pin, hm, by simp [hd, Pin.isConnected, hne]⟩
      · exact .inl (by simp [hpq])

theorem Restorable.restoreLink (h : g.Restorable used) {link : Link}
    (hnew : link.id.number ∉ used) :
    (restoreLink g link).1.Restorable (link.id.number :: used) := by
  rcases restoreLink_cases g link with hg | ⟨p, q, hp, hq, hpq, hfree, hg⟩
  · rw [hg]
    exact ⟨h.intact, h.staffed, h.grouped, h.distinct,
      fun i hi => List.mem_cons_of_mem _ (h.known i hi)⟩
  · have hid : link.id.number ∉ g.ids := fun hm => hnew (h.known _ hm)
    have hkey : link.id ∉ g.links.keys := fun hm =>
      hid (mem_ids_iff.mpr (.inr (.inr (.inl hm))))
    have hids : (addLink link g).ids.Perm (link.id.number :: g.ids) := by
      simp only [ids, addLink, Table.keys_insert, if_neg hkey, Table.keys_modify, List.map_append,
        List.map_cons, List.map_nil, List.append_assoc]
      exact ((List.perm_middle.append_left _).trans List.perm_middle).append_left _ |>.trans
        List.perm_middle
    rw [hg]
    exact {
      intact := h.intact.addLink hkey hp hq hpq fun {r pin} hr hi hd => by
        rcases Link.involves_iff.mp hi with rfl | rfl
        · rw [hp] at hr
          cases hr
          exact hfree p (by simp) hd
        · rw [hq] at hr
          cases hr
          exact hfree q (by simp) hd
      staffed := ⟨h.staffed.staff⟩
      grouped := h.grouped.congr rfl
      distinct := hids.nodup_iff.mpr (List.nodup_cons.mpr ⟨hid, h.distinct⟩)
      known := fun i hi => by
        rcases List.mem_cons.mp (hids.mem_iff.mp hi) with rfl | hi
        · exact List.mem_cons_self
        · exact List.mem_cons_of_mem _ (h.known i hi) }

theorem restoreBinding_cases (g : Graph) (id : NodeId) :
    restoreBinding g id = (g, []) ∨
    ∃ n b p, g.nodes.get? id = some n ∧ n.behavior = some b ∧ b.bound = some p ∧
      p ∉ g.properties.keys ∧
      (restoreBinding g id).1 =
        g.withChange id fun n => { n with behavior := n.behavior.map (·.unbind p) } := by
  unfold restoreBinding
  cases hbound : ((g.nodes.get? id).bind (·.behavior)).bind Behavior.bound with
  | none => exact .inl rfl
  | some p =>
    by_cases hc : g.properties.contains p = true
    · exact .inl (by simp [hc])
    · obtain ⟨b, hb, hp⟩ := Option.bind_eq_some_iff.mp hbound
      obtain ⟨n, hn, hb⟩ := Option.bind_eq_some_iff.mp hb
      refine .inr ⟨n, b, p, hn, hb, hp, fun hm => hc ((Table.mem_keys_iff _ _).mp hm), ?_⟩
      simp [hc, withChange]

theorem Restorable.restoreBinding (h : g.Restorable used) (id : NodeId) :
    (restoreBinding g id).1.Restorable used := by
  rcases restoreBinding_cases g id with hg | ⟨n, b, p, hn, hb, -, -, hg⟩
  · rwa [hg]
  · rw [hg]
    exact {
      intact := h.intact.withChange id (fun _ => rfl) fun _ d => by cases d <;> rfl
      staffed := h.staffed.withChange id fun m c _ hc ht hf => by
        refine ⟨c.unbind p, ?_, ?_, ?_⟩
        · rw [hc, Option.map_some]
        · rw [Behavior.kind_unbind]
          exact ht
        · rw [Behavior.hasFlow_unbind]
          exact hf
      grouped := h.grouped.congr rfl
      distinct := by
        rw [ids_withChange]
        exact h.distinct
      known := fun i hi => h.known i (by rwa [ids_withChange] at hi) }

end Graph

end FlowGraph
