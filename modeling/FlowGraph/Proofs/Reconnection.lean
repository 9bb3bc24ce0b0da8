import FlowGraph.Proofs.Graph.CutLinks
import FlowGraph.Proofs.Refusals
import Mathlib.Data.Sym.Sym2

/-!
# What a new layout reconnects

A node that gets a new layout has new pins under new numbers, and each of its old links is restored
between the pins that stand in for its ends (`Graph.standIn?`), if both are there and have one type.
`Graph.Relaid` says what becomes of the graph: which links there are afterwards, each of them once,
that those of the other nodes stay and come first, and that nothing else changes.

Links are compared by their two ends in no order, since a link is drawn again from the pin it was
remembered from.
-/

namespace FlowGraph

/-- The two ends of a link, in no order. -/
def Link.pair (l : Link) : Sym2 PinId := s(l.start, l.finish)

theorem Link.pair_eq {l : Link} {p q : PinId} (hq : l.otherEnd? p = some q) : l.pair = s(p, q) := by
  rcases otherEnd?_eq_some.mp hq with ⟨rfl, rfl⟩ | ⟨rfl, rfl⟩
  · rfl
  · exact Sym2.eq_swap

/-- The type that is declared under a direction and a name: that of the first such declaration,
    which is the only one as long as names are not repeated. -/
def declaredType? (specs : List PinSpec) (d : Direction) (name : String) : Option ValueType :=
  (specs.find? fun s => s.direction = d ∧ s.name = name).map (·.value.type)

/-- Where no name is declared twice in a direction, it is the type of the declaration. -/
theorem declaredType?_eq_some {specs : List PinSpec} {d : Direction} {name : String}
    {t : ValueType} (hnames : ((specs.filter (·.direction = d)).map PinSpec.name).Nodup) :
    declaredType? specs d name = some t ↔
      ∃ s ∈ specs, s.direction = d ∧ s.name = name ∧ s.value.type = t := by
  simp only [declaredType?, Option.map_eq_some_iff]
  constructor
  · rintro ⟨s, hfind, rfl⟩
    have hs := List.find?_some hfind
    rw [decide_eq_true_eq] at hs
    exact ⟨s, List.mem_of_find?_eq_some hfind, hs.1, hs.2, rfl⟩
  · rintro ⟨s, hs, rfl, rfl, rfl⟩
    obtain ⟨s', hs'⟩ : ∃ s', specs.find? (fun s' => s'.direction = s.direction ∧ s'.name = s.name) =
        some s' := Option.isSome_iff_exists.mp (List.find?_isSome.mpr ⟨s, hs, by simp⟩)
    have hsame := List.find?_some hs'
    rw [decide_eq_true_eq] at hsame
    have hmem : ∀ {r}, r ∈ specs → r.direction = s.direction →
        r ∈ specs.filter (·.direction = s.direction) := fun hr hd =>
      List.mem_filter.mpr ⟨hr, by simpa using hd⟩
    have heq : s' = s := List.inj_on_of_nodup_map hnames
      (hmem (List.mem_of_find?_eq_some hs') hsame.1) (hmem hs rfl) hsame.2
    exact ⟨s, heq ▸ hs', rfl⟩

theorem declaredType?_eq (node : NodeId) (first : Nat) (specs : List PinSpec) (d : Direction)
    (name : String) :
    declaredType? specs d name =
      (((declaredPins node first specs).filter (·.direction = d)).find? (·.name = name)).map
        Pin.type := by
  have hspecs : specs = (specs.zipIdx first).map Prod.fst := (List.zipIdx_map_fst first specs).symm
  rw [List.find?_filter, declaredPins, List.find?_map, Option.map_map]
  conv_lhs => rw [declaredType?, hspecs, List.find?_map, Option.map_map]
  simp only [decide_eq_true_eq]
  rfl

namespace Graph

/-- The pin that stands in for another after a new layout: for a pin of the node the one of its
    direction and name, for any other pin itself. -/
def standIn? (g : Graph) (node : NodeId) (g' : Graph) (p : PinId) : Option PinId := do
  let pin ← g.pins.get? p
  if pin.node = node then g'.findPin? node pin.direction pin.name else some p

/-- The type of the pin that stands in: what is declared for a pin of the node, its own for any
    other. -/
def placeType? (g : Graph) (node : NodeId) (specs : List PinSpec) (p : PinId) :
    Option ValueType := do
  let pin ← g.pins.get? p
  if pin.node = node then declaredType? specs pin.direction pin.name else some pin.type

/-- The ends of the link that stands in for a cut one.  There is none if one of the ends is not
    declared any more, or with another type than the other end has. -/
def restored? (g : Graph) (node : NodeId) (specs : List PinSpec) (g' : Graph) (l : Link) :
    Option (Sym2 PinId) := do
  let a ← g.standIn? node g' l.start
  let b ← g.standIn? node g' l.finish
  if g.placeType? node specs l.start = g.placeType? node specs l.finish then some s(a, b) else none

/-- The pins that the behavior declares, under the next numbers. -/
def declared (g : Graph) (node : NodeId) (b : Behavior) : List Pin :=
  declaredPins node g.nextId (b.layout g.propertyValue?)

/-- What became of a graph in which a node got the pins of a behavior. -/
structure Relaid (g : Graph) (n : Node) (b : Behavior) (g' : Graph) : Prop where
  /-- The node lists the declared pins, in order, and no other node changed. -/
  nodes : g'.nodes = g.nodes.modify n.id fun m => { m with
    inputs := ((g.declared n.id b).filter (·.direction = .input)).map (·.id)
    outputs := ((g.declared n.id b).filter (·.direction = .output)).map (·.id)
    behavior := some b }
  /-- The pins of other nodes stay but for their links, and the declared ones come behind. -/
  pins : g'.pins.map .unlinked =
    ⟨((g.pins.filter fun p => !n.pins.contains p).map .unlinked).entries ++
      (g.declared n.id b).map fun p => (p.id, p)⟩
  fresh : ∀ p ∈ g.declared n.id b, p.id ∉ g.pins.keys
  properties : g'.properties = g.properties
  /-- The links of other nodes come first, in their old order. -/
  kept : g'.links.values =
    (g.links.values.filter fun l => !n.pins.any l.involves) ++ g'.linksOfNode n.id
  /-- The links of the node are those that could be restored, each of them once. -/
  restored : ((g'.linksOfNode n.id).map Link.pair).Perm
    ((g.linksOfNode n.id).filterMap (g.restored? n.id (b.layout g.propertyValue?) g'))
  /-- Every number that was given out is in use, so no link took the place of another. -/
  numbers : (g.declared n.id b).map (·.id.number) ++ (g'.linksOfNode n.id).map (·.id.number) =
    List.range' g.nextId (g'.nextId - g.nextId)

variable {g g' : Graph}

/-! ## Stand-ins -/

theorem standIn?_unlinked (hnodes : g'.nodes = g.nodes)
    (hpins : g'.pins.map .unlinked = g.pins.map .unlinked) (g₀ : Graph) (node : NodeId)
    (p : PinId) : g₀.standIn? node g' p = g₀.standIn? node g p := by
  simp only [standIn?, findPin?_unlinked hnodes hpins]

theorem restored?_unlinked (hnodes : g'.nodes = g.nodes)
    (hpins : g'.pins.map .unlinked = g.pins.map .unlinked) (g₀ : Graph) (node : NodeId)
    (specs : List PinSpec) (l : Link) :
    g₀.restored? node specs g' l = g₀.restored? node specs g l := by
  simp only [restored?, standIn?_unlinked hnodes hpins]

/-- Restoring does not look at which end comes first. -/
theorem restored?_eq_some {node : NodeId} {specs : List PinSpec} {l : Link} {p q : PinId}
    (hq : l.otherEnd? p = some q) {e : Sym2 PinId} :
    g.restored? node specs g' l = some e ↔
      ∃ a b, g.standIn? node g' p = some a ∧ g.standIn? node g' q = some b ∧
        g.placeType? node specs p = g.placeType? node specs q ∧ e = s(a, b) := by
  have hends : g.restored? node specs g' l = some e ↔
      ∃ a b, g.standIn? node g' l.start = some a ∧ g.standIn? node g' l.finish = some b ∧
        g.placeType? node specs l.start = g.placeType? node specs l.finish ∧ e = s(a, b) := by
    simp only [restored?, Option.bind_eq_bind, Option.bind_eq_some_iff,
      Option.ite_none_right_eq_some, Option.some.injEq]
    constructor
    · rintro ⟨a, ha, b, hb, htype, rfl⟩
      exact ⟨a, b, ha, hb, htype, rfl⟩
    · rintro ⟨a, b, ha, hb, htype, rfl⟩
      exact ⟨a, ha, b, hb, htype, rfl⟩
  rw [hends]
  rcases Link.otherEnd?_eq_some.mp hq with ⟨rfl, rfl⟩ | ⟨rfl, rfl⟩
  · rfl
  · constructor
    · rintro ⟨a, b, ha, hb, htype, rfl⟩
      exact ⟨b, a, hb, ha, htype.symm, Sym2.eq_swap⟩
    · rintro ⟨a, b, ha, hb, htype, rfl⟩
      exact ⟨b, a, hb, ha, htype.symm, Sym2.eq_swap⟩

section Bare

variable {n : Node} {specs : List PinSpec} (h : g.Sound) (hn : g.nodes.get? n.id = some n)
  (hs : (g.bare n specs).Sound)
include h hn hs

theorem Sound.standIn?_bare {p : PinId} {pin : Pin} (hp : g.pins.get? p = some pin) :
    g.standIn? n.id (g.bare n specs) p = (g.bare n specs).findEnd? n.id (pin.asEnd n.id) := by
  simp only [standIn?, hp, Option.bind_eq_bind, Option.bind_some]
  by_cases hnode : pin.node = n.id
  · rw [if_pos hnode, Pin.asEnd_of_mem hnode]
    rfl
  · have hkept := hs.pin_of_kept hp (h.not_mem_pins hn hp hnode)
    have hcontains : (g.bare n specs).pins.contains p = true := by
      rw [Table.contains, hkept]
      rfl
    rw [if_neg hnode, Pin.asEnd_of_ne hnode, h.intact.pins.get?_id hp, findEnd?, if_pos hcontains]

/-- What stands in for a pin has its direction and the type of its place. -/
theorem Sound.pin_of_standIn? {p a : PinId} {pin : Pin} (hp : g.pins.get? p = some pin)
    (ha : g.standIn? n.id (g.bare n specs) p = some a) :
    ∃ pin', (g.bare n specs).pins.get? a = some pin' ∧ pin'.direction = pin.direction ∧
      g.placeType? n.id specs p = some pin'.type := by
  simp only [standIn?, placeType?, hp, Option.bind_eq_bind, Option.bind_some] at ha ⊢
  by_cases hnode : pin.node = n.id
  · rw [if_pos hnode] at ha ⊢
    rw [hs.findPin?_bare hn, Option.map_eq_some_iff] at ha
    obtain ⟨pin', hfind, rfl⟩ := ha
    obtain ⟨hdeclared, hd⟩ := List.mem_filter.mp (List.mem_of_find?_eq_some hfind)
    refine ⟨pin', hs.pin_of_declared hdeclared, by simpa using hd, ?_⟩
    rw [declaredType?_eq n.id g.nextId, hfind]
    rfl
  · rw [if_neg hnode] at ha ⊢
    cases ha
    exact ⟨_, hs.pin_of_kept hp (h.not_mem_pins hn hp hnode), rfl, rfl⟩

/-- No two pins have the same stand-in. -/
theorem Sound.standIn?_inj (hnames : g.NamesApart n.id) {p q r : PinId} {a b : Pin}
    (ha : g.pins.get? p = some a) (hb : g.pins.get? q = some b)
    (har : g.standIn? n.id (g.bare n specs) p = some r)
    (hbr : g.standIn? n.id (g.bare n specs) q = some r) : p = q := by
  rw [h.standIn?_bare hn hs ha] at har
  rw [h.standIn?_bare hn hs hb] at hbr
  exact h.intact.asEnd_inj hnames ha hb (h.findEnd?_inj hn hs ha hb har hbr)

/-- A cut link is drawn between the stand-ins of its ends if their types agree. -/
theorem Sound.drawnEnds?_cut {p q : PinId} {pin far : Pin} (hp : g.pins.get? p = some pin)
    (hnode : pin.node = n.id) (hq : g.pins.get? q = some far)
    (hopposite : far.direction ≠ pin.direction) {a b : PinId} :
    (g.bare n specs).drawnEnds? n.id ⟨pin.name, pin.direction, far.asEnd n.id⟩ = some (a, b) ↔
      g.standIn? n.id (g.bare n specs) p = some a ∧ g.standIn? n.id (g.bare n specs) q = some b ∧
        g.placeType? n.id specs p = g.placeType? n.id specs q := by
  have hfind : (g.bare n specs).findPin? n.id pin.direction pin.name =
      g.standIn? n.id (g.bare n specs) p := by
    rw [h.standIn?_bare hn hs hp, Pin.asEnd_of_mem hnode]
    rfl
  rw [drawnEnds?_eq_some, hfind, ← h.standIn?_bare hn hs hq]
  refine and_congr_right fun ha => and_congr_right fun hb => ?_
  obtain ⟨pa, hpa, hda, hta⟩ := h.pin_of_standIn? hn hs hp ha
  obtain ⟨pb, hpb, hdb, htb⟩ := h.pin_of_standIn? hn hs hq hb
  rw [hta, htb, canConnect?_eq, Option.some.injEq]
  constructor
  · rintro ⟨pa', pb', hpa', hpb', hfit⟩
    rw [hpa] at hpa'
    rw [hpb] at hpb'
    cases hpa'
    cases hpb'
    exact (Pin.canConnect_iff.mp hfit).2.1.symm
  · intro htype
    have hdir : pb.direction ≠ pa.direction := by rwa [hda, hdb]
    refine ⟨pa, pb, hpa, hpb, Pin.canConnect_iff.mpr ⟨fun hid => ?_, htype.symm, hdir⟩⟩
    rw [hs.intact.pins.get?_id hpa, hs.intact.pins.get?_id hpb] at hid
    rw [hid, hpa] at hpb
    cases hpb
    exact hdir rfl

end Bare

/-! ## The links of the node -/

/-- Two links with the same ends have the same input, so they are one. -/
theorem Intact.pairs_nodup (h : g.Intact) : (g.links.values.map Link.pair).Nodup := by
  have hnodup : g.links.values.Nodup := by
    refine .of_map Link.id ?_
    rw [h.links.map_values]
    exact h.links.nodup
  refine hnodup.map_on fun l hl l' hl' heq => ?_
  have hget := h.links.get?_of_mem_values hl
  have hget' := h.links.get?_of_mem_values hl'
  have hinvolves : ∀ p, l.involves p = true → l'.involves p = true := by
    intro p hp
    have hmem : p ∈ l.pair := Sym2.mem_iff.mpr ((Link.involves_iff.mp hp).imp Eq.symm Eq.symm)
    rw [heq, Link.pair, Sym2.mem_iff] at hmem
    exact Link.involves_iff.mpr (hmem.imp Eq.symm Eq.symm)
  obtain ⟨a, b, ha, hb, hab⟩ := h.joined hget
  have hs : l.involves l.start = true := Link.involves_iff.mpr (.inl rfl)
  have hf : l.involves l.finish = true := Link.involves_iff.mpr (.inr rfl)
  have hat : ∀ {p}, l.involves p = true → l.id ∈ g.linksAt p ∧ l'.id ∈ g.linksAt p := fun hp =>
    ⟨(mem_linksAt_iff h.links).mpr ⟨l, hget, hp⟩,
      (mem_linksAt_iff h.links).mpr ⟨l', hget', hinvolves _ hp⟩⟩
  refine h.links.eq_of_mem_values hl hl' ?_
  cases hd : a.direction with
  | input => exact h.link_unique ha hd (hat hs).1 (hat hs).2
  | output =>
    have hdb := Direction.input_of_ne (Pin.canConnect_iff.mp hab).2.2 (by simp [hd])
    exact h.link_unique hb hdb (hat hf).1 (hat hf).2

/-- Numbers that a new layout gives to pins are not in use. -/
theorem Sound.declared_fresh (h : g.Sound) {node : NodeId} {specs : List PinSpec} {p : Pin}
    (hp : p ∈ declaredPins node g.nextId specs) : p.id ∉ g.pins.keys := by
  obtain ⟨i, spec, -, rfl⟩ := mem_declaredPins.mp hp
  intro hkey
  have hbelow := h.numbered.below _ (mem_ids_iff.mpr (.inr (.inl hkey)))
  exact absurd hbelow (by omega)

/-- The pins a node lists are those that name it. -/
theorem Intact.mem_pins (h : g.Intact) {k : NodeId} {n : Node} (hn : g.nodes.get? k = some n)
    {p : PinId} : p ∈ n.pins ↔ ∃ pin, g.pins.get? p = some pin ∧ pin.node = k := by
  refine ⟨h.node_of_listed hn, ?_⟩
  rintro ⟨pin, hpin, rfl⟩
  obtain ⟨m, hm, hlisted⟩ := h.owned hpin
  rw [hn] at hm
  cases hm
  exact Node.mem_pins_iff.mpr ⟨_, hlisted⟩

section Bare

variable {n : Node} {specs : List PinSpec} (h : g.Sound) (hn : g.nodes.get? n.id = some n)

include h

/-- The links that are kept are those without an end on the node. -/
theorem Sound.links_bare :
    (g.bare n specs).links.values = g.links.values.filter fun l => !n.pins.any l.involves := by
  rw [bare, h.intact.links.values_filter]
  refine List.filter_congr fun l hl => ?_
  have hget := h.intact.links.get?_of_mem_values hl
  rw [Bool.eq_iff_iff]
  simp only [Bool.not_eq_true', List.contains_eq_mem, decide_eq_false_iff_not, List.mem_flatMap,
    mem_linksAt_iff h.intact.links, List.any_eq_false]
  constructor
  · intro hnot p hp hinv
    exact hnot ⟨p, hp, l, hget, hinv⟩
  · rintro hnot ⟨p, hp, l', hl', hinv⟩
    rw [hget] at hl'
    cases hl'
    exact hnot p hp hinv

include hn

/-- A link of the node is remembered from one of its pins. -/
theorem Sound.remembered {link : Link} (hlink : link ∈ g.linksOfNode n.id) :
    ∃ p ∈ n.pins, ∃ q pin far, link.otherEnd? p = some q ∧ g.pins.get? p = some pin ∧
      g.pins.get? q = some far ∧ (far.node = n.id → pin.direction = .input) := by
  obtain ⟨hmem, p, hp, hinv⟩ := (mem_linksOfNode hn).mp hlink
  have hl := h.intact.links.get?_of_mem_values hmem
  obtain ⟨pin, hpin, -⟩ := h.intact.node_of_listed hn hp
  obtain ⟨q, hq⟩ := Option.isSome_iff_exists.mp ((link.isSome_otherEnd? p).trans hinv)
  obtain ⟨far, hfar, -, hopposite⟩ := h.intact.otherEnd hl hpin hq
  cases hd : pin.direction with
  | input => exact ⟨p, hp, q, pin, far, hq, hpin, hfar, fun _ => hd⟩
  | output =>
    by_cases hnode : far.node = n.id
    · have hinput := Direction.input_of_ne hopposite (by simp [hd])
      have hown := h.intact.mem_pinsOfNode hfar
      rw [hnode, pinsOfNode, hn] at hown
      exact ⟨q, hown, p, far, pin, Link.otherEnd?_comm.mp hq, hfar, hpin, fun _ => hinput⟩
    · exact ⟨p, hp, q, pin, far, hq, hpin, hfar, fun heq => absurd heq hnode⟩

variable (hs : (g.bare n specs).Sound)
include hs

/-- A cut link that is drawn again stands in for one of the links of the node. -/
theorem Sound.restored_of_drawn {e : Sym2 PinId} :
    (∃ cut ∈ g.cutLinks n, ∃ a b,
      (g.bare n specs).drawnEnds? n.id cut = some (a, b) ∧ e = s(a, b)) ↔
    ∃ l ∈ g.linksOfNode n.id, g.restored? n.id specs (g.bare n specs) l = some e := by
  constructor
  · rintro ⟨cut, hcut, a, b, hends, rfl⟩
    obtain ⟨p, hp, pin, hpin, l, -, link, hl, hcut⟩ := mem_cutLinks.mp hcut
    have hnode := h.intact.node_eq hn hp hpin
    obtain ⟨q, far, hq, hfar, -, rfl⟩ := cutLink?_eq_some.mp hcut
    rw [h.intact.pins.get?_id hpin] at hq
    obtain ⟨far', hfar', -, hopposite⟩ := h.intact.otherEnd hl hpin hq
    rw [hfar] at hfar'
    cases hfar'
    obtain ⟨ha, hb, htype⟩ := (h.drawnEnds?_cut hn hs hpin hnode hfar hopposite).mp hends
    refine ⟨link, (mem_linksOfNode hn).mpr ⟨Table.mem_values_of_get? hl, p, hp, ?_⟩,
      (restored?_eq_some hq).mpr ⟨a, b, ha, hb, htype, rfl⟩⟩
    exact (Link.involves_of_otherEnd? hq).1
  · rintro ⟨link, hlink, hrestored⟩
    have hl := h.intact.links.get?_of_mem_values ((mem_linksOfNode hn).mp hlink).1
    obtain ⟨p, hp, q, pin, far, hq, hpin, hfar, hd⟩ := h.remembered hn hlink
    have hnode := h.intact.node_eq hn hp hpin
    obtain ⟨far', hfar', -, hopposite⟩ := h.intact.otherEnd hl hpin hq
    rw [hfar] at hfar'
    cases hfar'
    obtain ⟨a, b, ha, hb, htype, rfl⟩ := (restored?_eq_some hq).mp hrestored
    refine ⟨⟨pin.name, pin.direction, far.asEnd n.id⟩, ?_, a, b,
      (h.drawnEnds?_cut hn hs hpin hnode hfar hopposite).mpr ⟨ha, hb, htype⟩, rfl⟩
    refine mem_cutLinks.mpr ⟨p, hp, pin, hpin, link.id, ?_, link, hl, ?_⟩
    · rw [h.intact.entered hpin, mem_linksAt_iff h.intact.links]
      exact ⟨link, hl, (Link.involves_of_otherEnd? hq).1⟩
    · refine cutLink?_eq_some.mpr ⟨q, far, ?_, hfar, hd, rfl⟩
      rwa [h.intact.pins.get?_id hpin]

/-- No two links of the node are restored with the same ends. -/
theorem Sound.restored_nodup (hnames : g.NamesApart n.id) :
    ((g.linksOfNode n.id).filterMap (g.restored? n.id specs (g.bare n specs))).Nodup := by
  have hnodup : (g.linksOfNode n.id).Nodup :=
    (h.intact.pairs_nodup.of_map _).sublist List.filter_sublist
  refine List.pairwise_filterMap.mpr (hnodup.imp_of_mem ?_)
  rintro l l' hl hl' hne e he _ he' rfl
  obtain ⟨p, -, q, pin, far, hq, hpin, hfar, -⟩ := h.remembered hn hl
  obtain ⟨p', -, q', pin', far', hq', hpin', hfar', -⟩ := h.remembered hn hl'
  obtain ⟨a, b, ha, hb, -, rfl⟩ := (restored?_eq_some hq).mp he
  obtain ⟨a', b', ha', hb', -, heq⟩ := (restored?_eq_some hq').mp he'
  have hpair : l.pair = l'.pair := by
    rw [Link.pair_eq hq, Link.pair_eq hq']
    rcases Sym2.eq_iff.mp heq with ⟨rfl, rfl⟩ | ⟨rfl, rfl⟩
    · rw [h.standIn?_inj hn hs hnames hpin hpin' ha ha',
        h.standIn?_inj hn hs hnames hfar hfar' hb hb']
    · rw [h.standIn?_inj hn hs hnames hpin hfar' ha hb',
        h.standIn?_inj hn hs hnames hfar hpin' hb ha', Sym2.eq_swap]
  exact hne (List.inj_on_of_nodup_map h.intact.pairs_nodup ((mem_linksOfNode hn).mp hl).1
    ((mem_linksOfNode hn).mp hl').1 hpair)

/-- The links of the node are those that were drawn. -/
theorem Sound.linksOfNode_drawn
    (hdrawn : (g.bare n specs).Drawn
      ((g.cutLinks n).filterMap ((g.bare n specs).drawnEnds? n.id)) g') :
    g'.linksOfNode n.id = newLinks (g.nextId + specs.length)
      ((g.cutLinks n).filterMap ((g.bare n specs).drawnEnds? n.id)) := by
  have hnode : g'.nodes.get? n.id =
      some (n.pinless.withPins (declaredPins n.id g.nextId specs)) := by
    rw [hdrawn.rest]
    exact get?_node_bare hn
  have hown : ∀ p, p ∈ (n.pinless.withPins (declaredPins n.id g.nextId specs)).pins ↔
      ∃ pin, (g.bare n specs).pins.get? p = some pin ∧ pin.node = n.id := by
    intro p
    exact hs.intact.mem_pins (get?_node_bare hn)
  simp only [linksOfNode, hnode, Option.elim_some, hdrawn.links, List.filter_append]
  have hkept : (g.bare n specs).links.values.filter (fun l =>
      (n.pinless.withPins (declaredPins n.id g.nextId specs)).pins.any l.involves) = [] := by
    refine List.filter_eq_nil_iff.mpr fun l hl hany => ?_
    obtain ⟨p, hp, hinv⟩ := List.any_eq_true.mp hany
    obtain ⟨pin, hpin, hnode⟩ := (hown p).mp hp
    obtain ⟨rfl, hdeclared⟩ := h.own_pin_of_bare hn hpin hnode
    rw [h.links_bare] at hl
    have hget := h.intact.links.get?_of_mem_values (List.mem_of_mem_filter hl)
    obtain ⟨pin₀, hpin₀⟩ := h.intact.end_exists hget hinv
    exact h.declared_fresh hdeclared (Table.mem_keys_of_get? hpin₀)
  rw [hkept, List.nil_append]
  refine List.filter_eq_self.mpr fun l hl => ?_
  obtain ⟨cut, -, hends⟩ := List.mem_filterMap.mp (ends_of_mem_newLinks hl)
  obtain ⟨pin, hpin, hnode, -⟩ := hs.intact.pin_of_findPin? (drawnEnds?_eq_some.mp hends).1
  exact List.any_eq_true.mpr ⟨l.start, (hown _).mpr ⟨pin, hpin, hnode⟩,
    Link.involves_iff.mpr (.inl rfl)⟩

end Bare

/-! ## What a new layout comes to -/

theorem pins_bare_unlinked (g : Graph) (n : Node) (specs : List PinSpec) :
    (g.bare n specs).pins.map .unlinked =
      ⟨((g.pins.filter fun p => !n.pins.contains p).map .unlinked).entries ++
        (declaredPins n.id g.nextId specs).map fun p => (p.id, p)⟩ := by
  have hown : ∀ p ∈ declaredPins n.id g.nextId specs, p.unlinked = p := by
    intro p hp
    obtain ⟨_, _, -, rfl⟩ := mem_declaredPins.mp hp
    rfl
  refine Table.ext ?_
  simp only [bare, Table.map, List.map_append, List.map_map]
  congr 1
  refine List.map_congr_left fun p hp => ?_
  show (p.id, p.unlinked) = (p.id, p)
  rw [hown p hp]

theorem declaredPins_numbers (node : NodeId) (first : Nat) (specs : List PinSpec) :
    (declaredPins node first specs).map (·.id.number) = List.range' first specs.length := by
  rw [← List.zipIdx_map_snd first specs, declaredPins, List.map_map]
  exact List.map_congr_left fun _ _ => rfl

theorem newLinks_pairs (first : Nat) (ends : List (PinId × PinId)) :
    (newLinks first ends).map Link.pair = ends.map fun e => s(e.1, e.2) := by
  conv_rhs => rw [← newLinks_ends first ends, List.map_map]
  rfl

theorem newLinks_numbers (first : Nat) (ends : List (PinId × PinId)) :
    (newLinks first ends).map (·.id.number) = List.range' first ends.length := by
  rw [← List.zipIdx_map_snd first ends, newLinks, List.map_map]
  exact List.map_congr_left fun _ _ => rfl

theorem Sound.relaid (h : g.Sound) {n : Node} {b : Behavior} (hn : g.nodes.get? n.id = some n)
    (hb : n.behavior = some b) (hnames : g.NamesApart n.id)
    (hlast : (Graph.relayout n.id g).graph.nextId < lastNumber) :
    g.Relaid n b (Graph.relayout n.id g).graph := by
  obtain ⟨hs, hdrawn⟩ := h.relayout_drawn hn hb hnames hlast
  have hnodes : (Graph.relayout n.id g).graph.nodes =
      (g.bare n (b.layout g.propertyValue?)).nodes := by rw [hdrawn.rest]
  have hlinks := h.linksOfNode_drawn hn hs hdrawn
  refine ⟨?_, ?_, fun p hp => h.declared_fresh hp, ?_, ?_, ?_, ?_⟩
  · have hbare : (g.bare n (b.layout g.propertyValue?)).nodes =
        g.nodes.modify n.id fun m => m.pinless.withPins (g.declared n.id b) := rfl
    rw [hnodes, hbare]
    refine Table.modify_congr h.intact.nodes.nodup fun m hm => ?_
    rw [hn] at hm
    cases hm
    rw [← hb]
    rfl
  · rw [hdrawn.pins, pins_bare_unlinked]
    rfl
  · rw [hdrawn.rest]
    rfl
  · rw [hlinks, hdrawn.links, h.links_bare]
    rfl
  · have hsame : g.restored? n.id (b.layout g.propertyValue?) (Graph.relayout n.id g).graph =
        g.restored? n.id (b.layout g.propertyValue?) (g.bare n (b.layout g.propertyValue?)) :=
      funext fun l => restored?_unlinked hnodes hdrawn.pins _ _ _ l
    rw [hsame]
    -- Neither list repeats a pair of ends, so it is enough that they have the same members.
    refine (List.perm_ext_iff_of_nodup ?_ (h.restored_nodup hn hs hnames)).mpr fun e => ?_
    · exact hdrawn.sound.intact.pairs_nodup.sublist (List.filter_sublist.map _)
    · rw [hlinks, newLinks_pairs, List.mem_filterMap, ← h.restored_of_drawn hn hs]
      simp only [List.mem_map, List.mem_filterMap]
      constructor
      · rintro ⟨⟨a, b⟩, ⟨cut, hcut, hends⟩, rfl⟩
        exact ⟨cut, hcut, a, b, hends, rfl⟩
      · rintro ⟨cut, hcut, a, b, hends, rfl⟩
        exact ⟨(a, b), ⟨cut, hcut, hends⟩, rfl⟩
  · rw [declared, hlinks, declaredPins_numbers, newLinks_numbers, hdrawn.nextId,
      List.range'_append_1]
    congr 1
    show _ = g.nextId + _ + _ - g.nextId
    omega

/-! ## Every new layout of every run -/

/-- The behavior that the node had before is of no consequence. -/
theorem Relaid.of_withBehavior {n : Node} {b : Behavior} (hn : g.nodes.get? n.id = some n)
    (h : (g.withBehavior n.id b).Relaid { n with behavior := some b } b g') : g.Relaid n b g' where
  nodes := by
    rw [h.nodes, withBehavior, Table.modify_modify_self]
    rfl
  pins := h.pins
  fresh := h.fresh
  properties := h.properties
  kept := h.kept
  restored := by
    have hlinks : (g.withBehavior n.id b).linksOfNode n.id = g.linksOfNode n.id := by
      simp only [linksOfNode, withBehavior, Table.get?_modify, hn]
      rfl
    have hrestored := h.restored
    rw [hlinks] at hrestored
    exact hrestored
  numbers := h.numbers

/-- A new layout of a node gives it the pins its behavior declares, and reconnects the links that
    still fit, and no others, whether the layout was asked for or comes with a binding.  The node
    may list no pin twice, and none of its pins may share the name with another of the same
    direction. -/
theorem new_layout_reconnects {start : Graph} (hs : start.Starts) (h : start.Reaches g)
    {id : NodeId} {n : Node} (hn : g.nodes.get? id = some n) (hnames : g.NamesApart id) :
    ((relayout id g).answer.isOk = true →
      (relayout id g).graph.nextId - start.nextId < 0x7fffffffffffffff →
      ∃ b, n.behavior = some b ∧ g.Relaid n b (relayout id g).graph) ∧
    ∀ p, (bindNode id p g).answer.isOk = true →
      (bindNode id p g).graph.nextId - start.nextId < 0x7fffffffffffffff →
      ∃ b b', n.behavior = some b ∧ b.bind? p = some b' ∧
        g.Relaid n b' (bindNode id p g).graph := by
  have hsound := h.sound hs
  have hid : n.id = id := hsound.intact.nodes.get?_id hn
  subst hid
  constructor
  · intro _ hids
    obtain ⟨b, hb, -⟩ := hsound.staffed.staff hn
    exact ⟨b, hb, hsound.relaid hn hb hnames (hs.nextId_lt hids)⟩
  · intro p hok hids
    rcases bindNode_cases n.id p g with ⟨cause, hg⟩ | ⟨m, b, b', -, hm, hb, hbind, hg⟩
    · rw [hg] at hok
      cases hok
    · rw [hn] at hm
      cases hm
      refine ⟨b, b', hb, hbind, .of_withBehavior hn ?_⟩
      have hlast := hs.nextId_lt hids
      rw [hg] at hlast ⊢
      refine (hsound.withBehavior hn hb hbind).relaid (n := { n with behavior := some b' })
        ?_ rfl ?_ hlast
      · simp [withBehavior, hn]
      · intro d
        have hsame : (g.withBehavior n.id b').pinsOf n.id d = g.pinsOf n.id d := by
          simp only [pinsOf, withBehavior, Table.get?_modify, hn]
          cases d <;> rfl
        rw [hsame]
        exact hnames d

/-- A variable that feeds itself and two log nodes, and that two log nodes follow. -/
def selfFed : Graph :=
  (Command.performAll
    [.createProperty "speed" (.float 0) none, .createProperty "ready" (.bool false) none,
      .addNode (.setVariable (some ⟨1⟩)), .addNode (.logValue "a"), .addNode (.logValue "b"),
      .createLink ⟨5⟩ ⟨9⟩, .createLink ⟨5⟩ ⟨14⟩, .createLink ⟨7⟩ ⟨11⟩, .createLink ⟨7⟩ ⟨16⟩,
      .createLink ⟨7⟩ ⟨6⟩]
    (Graph.new "self-fed" .builtin)).graph

/-- Bound to a property of another type, the variable still feeds itself, but the log nodes no
    more. -/
theorem selfFed_reconnects :
    (∃ n b, selfFed.Relaid n b (relayout ⟨3⟩ selfFed).graph) ∧
      (∃ n b, selfFed.Relaid n b (bindNode ⟨3⟩ ⟨2⟩ selfFed).graph) ∧
      (selfFed.linksOfNode ⟨3⟩).map Link.ends =
        [[⟨5⟩, ⟨9⟩], [⟨5⟩, ⟨14⟩], [⟨7⟩, ⟨11⟩], [⟨7⟩, ⟨16⟩], [⟨7⟩, ⟨6⟩]] ∧
      ((bindNode ⟨3⟩ ⟨2⟩ selfFed).graph.linksOfNode ⟨3⟩).map Link.ends =
        [[⟨25⟩, ⟨26⟩], [⟨24⟩, ⟨9⟩], [⟨24⟩, ⟨14⟩]] := by
  obtain ⟨n, hn⟩ := Option.isSome_iff_exists.mp
    (show (selfFed.nodes.get? ⟨3⟩).isSome = true by decide +kernel)
  have hnames : selfFed.NamesApart ⟨3⟩ := fun d => by cases d <;> decide +kernel
  have hboth := new_layout_reconnects (.new _ _) (g := selfFed) ⟨⟨_, rfl⟩, by decide +kernel⟩ hn
    hnames
  obtain ⟨b, -, hrelaid⟩ := hboth.1 (by decide +kernel) (by decide +kernel)
  obtain ⟨-, b', -, -, hbound⟩ := hboth.2 ⟨2⟩ (by decide +kernel) (by decide +kernel)
  exact ⟨⟨n, b, hrelaid⟩, ⟨n, b', hbound⟩, by decide +kernel, by decide +kernel⟩

end Graph

end FlowGraph
