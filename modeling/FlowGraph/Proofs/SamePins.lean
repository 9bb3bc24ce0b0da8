import FlowGraph.Proofs.Evaluation.Repinned
import FlowGraph.Proofs.Reconnection

/-!
# The same pins again

A new layout may give a node the pins it had (`Graph.HasForms`).  Then each pin of the graph has one
stand-in (`Graph.renewed`), every link comes back between the stand-ins of its ends, and what an
evaluation can see of the graph is as before (`Sound.repinned`), but for the order of the links.
-/

namespace FlowGraph

/-! ## Stand-ins -/

/-- Looking up the keys of one list in another that has the same keys, each of them once, gives the
    other list. -/
theorem map_find?_eq {α β γ : Type} [DecidableEq γ] {xs : List α} {ys : List β} {f : α → γ}
    {g : β → γ} (hsame : xs.map f = ys.map g) (hnodup : (ys.map g).Nodup) :
    (xs.map fun x => ys.find? fun y => g y = f x) = ys.map some := by
  have hkeys : (xs.map fun x => ys.find? fun y => g y = f x) =
      (xs.map f).map fun v => ys.find? fun y => g y = v := by
    rw [List.map_map]
    rfl
  rw [hkeys, hsame, List.map_map]
  refine List.map_congr_left fun y hy => ?_
  obtain ⟨z, hz⟩ : ∃ z, ys.find? (fun z => g z = g y) = some z :=
    Option.isSome_iff_exists.mp (List.find?_isSome.mpr ⟨y, hy, by simp⟩)
  have hkey : g z = g y := by simpa using List.find?_some hz
  rw [Function.comp_apply, hz,
    List.inj_on_of_nodup_map hnodup (List.mem_of_find?_eq_some hz) hy hkey]

theorem declaredPins_forms (node : NodeId) (first : Nat) (specs : List PinSpec) (d : Direction) :
    ((declaredPins node first specs).filter (·.direction = d)).map Pin.form = formsOf specs d := by
  have hspecs : specs = (specs.zipIdx first).map Prod.fst := (List.zipIdx_map_fst first specs).symm
  conv_rhs => rw [formsOf, hspecs, List.filter_map, List.map_map]
  rw [declaredPins, List.filter_map, List.map_map]
  rfl

namespace Graph

variable {g g' : Graph}

/-- The node has exactly the pins that are declared. -/
def HasForms (g : Graph) (node : NodeId) (specs : List PinSpec) : Prop :=
  ∀ d, g.forms node d = formsOf specs d

/-- The pins that the behavior of the node declares. -/
def declaredSpecs (g : Graph) (node : NodeId) : List PinSpec :=
  ((g.nodes.get? node).bind Node.behavior).elim [] fun b => b.layout g.propertyValue?

/-- The node has exactly the pins its behavior declares. -/
def AsDeclared (g : Graph) (node : NodeId) : Prop := g.HasForms node (g.declaredSpecs node)

/-- The id that a pin has after a new layout of the node. -/
def renewed (g : Graph) (node : NodeId) (g' : Graph) (p : PinId) : PinId :=
  (g.standIn? node g' p).getD p

section Bare

variable {n : Node} {specs : List PinSpec} (h : g.Sound) (hn : g.nodes.get? n.id = some n)
  (hs : (g.bare n specs).Sound) (hnames : g.NamesApart n.id) (hforms : g.HasForms n.id specs)
include h hn hs hnames hforms

omit h hn hs in
theorem names_nodup (d : Direction) :
    ((specs.filter (·.direction = d)).map PinSpec.name).Nodup := by
  have hnames := hnames d
  have hfirst : ∀ h : Graph, (h.pinsOf n.id d).map Pin.name = (h.forms n.id d).map Prod.fst := by
    intro h
    rw [forms, List.map_map]
    rfl
  rw [hfirst, hforms d, formsOf, List.map_map] at hnames
  exact hnames

/-- Every pin has a stand-in, and its place has the type it had. -/
theorem Sound.place_of_pin {p : PinId} {pin : Pin} (hp : g.pins.get? p = some pin) :
    g.standIn? n.id (g.bare n specs) p = some (g.renewed n.id (g.bare n specs) p) ∧
      g.placeType? n.id specs p = some pin.type := by
  suffices hboth : (∃ q, g.standIn? n.id (g.bare n specs) p = some q) ∧
      g.placeType? n.id specs p = some pin.type by
    obtain ⟨⟨q, hq⟩, htype⟩ := hboth
    exact ⟨by rw [renewed, hq, Option.getD_some], htype⟩
  simp only [standIn?, placeType?, hp, Option.bind_eq_bind, Option.bind_some]
  by_cases hnode : pin.node = n.id
  · rw [if_pos hnode, if_pos hnode]
    have hmem := h.intact.mem_pinsOf hp
    rw [hnode] at hmem
    have hform : pin.form ∈ formsOf specs pin.direction := by
      rw [← hforms pin.direction]
      exact List.mem_map_of_mem hmem
    obtain ⟨s, hspec, heq⟩ := List.mem_map.mp hform
    obtain ⟨hspec, hd⟩ := List.mem_filter.mp hspec
    simp only [Pin.form, Prod.mk.injEq] at heq
    have hdeclared : declaredType? specs pin.direction pin.name = some pin.type :=
      (declaredType?_eq_some (names_nodup hnames hforms _)).mpr
        ⟨s, hspec, by simpa using hd, heq.1, heq.2⟩
    refine ⟨?_, hdeclared⟩
    rw [declaredType?_eq n.id g.nextId, Option.map_eq_some_iff] at hdeclared
    obtain ⟨pin', hfind, -⟩ := hdeclared
    exact ⟨pin'.id, by rw [hs.findPin?_bare hn, hfind]; rfl⟩
  · rw [if_neg hnode, if_neg hnode]
    exact ⟨⟨p, rfl⟩, rfl⟩

omit h hn hs hnames hforms in
/-- The pins of other nodes keep their ids. -/
theorem renewed_of_ne {node : NodeId} {p : PinId} {pin : Pin} (hp : g.pins.get? p = some pin)
    (hnode : pin.node ≠ node) : g.renewed node g' p = p := by
  simp only [renewed, standIn?, hp, Option.bind_eq_bind, Option.bind_some, if_neg hnode,
    Option.getD_some]

theorem Sound.renewed_inj {p q : PinId} {a b : Pin} (ha : g.pins.get? p = some a)
    (hb : g.pins.get? q = some b)
    (heq : g.renewed n.id (g.bare n specs) p = g.renewed n.id (g.bare n specs) q) : p = q := by
  have hp := (h.place_of_pin hn hs hnames hforms ha).1
  have hq := (h.place_of_pin hn hs hnames hforms hb).1
  rw [← heq] at hq
  exact h.standIn?_inj hn hs hnames ha hb hp hq

/-- The pin that stands in for another is the same but for its id, its links and its value. -/
theorem Sound.pin_of_renewed {p : PinId} {pin : Pin} (hp : g.pins.get? p = some pin) :
    ∃ pin', (g.bare n specs).pins.get? (g.renewed n.id (g.bare n specs) p) = some pin' ∧
      pin'.name = pin.name ∧ pin'.node = pin.node ∧ pin'.direction = pin.direction ∧
      pin'.type = pin.type := by
  obtain ⟨hstand, htype⟩ := h.place_of_pin hn hs hnames hforms hp
  obtain ⟨pin', hpin', hd, hplace⟩ := h.pin_of_standIn? hn hs hp hstand
  rw [htype, Option.some.injEq] at hplace
  by_cases hnode : pin.node = n.id
  · rw [h.standIn?_bare hn hs hp, Pin.asEnd_of_mem hnode] at hstand
    obtain ⟨pin'', hpin'', hnode', -, hname⟩ := hs.intact.pin_of_findPin? hstand
    rw [hpin'] at hpin''
    cases hpin''
    exact ⟨pin', hpin', hname, hnode'.trans hnode.symm, hd, hplace.symm⟩
  · rw [renewed_of_ne hp hnode] at hpin' ⊢
    rw [hs.pin_of_kept hp (h.not_mem_pins hn hp hnode)] at hpin' ⊢
    cases hpin'
    exact ⟨_, rfl, rfl, rfl, rfl, rfl⟩

/-- Each link of the node is restored between the stand-ins of its ends. -/
theorem Sound.restored_of_forms {l : Link} (hl : l ∈ g.linksOfNode n.id) :
    g.restored? n.id specs (g.bare n specs) l =
      some (l.pair.map (g.renewed n.id (g.bare n specs))) := by
  obtain ⟨p, -, q, pin, far, hq, hpin, hfar, -⟩ := h.remembered hn hl
  obtain ⟨hp, htype⟩ := h.place_of_pin hn hs hnames hforms hpin
  obtain ⟨hq', htype'⟩ := h.place_of_pin hn hs hnames hforms hfar
  have hget := h.intact.links.get?_of_mem_values ((mem_linksOfNode hn).mp hl).1
  obtain ⟨far', hfar', hsame, -⟩ := h.intact.otherEnd hget hpin hq
  rw [hfar] at hfar'
  cases hfar'
  refine (restored?_eq_some hq).mpr ⟨_, _, hp, hq', by rw [htype, htype', hsame], ?_⟩
  rw [Link.pair_eq hq, Sym2.map_mk]

/-- The pins of the node correspond to the declared ones in order. -/
theorem Sound.pinsOf_renewed (d : Direction) :
    (n.pinsOf d).map (g.renewed n.id (g.bare n specs)) =
      ((declaredPins n.id g.nextId specs).filter (·.direction = d)).map Pin.id := by
  have hids : n.pinsOf d = (g.pinsOf n.id d).map Pin.id := by
    simp only [pinsOf, hn, List.map_filterMap]
    refine Eq.symm ((List.filterMap_congr fun p hp => ?_).trans List.filterMap_some)
    obtain ⟨pin, hpin, -⟩ := h.intact.listed hn hp
    rw [hpin, Option.map_some, h.intact.pins.get?_id hpin]
  have hsame : (g.pinsOf n.id d).map Pin.name =
      ((declaredPins n.id g.nextId specs).filter (·.direction = d)).map Pin.name := by
    have hboth := hforms d
    rw [← declaredPins_forms n.id g.nextId] at hboth
    have hfirst := congrArg (List.map Prod.fst) hboth
    rw [forms, List.map_map, List.map_map] at hfirst
    exact hfirst
  have hnodup := hnames d
  rw [hsame] at hnodup
  have hfind : (g.pinsOf n.id d).map (fun pin => some (g.renewed n.id (g.bare n specs) pin.id)) =
      (g.pinsOf n.id d).map fun pin =>
        (((declaredPins n.id g.nextId specs).filter (·.direction = d)).find?
          (·.name = pin.name)).map Pin.id := by
    refine List.map_congr_left fun pin hpin => ?_
    obtain ⟨p, hp, hget⟩ := (Graph.mem_pinsOf hn).mp hpin
    obtain ⟨pin', hget', hnode, hd⟩ := h.intact.listed hn hp
    rw [hget] at hget'
    cases hget'
    rw [h.intact.pins.get?_id hget, ← (h.place_of_pin hn hs hnames hforms hget).1,
      h.standIn?_bare hn hs hget, Pin.asEnd_of_mem hnode, hd, findEnd?, hs.findPin?_bare hn]
  have hdone : (g.pinsOf n.id d).map (fun pin => some (g.renewed n.id (g.bare n specs) pin.id)) =
      ((declaredPins n.id g.nextId specs).filter (·.direction = d)).map fun pin => some pin.id := by
    have hlook := congrArg (List.map (Option.map Pin.id)) (map_find?_eq hsame hnodup)
    rw [List.map_map, List.map_map] at hlook
    exact hfind.trans hlook
  rw [hids, List.map_map]
  refine List.map_injective_iff.mpr (Option.some_injective _) ?_
  rw [List.map_map, List.map_map]
  exact hdone

end Bare

/-! ## Links -/

/-- What feeds an input is told by the ends of the links. -/
theorem Intact.feedingPin?_iff (h : g.Intact) {p q : PinId} {pin : Pin}
    (hp : g.pins.get? p = some pin) :
    g.feedingPin? p = some q ↔
      pin.direction = .input ∧ s(p, q) ∈ g.links.values.map Link.pair := by
  rw [List.mem_map]
  constructor
  · intro hq
    obtain ⟨pin', l, link, hp', hd, -, hl, hother⟩ := feedingPin?_eq_some.mp hq
    rw [hp] at hp'
    cases hp'
    exact ⟨hd, link, Table.mem_values_of_get? hl, Link.pair_eq hother⟩
  · rintro ⟨hd, link, hmem, hpair⟩
    have hget := h.links.get?_of_mem_values hmem
    have hother : link.otherEnd? p = some q := Link.otherEnd?_eq_some.mpr
      ((Sym2.eq_iff.mp hpair).imp (fun heq => heq) And.symm)
    exact h.feedingPin?_of_otherEnd hp hd hget hother

/-- The links are those without an end on the node and those with one. -/
theorem links_perm {n : Node} (hn : g.nodes.get? n.id = some n) :
    ((g.links.values.filter fun l => !n.pins.any l.involves) ++ g.linksOfNode n.id).Perm
      g.links.values := by
  have hperm := List.filter_append_perm (fun l => !n.pins.any l.involves) g.links.values
  simp only [Bool.not_not] at hperm
  simp only [linksOfNode, hn, Option.elim_some]
  exact hperm

/-- The ends of a link without an end on the node keep their ids. -/
theorem Intact.renewed_of_other (h : g.Intact) {n : Node} (hn : g.nodes.get? n.id = some n)
    {l : Link} (hl : l ∈ g.links.values) (hother : n.pins.any l.involves = false) {p : PinId}
    (hp : l.involves p = true) : g.renewed n.id g' p = p := by
  obtain ⟨pin, hpin⟩ := h.end_exists (h.links.get?_of_mem_values hl) hp
  refine renewed_of_ne hpin fun hnode => ?_
  rw [List.any_eq_true.mpr ⟨p, (h.mem_pins hn).mpr ⟨pin, hpin, hnode⟩, hp⟩] at hother
  cases hother

section Again

variable {n : Node} {b : Behavior} (h : g.Sound) (hn : g.nodes.get? n.id = some n)
  (hb : n.behavior = some b) (hnames : g.NamesApart n.id)
  (hforms : g.HasForms n.id (b.layout g.propertyValue?))
  (hlast : (Graph.relayout n.id g).graph.nextId < lastNumber)
include h hn hb hnames hlast

/-- Drawing links does not change which pin stands in for another. -/
theorem Sound.renewed_relayout :
    g.renewed n.id (Graph.relayout n.id g).graph =
      g.renewed n.id (g.bare n (b.layout g.propertyValue?)) := by
  obtain ⟨-, hdrawn⟩ := h.relayout_drawn hn hb hnames hlast
  have hnodes : (Graph.relayout n.id g).graph.nodes =
      (g.bare n (b.layout g.propertyValue?)).nodes := by rw [hdrawn.rest]
  funext p
  rw [renewed, standIn?_unlinked hnodes hdrawn.pins, renewed]

include hforms

/-- The links afterwards are the links before, between the pins that correspond. -/
theorem Sound.pairs_relayout :
    ((Graph.relayout n.id g).graph.links.values.map Link.pair).Perm
      (g.links.values.map fun l => l.pair.map (g.renewed n.id (Graph.relayout n.id g).graph)) := by
  obtain ⟨hs, hdrawn⟩ := h.relayout_drawn hn hb hnames hlast
  have hrelaid := h.relaid hn hb hnames hlast
  have hnodes : (Graph.relayout n.id g).graph.nodes =
      (g.bare n (b.layout g.propertyValue?)).nodes := by rw [hdrawn.rest]
  have hkept : (g.links.values.filter fun l => !n.pins.any l.involves).map Link.pair =
      (g.links.values.filter fun l => !n.pins.any l.involves).map fun l =>
        l.pair.map (g.renewed n.id (Graph.relayout n.id g).graph) := by
    refine List.map_congr_left fun l hl => ?_
    obtain ⟨hl, hother⟩ := List.mem_filter.mp hl
    rw [Bool.not_eq_true'] at hother
    rw [Link.pair, Sym2.map_mk,
      h.intact.renewed_of_other hn hl hother (Link.involves_iff.mpr (.inl rfl)),
      h.intact.renewed_of_other hn hl hother (Link.involves_iff.mpr (.inr rfl))]
  have hrestored : (g.linksOfNode n.id).filterMap
      (g.restored? n.id (b.layout g.propertyValue?) (Graph.relayout n.id g).graph) =
      (g.linksOfNode n.id).map fun l =>
        l.pair.map (g.renewed n.id (Graph.relayout n.id g).graph) := by
    rw [← List.filterMap_eq_map]
    refine List.filterMap_congr fun l hl => ?_
    rw [restored?_unlinked hnodes hdrawn.pins, h.restored_of_forms hn hs hnames hforms hl,
      h.renewed_relayout hn hb hnames hlast]
    rfl
  rw [hrelaid.kept, List.map_append, hkept]
  refine (List.Perm.append_left _ hrelaid.restored).trans ?_
  rw [hrestored, ← List.map_append]
  exact (links_perm hn).map _

/-- The pin that stands in for another is afterwards the same but for its id, its links and its
    value. -/
theorem Sound.pin_of_renewed_relayout {p : PinId} {pin : Pin} (hp : g.pins.get? p = some pin) :
    ∃ pin', (Graph.relayout n.id g).graph.pins.get?
        (g.renewed n.id (Graph.relayout n.id g).graph p) = some pin' ∧
      pin'.name = pin.name ∧ pin'.node = pin.node ∧ pin'.direction = pin.direction ∧
      pin'.type = pin.type := by
  obtain ⟨hs, hdrawn⟩ := h.relayout_drawn hn hb hnames hlast
  obtain ⟨pin₁, hpin₁, hname, hnode, hd, htype⟩ := h.pin_of_renewed hn hs hnames hforms hp
  obtain ⟨pin', hpin', heq⟩ := pin_of_unlinked hdrawn.pins.symm hpin₁
  rw [h.renewed_relayout hn hb hnames hlast]
  cases pin'
  cases pin₁
  cases heq
  exact ⟨_, hpin', hname, hnode, hd, htype⟩

/-- The nodes list the pins that stand in for those they listed. -/
theorem Sound.nodes_relayout :
    (Graph.relayout n.id g).graph.nodes =
      g.nodes.map (.repinned (g.renewed n.id (Graph.relayout n.id g).graph)) := by
  obtain ⟨hs, -⟩ := h.relayout_drawn hn hb hnames hlast
  rw [(h.relaid hn hb hnames hlast).nodes, h.intact.nodes.modify_eq_map]
  refine Table.map_congr fun m hm => ?_
  have hm := h.intact.nodes.get?_of_mem_values hm
  by_cases hid : m.id = n.id
  · rw [hid, hn] at hm
    cases hm
    have hlists := h.pinsOf_renewed hn hs hnames hforms
    rw [if_pos rfl, h.renewed_relayout hn hb hnames hlast, ← hb]
    exact congrArg₂ (fun inputs outputs => { n with inputs := inputs, outputs := outputs })
      (hlists .input).symm (hlists .output).symm
  · have hfixed : ∀ d, (m.pinsOf d).map (g.renewed n.id (Graph.relayout n.id g).graph) =
        m.pinsOf d := by
      intro d
      refine (List.map_congr_left fun p hp => ?_).trans (List.map_id _)
      obtain ⟨pin, hpin, hnode, -⟩ := h.intact.listed hm hp
      exact renewed_of_ne hpin (hnode ▸ hid)
    rw [if_neg hid]
    exact congrArg₂ (fun inputs outputs => { m with inputs := inputs, outputs := outputs })
      (hfixed .input).symm (hfixed .output).symm

/-- What stands in for a pin is fed from what stands in for the pin that fed it. -/
theorem Sound.feedingPin?_relayout {p : PinId} {pin : Pin} (hp : g.pins.get? p = some pin) :
    (Graph.relayout n.id g).graph.feedingPin?
        (g.renewed n.id (Graph.relayout n.id g).graph p) =
      (g.feedingPin? p).map (g.renewed n.id (Graph.relayout n.id g).graph) := by
  obtain ⟨hs, hdrawn⟩ := h.relayout_drawn hn hb hnames hlast
  obtain ⟨pin', hpin', -, -, hd, -⟩ := h.pin_of_renewed_relayout hn hb hnames hforms hlast hp
  have hinj : ∀ {r c}, g.pins.get? r = some c →
      g.renewed n.id (Graph.relayout n.id g).graph r =
        g.renewed n.id (Graph.relayout n.id g).graph p → r = p := by
    intro r c hr heq
    rw [h.renewed_relayout hn hb hnames hlast] at heq
    exact h.renewed_inj hn hs hnames hforms hr hp heq
  refine Option.ext fun q' => ?_
  rw [Option.map_eq_some_iff, hdrawn.sound.intact.feedingPin?_iff hpin', hd,
    (h.pairs_relayout hn hb hnames hforms hlast).mem_iff, List.mem_map]
  constructor
  · rintro ⟨hd, l, hl, heq⟩
    obtain ⟨a, b, ha, hb', -⟩ := h.intact.joined (h.intact.links.get?_of_mem_values hl)
    have hpair : ∀ q, l.pair = s(p, q) → g.feedingPin? p = some q := fun q hq =>
      (h.intact.feedingPin?_iff hp).mpr ⟨hd, List.mem_map.mpr ⟨l, hl, hq⟩⟩
    rw [Link.pair, Sym2.map_mk] at heq
    rcases Sym2.eq_iff.mp heq with ⟨heqp, heqq⟩ | ⟨heqq, heqp⟩
    · exact ⟨l.finish, hpair _ (by rw [Link.pair, hinj ha heqp]), heqq⟩
    · exact ⟨l.start, hpair _ (by rw [Link.pair, hinj hb' heqp, Sym2.eq_swap]), heqq⟩
  · rintro ⟨q, hq, rfl⟩
    obtain ⟨hd, hmem⟩ := (h.intact.feedingPin?_iff hp).mp hq
    obtain ⟨l, hl, heq⟩ := List.mem_map.mp hmem
    exact ⟨hd, l, hl, by rw [heq, Sym2.map_mk]⟩

/-- After a layout that is the same again, the node has other pins in the place of the old ones, and
    nothing that counts for an evaluation has changed. -/
theorem Sound.repinned :
    g.Repinned (g.renewed n.id (Graph.relayout n.id g).graph) (Graph.relayout n.id g).graph where
  indexed := h.intact.indexed
  indexed' := (h.relayout_drawn hn hb hnames hlast).2.sound.intact.indexed
  nodes := h.nodes_relayout hn hb hnames hforms hlast
  pins hp := by
    obtain ⟨pin', hpin', hname, hnode, -, htype⟩ :=
      h.pin_of_renewed_relayout hn hb hnames hforms hlast hp
    exact ⟨pin', hpin', hname, hnode, htype⟩
  listed hm _ _ hp := by
    obtain ⟨pin, hpin, -⟩ := h.intact.listed hm hp
    exact ⟨pin, hpin⟩
  feeds hp := h.feedingPin?_relayout hn hb hnames hforms hlast hp
  sources hq := by
    obtain ⟨-, pin, -, -, hpin, -⟩ := h.intact.feeding hq
    exact ⟨pin, hpin⟩
  types p := by
    rw [typeOf?, propertyValue?, (h.relaid hn hb hnames hlast).properties]
    rfl

end Again

end Graph

end FlowGraph
