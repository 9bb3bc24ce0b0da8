import FlowGraph.Proofs.Graph.Frame
import FlowGraph.Proofs.Graph.Properties

/-!
# A new layout in closed form

A new layout takes a node's pins away and their links with them, gives it the declared pins under
the next numbers, and draws the cut links again, one by one.  What the first two stages come to is
one graph (`Graph.bare`).  Which links the third one draws, and between which pins, can be told from
that graph alone (`Graph.drawnEnds?`): drawing a link changes nothing but the lists of its ends, and
as each input gets one link at most, no link that is drawn takes the place of another.
-/

namespace FlowGraph

/-- Of two different directions, the one is the input if the other is not. -/
theorem Direction.input_of_ne {d e : Direction} (hne : d ≠ e) (he : e ≠ .input) : d = .input := by
  cases d with
  | input => rfl
  | output =>
    cases e with
    | input => exact absurd rfl he
    | output => exact absurd rfl hne

/-! ## Declared pins -/

/-- The declared pins as a node gets them: under the numbers from `first` on, without links. -/
def declaredPins (node : NodeId) (first : Nat) (specs : List PinSpec) : List Pin :=
  (specs.zipIdx first).map fun (spec, i) => .ofSpec ⟨i⟩ node spec

theorem declaredPins_append (node : NodeId) (first : Nat) (specs : List PinSpec) (spec : PinSpec) :
    declaredPins node first (specs ++ [spec]) =
      declaredPins node first specs ++ [.ofSpec ⟨first + specs.length⟩ node spec] := by
  simp [declaredPins, List.zipIdx_append]

/-- A declared pin carries the number of its place. -/
theorem mem_declaredPins {node : NodeId} {first : Nat} {specs : List PinSpec} {pin : Pin} :
    pin ∈ declaredPins node first specs ↔
      ∃ i spec, specs[i]? = some spec ∧ pin = .ofSpec ⟨first + i⟩ node spec := by
  simp only [declaredPins, List.mem_map, Prod.exists, List.mk_mem_zipIdx_iff_le_and_getElem?_sub]
  constructor
  · rintro ⟨spec, i, ⟨hle, hspec⟩, rfl⟩
    exact ⟨i - first, spec, hspec, by rw [Nat.add_sub_cancel' hle]⟩
  · rintro ⟨i, spec, hspec, rfl⟩
    exact ⟨spec, first + i, ⟨Nat.le_add_right first i, by rwa [Nat.add_sub_cancel_left]⟩, rfl⟩

/-- The node with these pins behind its own. -/
def Node.withPins (pins : List Pin) (n : Node) : Node :=
  { n with
    inputs := n.inputs ++ (pins.filter (·.direction = .input)).map Pin.id
    outputs := n.outputs ++ (pins.filter (·.direction = .output)).map Pin.id }

theorem Node.pinsOf_withPins (pins : List Pin) (n : Node) (d : Direction) :
    (n.withPins pins).pinsOf d = n.pinsOf d ++ (pins.filter (·.direction = d)).map Pin.id := by
  cases d <;> rfl

theorem Node.withPins_append (pins : List Pin) (pin : Pin) (n : Node) :
    n.withPins (pins ++ [pin]) = (n.withPins pins).attach pin.id pin.direction := by
  obtain ⟨id, name, d, node, value, links⟩ := pin
  cases d <;> simp [withPins, attach]

theorem Node.withPins_nil (n : Node) : n.withPins [] = n := by
  simp [withPins]

/-- The node without its pins. -/
def Node.pinless (n : Node) : Node := { n with inputs := [], outputs := [] }

namespace Graph

open Edit

variable {g g' : Graph}

/-- What adding declared pins comes to. -/
theorem Sound.addPins_graph (h : g.Sound) {node : NodeId} (hnode : node ∈ g.nodes.keys)
    {specs : List PinSpec} (hlast : (Graph.addPins node specs g).graph.nextId < lastNumber) :
    (Graph.addPins node specs g).graph = { g with
      nodes := g.nodes.modify node (.withPins (declaredPins node g.nextId specs))
      pins := ⟨g.pins.entries ++ (declaredPins node g.nextId specs).map fun p => (p.id, p)⟩
      nextId := g.nextId + specs.length } := by
  refine (forM_steps (Q := fun done g' => g'.Sound ∧ node ∈ g'.nodes.keys ∧ g' = { g with
      nodes := g.nodes.modify node (.withPins (declaredPins node g.nextId done))
      pins := ⟨g.pins.entries ++ (declaredPins node g.nextId done).map fun p => (p.id, p)⟩
      nextId := g.nextId + done.length })
    (addPin_counts node) ?_ specs ⟨h, hnode, ?_⟩ hlast).2.2
  · rintro done spec g' ⟨hg', hkey, heq⟩ hl
    refine ⟨hg'.withPin hl hkey spec, mem_keys_withPin.mpr hkey, ?_⟩
    have hnext : nextNumber g'.nextId = g'.nextId + 1 := nextNumber_of_lt hl
    have hpins : g'.pins.insert ⟨g'.nextId⟩ (.ofSpec ⟨g'.nextId⟩ node spec) =
        ⟨g'.pins.entries ++ [(⟨g'.nextId⟩, .ofSpec ⟨g'.nextId⟩ node spec)]⟩ :=
      Table.ext (Table.entries_insert_of_not_mem hg'.numbered.fresh_pin _)
    have hattach : ∀ pin : Pin, (fun n : Node => n.attach pin.id pin.direction) ∘
        Node.withPins (declaredPins node g.nextId done) =
          Node.withPins (declaredPins node g.nextId done ++ [pin]) :=
      fun pin => funext fun n => (n.withPins_append _ pin).symm
    rw [addPin_graph, Graph.withPin, Graph.counted, hpins, hnext, heq]
    simp only [Table.modify_modify_self, declaredPins_append, List.map_append, List.append_assoc,
      List.length_append, Nat.add_assoc]
    rw [← hattach]
    rfl
  · have hsame : g.nodes.modify node (.withPins []) = g.nodes :=
      Table.modify_eq_self h.intact.nodes.nodup fun n _ => n.withPins_nil
    simp only [declaredPins, List.zipIdx_nil, List.map_nil, List.append_nil, hsame]
    rfl

/-! ## Before any link is drawn -/

/-- The graph in which the node has the declared pins instead of its own, and neither has links. -/
def bare (g : Graph) (n : Node) (specs : List PinSpec) : Graph :=
  { g with
    nodes := g.nodes.modify n.id fun m => m.pinless.withPins (declaredPins n.id g.nextId specs)
    pins := ⟨((g.pins.filter fun p => !n.pins.contains p).map
        (.without (n.pins.flatMap g.linksAt))).entries ++
      (declaredPins n.id g.nextId specs).map fun p => (p.id, p)⟩
    links := g.links.filter fun l => !(n.pins.flatMap g.linksAt).contains l
    nextId := g.nextId + specs.length }

/-- No other node lists a pin of the node, so the node alone loses its pins. -/
theorem Intact.nodes_without_pins (h : g.Intact) {n : Node} (hn : g.nodes.get? n.id = some n)
    (links : List LinkId) :
    (g.without [] n.pins links).nodes = g.nodes.modify n.id Node.pinless := by
  have hwithout : (g.without [] n.pins links).nodes = g.nodes.map (.without n.pins) := by
    rw [Graph.without, Table.filter_not_nil]
  rw [hwithout, h.nodes.modify_eq_map]
  refine Table.map_congr fun m hm => ?_
  have hm := h.nodes.get?_of_mem_values hm
  by_cases hid : m.id = n.id
  · rw [if_pos hid]
    rw [hid, hn] at hm
    cases hm
    have hgone : ∀ ps : List PinId, (∀ p ∈ ps, p ∈ n.pins) →
        ps.filter (fun p => !n.pins.contains p) = [] := fun ps hps =>
      List.filter_eq_nil_iff.mpr fun p hp => by simpa using hps p hp
    rw [Node.without, hgone _ fun p hp => List.mem_append_left _ hp,
      hgone _ fun p hp => List.mem_append_right _ hp]
    rfl
  · rw [if_neg hid]
    refine Node.without_eq_self fun p hp hpn => hid ?_
    obtain ⟨pin, hpin, hnode⟩ := h.node_of_listed hm hp
    exact hnode.symm.trans (h.node_eq hn hpn hpin)

theorem Sound.bare_graph (h : g.Sound) {n : Node} (hn : g.nodes.get? n.id = some n)
    {specs : List PinSpec}
    (hlast : (Graph.addPins n.id specs (Graph.deletePins n.pins g).graph).graph.nextId <
      lastNumber) :
    (Graph.addPins n.id specs (Graph.deletePins n.pins g).graph).graph = g.bare n specs := by
  have hkey : n.id ∈ (Graph.deletePins n.pins g).graph.nodes.keys := by
    rw [deletePins_graph h.intact, h.intact.nodes_without_pins hn, Table.keys_modify]
    exact Table.mem_keys_of_get? hn
  rw [(h.deletePins n.pins).addPins_graph hkey hlast, deletePins_graph h.intact,
    h.intact.nodes_without_pins hn, Table.modify_modify_self]
  rfl

/-! ## What is found in the bare graph -/

section Bare

variable {n : Node} {specs : List PinSpec} (hs : (g.bare n specs).Sound)
include hs

theorem Sound.pin_of_declared {pin : Pin} (hpin : pin ∈ declaredPins n.id g.nextId specs) :
    (g.bare n specs).pins.get? pin.id = some pin := by
  refine hs.intact.pins.get?_of_mem (e := (pin.id, pin)) ?_
  exact List.mem_append_right _ (List.mem_map.mpr ⟨pin, hpin, rfl⟩)

theorem Sound.pin_of_kept {p : PinId} {pin : Pin} (hp : g.pins.get? p = some pin)
    (hother : p ∉ n.pins) :
    (g.bare n specs).pins.get? p = some (pin.without (n.pins.flatMap g.linksAt)) := by
  refine hs.intact.pins.get?_of_mem (e := (p, pin.without (n.pins.flatMap g.linksAt))) ?_
  refine List.mem_append_left _ (List.mem_map.mpr ⟨(p, pin), List.mem_filter.mpr ⟨?_, ?_⟩, rfl⟩)
  · exact Table.mem_entries_of_get? hp
  · simpa using hother

omit hs in
/-- A pin of the bare graph is one that was declared or one of another node. -/
theorem Intact.pin_of_bare (h : g.Intact) {p : PinId} {pin : Pin}
    (hp : (g.bare n specs).pins.get? p = some pin) :
    (p = pin.id ∧ pin ∈ declaredPins n.id g.nextId specs) ∨
      p ∉ n.pins ∧ ∃ pin₀, g.pins.get? p = some pin₀ ∧
        pin = pin₀.without (n.pins.flatMap g.linksAt) := by
  rcases List.mem_append.mp (Table.mem_entries_of_get? hp) with hm | hm
  · obtain ⟨e, he, heq⟩ := List.mem_map.mp hm
    obtain ⟨he, hother⟩ := List.mem_filter.mp he
    cases heq
    exact .inr ⟨by simpa using hother, e.2, h.pins.get?_of_mem he, rfl⟩
  · obtain ⟨pin', hpin', heq⟩ := List.mem_map.mp hm
    cases heq
    exact .inl ⟨rfl, hpin'⟩

omit hs in
theorem get?_node_bare (hn : g.nodes.get? n.id = some n) :
    (g.bare n specs).nodes.get? n.id =
      some (n.pinless.withPins (declaredPins n.id g.nextId specs)) := by
  simp [bare, hn]

/-- A pin is found by its direction and name if it is the first that was declared with both. -/
theorem Sound.findPin?_bare (hn : g.nodes.get? n.id = some n) (d : Direction) (name : String) :
    (g.bare n specs).findPin? n.id d name =
      (((declaredPins n.id g.nextId specs).filter (·.direction = d)).find? (·.name = name)).map
        Pin.id := by
  have hlisted : (n.pinless.withPins (declaredPins n.id g.nextId specs)).pinsOf d =
      ((declaredPins n.id g.nextId specs).filter (·.direction = d)).map Pin.id := by
    rw [Node.pinsOf_withPins]
    cases d <;> rfl
  simp only [findPin?, get?_node_bare hn, Option.map_some, Option.bind_some, hlisted,
    List.find?_map]
  rw [← List.head?_filter, ← List.head?_filter]
  congr 2
  refine List.filter_congr fun pin hpin => ?_
  simp [hs.pin_of_declared (List.mem_of_mem_filter hpin)]

end Bare

/-! ## Finding pins -/

/-- What is found is a pin of the node with the direction and the name. -/
theorem Intact.pin_of_findPin? (h : g.Intact) {k : NodeId} {d : Direction} {name : String}
    {p : PinId} (hp : g.findPin? k d name = some p) :
    ∃ pin, g.pins.get? p = some pin ∧ pin.node = k ∧ pin.direction = d ∧ pin.name = name := by
  obtain ⟨listed, hlisted, hfind⟩ := Option.bind_eq_some_iff.mp hp
  obtain ⟨n, hn, rfl⟩ := Option.map_eq_some_iff.mp hlisted
  obtain ⟨pin, hpin, hnode, hd⟩ := h.listed hn (List.mem_of_find?_eq_some hfind)
  have hname := List.find?_some hfind
  rw [hpin] at hname
  exact ⟨pin, hpin, hnode, hd, by simpa using hname⟩

/-! ## Drawing -/

/-- The ends of the link that a cut one becomes, if it can be drawn. -/
def drawnEnds? (g : Graph) (node : NodeId) (cut : CutLink) : Option (PinId × PinId) := do
  let a ← g.findPin? node cut.direction cut.name
  let b ← g.findEnd? node cut.far
  if g.canConnect? a b = some (true, true) then some (a, b) else none

theorem drawnEnds?_eq_some {node : NodeId} {cut : CutLink} {a b : PinId} :
    g.drawnEnds? node cut = some (a, b) ↔
      g.findPin? node cut.direction cut.name = some a ∧ g.findEnd? node cut.far = some b ∧
        g.canConnect? a b = some (true, true) := by
  unfold drawnEnds?
  cases g.findPin? node cut.direction cut.name with
  | none => simp
  | some a' =>
    cases g.findEnd? node cut.far with
    | none => simp
    | some b' =>
      simp only [Option.bind_eq_bind, Option.bind_some, Option.ite_none_right_eq_some,
        Option.some.injEq, Prod.mk.injEq]
      constructor
      · rintro ⟨hfit, rfl, rfl⟩
        exact ⟨rfl, rfl, hfit⟩
      · rintro ⟨rfl, rfl, hfit⟩
        exact ⟨hfit, rfl, rfl⟩

/-- The links between these ends, in order, under the numbers from `first` on. -/
def newLinks (first : Nat) (ends : List (PinId × PinId)) : List Link :=
  (ends.zipIdx first).map fun (e, i) => ⟨⟨i⟩, e.1, e.2⟩

theorem newLinks_append (first : Nat) (ends : List (PinId × PinId)) (e : PinId × PinId) :
    newLinks first (ends ++ [e]) = newLinks first ends ++ [⟨⟨first + ends.length⟩, e.1, e.2⟩] := by
  simp [newLinks, List.zipIdx_append]

/-- Some links were drawn and nothing else happened. -/
structure Drawn (base : Graph) (ends : List (PinId × PinId)) (g : Graph) : Prop where
  sound : g.Sound
  rest : g = { base with pins := g.pins, links := g.links, nextId := g.nextId }
  pins : g.pins.map .unlinked = base.pins.map .unlinked
  links : g.links.values = base.links.values ++ newLinks base.nextId ends
  nextId : g.nextId = base.nextId + ends.length

variable {base : Graph} {ends : List (PinId × PinId)}

theorem Drawn.refl (h : g.Sound) : g.Drawn [] g :=
  ⟨h, rfl, rfl, (List.append_nil _).symm, rfl⟩

theorem canConnect?_eq {a b : PinId} :
    g.canConnect? a b = some (true, true) ↔
      ∃ p q, g.pins.get? a = some p ∧ g.pins.get? b = some q ∧ p.canConnect q = true := by
  unfold canConnect?
  cases g.pins.get? a with
  | none => simp
  | some p =>
    cases g.pins.get? b with
    | none => simp
    | some q => simp [q.canConnect_comm p]

/-- Drawing a cut link again is making the link between its ends, if there are any. -/
theorem redraw_graph (node : NodeId) (cut : CutLink) (g : Graph) :
    (redraw node cut g).graph =
      match g.drawnEnds? node cut with
      | none => g
      | some (a, b) => (createLink a b g).graph := by
  simp only [redraw, current_bind, drawnEnds?]
  cases g.findPin? node cut.direction cut.name with
  | none => rfl
  | some a =>
    cases g.findEnd? node cut.far with
    | none => rfl
    | some b =>
      simp only [Option.bind_eq_bind, Option.bind_some, discard_graph]
      by_cases hfit : g.canConnect? a b = some (true, true)
      · rw [if_pos hfit]
      · rw [if_neg hfit]
        rcases createLink_cases a b g with ⟨-, hg, -⟩ | ⟨p, q, hp, hq, hpq, -, -⟩
        · exact hg
        · exact absurd (canConnect?_eq.mpr ⟨p, q, hp, hq, hpq⟩) hfit

section Congr

variable (hnodes : g'.nodes = g.nodes) (hpins : g'.pins.map .unlinked = g.pins.map .unlinked)
include hpins

theorem get?_unlinked (p : PinId) :
    (g'.pins.get? p).map .unlinked = (g.pins.get? p).map Pin.unlinked := by
  rw [← Table.get?_map, hpins, Table.get?_map]

theorem canConnect?_unlinked (a b : PinId) : g'.canConnect? a b = g.canConnect? a b := by
  have hview : ∀ h : Graph, h.canConnect? a b =
      ((h.pins.get? a).map Pin.unlinked).bind fun p =>
        ((h.pins.get? b).map Pin.unlinked).bind fun q =>
          some (p.canConnect q, q.canConnect p) := by
    intro h
    unfold canConnect?
    cases h.pins.get? a <;> cases h.pins.get? b <;> rfl
  rw [hview, hview, get?_unlinked hpins, get?_unlinked hpins]

include hnodes

theorem findPin?_unlinked (k : NodeId) (d : Direction) (name : String) :
    g'.findPin? k d name = g.findPin? k d name := by
  have hview : ∀ pin? : Option Pin,
      pin?.any (·.name = name) = (pin?.map Pin.unlinked).any (·.name = name) := by
    intro pin?
    cases pin? <;> rfl
  have hname : ∀ p, (g'.pins.get? p).any (·.name = name) = (g.pins.get? p).any (·.name = name) := by
    intro p
    rw [hview (g'.pins.get? p), hview (g.pins.get? p), get?_unlinked hpins]
  simp only [findPin?, hnodes, hname]

theorem drawnEnds?_unlinked (k : NodeId) (cut : CutLink) :
    g'.drawnEnds? k cut = g.drawnEnds? k cut := by
  have hend : g'.findEnd? k cut.far = g.findEnd? k cut.far := by
    cases cut.far with
    | elsewhere pin =>
      have hkeys := congrArg Table.keys hpins
      rw [Table.keys_map, Table.keys_map] at hkeys
      have hcontains : g'.pins.contains pin = g.pins.contains pin := by
        rw [Bool.eq_iff_iff, ← Table.mem_keys_iff, ← Table.mem_keys_iff, hkeys]
      simp only [findEnd?, hcontains]
    | same name d => exact findPin?_unlinked hnodes hpins k d name
  simp only [drawnEnds?, findPin?_unlinked hnodes hpins, hend, canConnect?_unlinked hpins]

end Congr

/-- A link is made next to all others if the input among its ends has none. -/
theorem Intact.createLink_free (h : g.Intact) {a b : PinId} {p q : Pin}
    (ha : g.pins.get? a = some p) (hb : g.pins.get? b = some q) (hpq : p.canConnect q = true)
    (hfree : ∀ r pin, r = a ∨ r = b → g.pins.get? r = some pin → pin.direction = .input →
      g.linksAt r = []) :
    (Graph.createLink a b g).graph = g.withLink a b := by
  have hnone : (if p.direction = .input then p else q).links = [] := by
    by_cases hd : p.direction = .input
    · rw [if_pos hd, h.entered ha]
      exact hfree a p (.inl rfl) ha hd
    · rw [if_neg hd, h.entered hb]
      exact hfree b q (.inr rfl) hb (Direction.input_of_ne (Pin.canConnect_iff.mp hpq).2.2 hd)
  simp [Graph.createLink, ha, hb, hpq, hnone, deleteLinks]
  rfl

theorem pins_withLink_unlinked (g : Graph) (a b : PinId) :
    (g.withLink a b).pins.map .unlinked = g.pins.map .unlinked := by
  have hsame : ∀ (t : Table PinId Pin) (p : PinId) (l : LinkId),
      (t.modify p (·.connect l)).map .unlinked = t.map .unlinked := by
    intro t p l
    refine Table.ext ?_
    simp only [Table.map, Table.modify, List.map_map]
    refine List.map_congr_left fun e _ => ?_
    by_cases hp : e.1 = p
    · simp [hp, Pin.unlinked_connect]
    · simp [hp]
  show ((g.pins.modify a _).modify b _).map .unlinked = _
  rw [hsame, hsame]

/-- If its input is free, a cut link is drawn behind the others, or not at all. -/
theorem Drawn.redraw (h : base.Drawn ends g) {node : NodeId} {cut : CutLink}
    (hfree : ∀ e ∈ base.drawnEnds? node cut, ∀ p pin, p = e.1 ∨ p = e.2 →
      g.pins.get? p = some pin → pin.direction = .input → g.linksAt p = [])
    (hlast : (Graph.redraw node cut g).graph.nextId < lastNumber) :
    base.Drawn (ends ++ (base.drawnEnds? node cut).toList) (Graph.redraw node cut g).graph := by
  have hsound := h.sound.redraw hlast
  have hnodes : g.nodes = base.nodes := by rw [h.rest]
  rw [redraw_graph, drawnEnds?_unlinked hnodes h.pins] at hsound hlast ⊢
  cases hends : base.drawnEnds? node cut with
  | none =>
    rw [Option.toList_none, List.append_nil]
    exact h
  | some e =>
    obtain ⟨a, b⟩ := e
    have hfit : g.canConnect? a b = some (true, true) := by
      rw [canConnect?_unlinked h.pins]
      exact (drawnEnds?_eq_some.mp hends).2.2
    obtain ⟨p, q, ha, hb, hpq⟩ := canConnect?_eq.mp hfit
    rw [hends] at hsound hlast hfree
    have hg := h.sound.intact.createLink_free ha hb hpq (hfree (a, b) rfl)
    dsimp only at hsound hlast ⊢
    rw [hg] at hsound hlast ⊢
    have hnext : nextNumber g.nextId = g.nextId + 1 := nextNumber_of_lt hlast
    exact {
      sound := hsound
      rest := by
        rw [h.rest]
        rfl
      pins := (pins_withLink_unlinked g a b).trans h.pins
      links := by
        show (g.links.insert ⟨g.nextId⟩ _).values = _
        rw [Table.values_insert h.sound.numbered.fresh_link, h.links, List.append_assoc,
          Option.toList_some, newLinks_append, h.nextId]
      nextId := by
        show nextNumber g.nextId = _
        rw [hnext, h.nextId, Option.toList_some, List.length_append, List.length_singleton]
        omega }

theorem newLinks_ends (first : Nat) (ends : List (PinId × PinId)) :
    (newLinks first ends).map (fun l => (l.start, l.finish)) = ends := by
  simp only [newLinks, List.map_map]
  exact (List.map_congr_left fun e _ => rfl).trans (List.zipIdx_map_fst first ends)

theorem ends_of_mem_newLinks {first : Nat} {l : Link} (hl : l ∈ newLinks first ends) :
    (l.start, l.finish) ∈ ends := by
  rw [← newLinks_ends first ends]
  exact List.mem_map_of_mem hl

theorem Drawn.linksAt (h : base.Drawn ends g) (p : PinId) :
    g.linksAt p =
      base.linksAt p ++ ((newLinks base.nextId ends).filter (·.involves p)).map Link.id := by
  simp only [Graph.linksAt, h.links, List.filter_append, List.map_append]

/-- The end of a cut link that was its input. -/
def CutLink.input (cut : CutLink) : FarEnd :=
  match cut.direction with
  | .input => .same cut.name .input
  | .output => cut.far

/-- The inputs of the links are free, and no two of the links have the same. -/
structure Drawable (base : Graph) (node : NodeId) (cuts : List CutLink) : Prop where
  free : ∀ cut ∈ cuts, ∀ p, base.findEnd? node cut.input = some p → base.linksAt p = []
  apart : cuts.Pairwise fun cut cut' =>
    ∀ p, base.findEnd? node cut.input = some p → base.findEnd? node cut'.input ≠ some p

/-- The input among the ends of a link is where the input of the cut one is now. -/
theorem Intact.findEnd?_input (h : g.Intact) {node : NodeId} {cut : CutLink} {a b p : PinId}
    {pin : Pin} (hends : g.drawnEnds? node cut = some (a, b)) (hend : p = a ∨ p = b)
    (hp : g.pins.get? p = some pin) (hd : pin.direction = .input) :
    g.findEnd? node cut.input = some p := by
  obtain ⟨ha, hb, hfit⟩ := drawnEnds?_eq_some.mp hends
  obtain ⟨pa, pb, hpa, hpb, hab⟩ := canConnect?_eq.mp hfit
  have hopposite := (Pin.canConnect_iff.mp hab).2.2
  have hdir : pa.direction = cut.direction := by
    obtain ⟨pa', hpa', -, hd', -⟩ := h.pin_of_findPin? ha
    rw [hpa] at hpa'
    cases hpa'
    exact hd'
  unfold CutLink.input
  cases hcut : cut.direction with
  | input =>
    rcases hend with rfl | rfl
    · rwa [hcut] at ha
    · rw [hpb] at hp
      cases hp
      exact absurd (hd.trans (hcut.symm.trans hdir.symm)) hopposite
  | output =>
    rcases hend with rfl | rfl
    · rw [hpa] at hp
      cases hp
      rw [hdir, hcut] at hd
      cases hd
    · exact hb

theorem Drawable.drawn {node : NodeId} {cuts : List CutLink} (h : base.Drawable node cuts)
    (hs : base.Sound) (hlast : (cuts.forM (Graph.redraw node) base).graph.nextId < lastNumber) :
    base.Drawn (cuts.filterMap (base.drawnEnds? node))
      (cuts.forM (Graph.redraw node) base).graph := by
  refine Edit.forM_steps_prefix (Q := fun done g => base.Drawn (done.filterMap _) g)
    (redraw_counts node) cuts ?_ (.refl hs) hlast
  intro done cut g hprefix hg hl
  have hone : [cut].filterMap (base.drawnEnds? node) = (base.drawnEnds? node cut).toList := by
    cases hends : base.drawnEnds? node cut <;> simp [hends]
  rw [List.filterMap_append, hone]
  have hmem : cut ∈ cuts := hprefix.subset (List.mem_append_right _ (List.mem_singleton.mpr rfl))
  refine hg.redraw (fun e he p pin hend hp hd => ?_) hl
  obtain ⟨pin₀, hp₀, heq⟩ := pin_of_unlinked hg.pins hp
  have hd₀ : pin₀.unlinked.direction = .input := by rwa [← heq]
  have hinput := hs.intact.findEnd?_input he hend hp₀ hd₀
  rw [hg.linksAt, h.free cut hmem p hinput, List.nil_append, List.map_eq_nil_iff,
    List.filter_eq_nil_iff]
  -- Whatever was drawn before goes to another input.
  intro l hl hinv
  obtain ⟨cut', hcut', hends'⟩ := List.mem_filterMap.mp (ends_of_mem_newLinks hl)
  have hapart := (List.pairwise_append.mp (h.apart.sublist hprefix.sublist)).2.2 cut' hcut' cut
    (List.mem_singleton.mpr rfl) p
  refine hapart ?_ hinput
  exact hs.intact.findEnd?_input hends' ((Link.involves_iff.mp hinv).imp Eq.symm Eq.symm) hp₀ hd₀

end Graph

end FlowGraph
