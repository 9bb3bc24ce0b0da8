import FlowGraph.Proofs.Evaluation.Sources
import FlowGraph.Proofs.Graph.Relayout

/-!
# Cut links

What is remembered of a link that is cut are its two ends: a pin of the node by its direction and
name, any other by its id (`Pin.asEnd`).  As long as no two pins of the node share a direction and a
name, the two ends tell the links apart, and every input has one of the links at most.  So all of
them can be drawn again next to each other, and a new layout comes to `Sound.relayout_drawn`.
-/

namespace FlowGraph

/-! ## Ends -/

theorem Link.otherEnd?_eq_some {l : Link} {p q : PinId} :
    l.otherEnd? p = some q ↔ l.start = p ∧ l.finish = q ∨ l.finish = p ∧ l.start = q := by
  unfold otherEnd?
  by_cases hs : l.start = p
  · rw [if_pos hs, Option.some.injEq]
    constructor
    · exact fun hf => .inl ⟨hs, hf⟩
    · rintro (⟨-, hf⟩ | ⟨hf, hq⟩)
      · exact hf
      · exact hf.trans (hs.symm.trans hq)
  · by_cases hf : l.finish = p <;> simp [hs, hf]

theorem Link.otherEnd?_comm {l : Link} {p q : PinId} :
    l.otherEnd? p = some q ↔ l.otherEnd? q = some p := by
  rw [otherEnd?_eq_some, otherEnd?_eq_some, or_comm, and_comm, and_comm (b := l.finish = q)]

theorem Link.involves_of_otherEnd? {l : Link} {p q : PinId} (hq : l.otherEnd? p = some q) :
    l.involves p = true ∧ l.involves q = true := by
  rw [involves_iff, involves_iff]
  exact (otherEnd?_eq_some.mp hq).elim (fun h => ⟨.inl h.1, .inr h.2⟩)
    fun h => ⟨.inr h.1, .inl h.2⟩

/-- A link has no third end. -/
theorem Link.eq_of_involves {l : Link} {p q r : PinId} (hq : l.otherEnd? p = some q)
    (hr : l.involves r = true) : r = p ∨ r = q := by
  rcases otherEnd?_eq_some.mp hq with ⟨rfl, rfl⟩ | ⟨rfl, rfl⟩
  · exact (involves_iff.mp hr).imp Eq.symm Eq.symm
  · exact (involves_iff.mp hr).symm.imp Eq.symm Eq.symm

/-- How a pin is remembered while the node gets its new pins. -/
def Pin.asEnd (node : NodeId) (p : Pin) : Graph.FarEnd :=
  if p.node = node then .same p.name p.direction else .elsewhere p.id

theorem Pin.asEnd_of_mem {node : NodeId} {p : Pin} (h : p.node = node) :
    p.asEnd node = .same p.name p.direction := if_pos h

theorem Pin.asEnd_of_ne {node : NodeId} {p : Pin} (h : p.node ≠ node) :
    p.asEnd node = .elsewhere p.id := if_neg h

namespace Graph

variable {g : Graph}

/-- No two pins of the node have the same direction and name. -/
def NamesApart (g : Graph) (node : NodeId) : Prop :=
  ∀ d, ((g.pinsOf node d).map Pin.name).Nodup

theorem mem_pinsOf {node : NodeId} {n : Node} (hn : g.nodes.get? node = some n) {d : Direction}
    {pin : Pin} : pin ∈ g.pinsOf node d ↔ ∃ p ∈ n.pinsOf d, g.pins.get? p = some pin := by
  simp only [pinsOf, hn, List.mem_filterMap]

/-- A pin that exists is one of its node. -/
theorem Intact.mem_pinsOf (h : g.Intact) {p : PinId} {pin : Pin} (hp : g.pins.get? p = some pin) :
    pin ∈ g.pinsOf pin.node pin.direction := by
  obtain ⟨n, hn, hlisted⟩ := h.owned hp
  exact (Graph.mem_pinsOf hn).mpr ⟨p, hlisted, hp⟩

/-- Ends that are remembered as the same are the same pin. -/
theorem Intact.asEnd_inj (h : g.Intact) {node : NodeId} (hnames : g.NamesApart node) {p q : PinId}
    {a b : Pin} (ha : g.pins.get? p = some a) (hb : g.pins.get? q = some b)
    (heq : a.asEnd node = b.asEnd node) : p = q := by
  have hida : a.id = p := h.pins.get?_id ha
  have hidb : b.id = q := h.pins.get?_id hb
  by_cases hna : a.node = node
  · by_cases hnb : b.node = node
    · rw [Pin.asEnd_of_mem hna, Pin.asEnd_of_mem hnb, FarEnd.same.injEq] at heq
      have hma := h.mem_pinsOf ha
      have hmb := h.mem_pinsOf hb
      rw [hna] at hma
      rw [hnb, ← heq.2] at hmb
      rw [← hida, ← hidb, List.inj_on_of_nodup_map (hnames _) hma hmb heq.1]
    · rw [Pin.asEnd_of_mem hna, Pin.asEnd_of_ne hnb] at heq
      cases heq
  · by_cases hnb : b.node = node
    · rw [Pin.asEnd_of_ne hna, Pin.asEnd_of_mem hnb] at heq
      cases heq
    · rw [Pin.asEnd_of_ne hna, Pin.asEnd_of_ne hnb, FarEnd.elsewhere.injEq] at heq
      rw [← hida, ← hidb, heq]

/-! ## What is remembered -/

/-- A link is remembered with both of its ends, from every pin of the node but the output of a link
    within the node. -/
theorem cutLink?_eq_some {node : NodeId} {pin : Pin} {link : Link} {cut : CutLink} :
    g.cutLink? node pin link = some cut ↔
      ∃ q far, link.otherEnd? pin.id = some q ∧ g.pins.get? q = some far ∧
        (far.node = node → pin.direction = .input) ∧
        cut = ⟨pin.name, pin.direction, far.asEnd node⟩ := by
  simp only [cutLink?, Option.bind_eq_bind, Option.bind_eq_some_iff]
  constructor
  · rintro ⟨q, hq, far, hfar, hcut⟩
    refine ⟨q, far, hq, hfar, ?_⟩
    by_cases hnode : far.node = node
    · by_cases hd : pin.direction = .input
      · rw [if_neg (not_not_intro hnode), if_pos hd, Option.some.injEq] at hcut
        exact ⟨fun _ => hd, by rw [Pin.asEnd_of_mem hnode, hcut]⟩
      · rw [if_neg (not_not_intro hnode), if_neg hd] at hcut
        cases hcut
    · rw [if_pos hnode, Option.some.injEq] at hcut
      exact ⟨fun heq => absurd heq hnode, by rw [Pin.asEnd_of_ne hnode, hcut]⟩
  · rintro ⟨q, far, hq, hfar, hd, rfl⟩
    refine ⟨q, hq, far, hfar, ?_⟩
    by_cases hnode : far.node = node
    · rw [if_neg (not_not_intro hnode), if_pos (hd hnode), Pin.asEnd_of_mem hnode]
    · rw [if_pos hnode, Pin.asEnd_of_ne hnode]

/-- A link within the node is not remembered from its output. -/
theorem cutLink?_within {node : NodeId} {pin far : Pin} {link : Link} {q : PinId}
    (hd : pin.direction = .output) (hq : link.otherEnd? pin.id = some q)
    (hfar : g.pins.get? q = some far) (hnode : far.node = node) :
    g.cutLink? node pin link = none := by
  refine Option.eq_none_iff_forall_ne_some.mpr fun cut hcut => ?_
  obtain ⟨q', far', hq', hfar', hinput, -⟩ := cutLink?_eq_some.mp hcut
  rw [hq] at hq'
  cases hq'
  rw [hfar] at hfar'
  cases hfar'
  rw [hinput hnode] at hd
  cases hd

/-- The cut links are those of the pins of the node. -/
theorem mem_cutLinks {n : Node} {cut : CutLink} :
    cut ∈ g.cutLinks n ↔ ∃ p ∈ n.pins, ∃ pin, g.pins.get? p = some pin ∧
      ∃ l ∈ pin.links, ∃ link, g.links.get? l = some link ∧
        g.cutLink? n.id pin link = some cut := by
  simp only [cutLinks, List.mem_flatMap, List.mem_filterMap]
  constructor
  · rintro ⟨pin, ⟨p, hp, hpin⟩, link, ⟨l, hl, hlink⟩, hcut⟩
    exact ⟨p, hp, pin, hpin, l, hl, link, hlink, hcut⟩
  · rintro ⟨p, hp, pin, hpin, l, hl, link, hlink, hcut⟩
    exact ⟨pin, ⟨p, hp, hpin⟩, link, ⟨l, hl, hlink⟩, hcut⟩

/-- An input has one link at most. -/
theorem Intact.link_unique (h : g.Intact) {p : PinId} {pin : Pin} (hp : g.pins.get? p = some pin)
    (hd : pin.direction = .input) {l l' : LinkId} (hl : l ∈ g.linksAt p) (hl' : l' ∈ g.linksAt p) :
    l = l' := by
  have hle := h.fed hp hd
  rw [h.entered hp] at hle
  rw [eq_singleton_of_mem hl hle, List.mem_singleton] at hl'
  exact hl'.symm

/-- The input of a cut link is the input among the ends of the link. -/
theorem Intact.input_of_cut (h : g.Intact) {node : NodeId} {p : PinId} {pin : Pin} {l : LinkId}
    {link : Link} {cut : CutLink} (hp : g.pins.get? p = some pin) (hnode : pin.node = node)
    (hl : g.links.get? l = some link) (hcut : g.cutLink? node pin link = some cut) :
    ∃ i a, g.pins.get? i = some a ∧ a.direction = .input ∧ link.involves i = true ∧
      cut.input = a.asEnd node ∧ (a.node = node → i = p) := by
  obtain ⟨q, far, hq, hfar, hd, rfl⟩ := cutLink?_eq_some.mp hcut
  rw [h.pins.get?_id hp] at hq
  obtain ⟨hip, hiq⟩ := Link.involves_of_otherEnd? hq
  obtain ⟨far', hfar', -, hopposite⟩ := h.otherEnd hl hp hq
  rw [hfar] at hfar'
  cases hfar'
  cases hdir : pin.direction with
  | input =>
    refine ⟨p, pin, hp, hdir, hip, ?_, fun _ => rfl⟩
    rw [Pin.asEnd_of_mem hnode, hdir]
    rfl
  | output =>
    have hinput := Direction.input_of_ne hopposite (by simp [hdir])
    refine ⟨q, far, hfar, hinput, hiq, rfl, fun hfn => ?_⟩
    rw [hd hfn] at hdir
    cases hdir

/-- A link is remembered once, and no two links with one input are remembered. -/
theorem Intact.cut_unique (h : g.Intact) {node : NodeId} (hnames : g.NamesApart node)
    {p p' : PinId} {pin pin' : Pin} {l l' : LinkId} {link link' : Link} {cut cut' : CutLink}
    (hp : g.pins.get? p = some pin) (hp' : g.pins.get? p' = some pin')
    (hnode : pin.node = node) (hnode' : pin'.node = node)
    (hl : g.links.get? l = some link) (hl' : g.links.get? l' = some link')
    (hcut : g.cutLink? node pin link = some cut) (hcut' : g.cutLink? node pin' link' = some cut')
    (hinput : cut.input = cut'.input) : p = p' ∧ l = l' := by
  obtain ⟨i, a, hi, hd, hinv, heq, hown⟩ := h.input_of_cut hp hnode hl hcut
  obtain ⟨i', a', hi', -, hinv', heq', hown'⟩ := h.input_of_cut hp' hnode' hl' hcut'
  -- Names that are apart make it one input, and an input has one link.
  have hii : i = i' := h.asEnd_inj hnames hi hi' (heq.symm.trans (hinput.trans heq'))
  subst hii
  rw [hi] at hi'
  cases hi'
  have hll : l = l' := h.link_unique hi hd ((mem_linksAt_iff h.links).mpr ⟨link, hl, hinv⟩)
    ((mem_linksAt_iff h.links).mpr ⟨link', hl', hinv'⟩)
  refine ⟨?_, hll⟩
  by_cases hai : a.node = node
  · exact (hown hai).symm.trans (hown' hai)
  · -- The input is elsewhere, so both pins are the other end of the one link.
    subst hll
    rw [hl] at hl'
    cases hl'
    obtain ⟨q, -, hq, -⟩ := cutLink?_eq_some.mp hcut
    rw [h.pins.get?_id hp] at hq
    have hip : i ≠ p := by
      rintro rfl
      rw [hi] at hp
      cases hp
      exact hai hnode
    have hip' : i ≠ p' := by
      rintro rfl
      rw [hi] at hp'
      cases hp'
      exact hai hnode'
    have hqi : i = q := (Link.eq_of_involves hq hinv).resolve_left hip
    obtain ⟨q', -, hq', -⟩ := cutLink?_eq_some.mp hcut'
    rw [h.pins.get?_id hp'] at hq'
    have hp'inv := (Link.involves_of_otherEnd? hq').1
    rcases Link.eq_of_involves hq hp'inv with heq | heq
    · exact heq.symm
    · exact absurd (hqi.trans heq.symm) hip'

/-- The pins of a node are its inputs and then its outputs. -/
theorem filterMap_pins {n : Node} (hn : g.nodes.get? n.id = some n) :
    n.pins.filterMap g.pins.get? = g.pinsOf n.id .input ++ g.pinsOf n.id .output := by
  simp only [pinsOf, hn, Node.pins, List.filterMap_append]
  rfl

/-- The pins of a node are listed once if their names are apart. -/
theorem Intact.pins_pairwise (h : g.Intact) {n : Node} (hn : g.nodes.get? n.id = some n)
    (hnames : g.NamesApart n.id) : (n.pins.filterMap g.pins.get?).Nodup := by
  rw [filterMap_pins hn]
  refine List.nodup_append.mpr ⟨.of_map _ (hnames .input), .of_map _ (hnames .output), ?_⟩
  rintro a ha b hb rfl
  obtain ⟨p, hp, hpa⟩ := (Graph.mem_pinsOf hn).mp ha
  obtain ⟨q, hq, hqa⟩ := (Graph.mem_pinsOf hn).mp hb
  obtain ⟨a', ha', -, hd⟩ := h.listed hn hp
  obtain ⟨b', hb', -, hd'⟩ := h.listed hn hq
  rw [hpa] at ha'
  rw [hqa] at hb'
  cases ha'
  cases hb'
  rw [hd] at hd'
  cases hd'

/-- No two cut links have the same input. -/
theorem Intact.cutLinks_pairwise (h : g.Intact) {n : Node} (hn : g.nodes.get? n.id = some n)
    (hnames : g.NamesApart n.id) :
    (g.cutLinks n).Pairwise fun cut cut' => cut.input ≠ cut'.input := by
  have hown : ∀ {pin}, pin ∈ n.pins.filterMap g.pins.get? →
      g.pins.get? pin.id = some pin ∧ pin.node = n.id := by
    intro pin hpin
    obtain ⟨p, hp, hget⟩ := List.mem_filterMap.mp hpin
    rw [h.pins.get?_id hget]
    exact ⟨hget, h.node_eq hn hp hget⟩
  refine List.pairwise_flatMap.mpr ⟨fun pin hpin => ?_, ?_⟩
  · obtain ⟨hget, hnode⟩ := hown hpin
    have hnodup : pin.links.Nodup := by
      rw [h.entered hget]
      exact nodup_linksAt h.links _
    refine List.pairwise_filterMap.mpr (List.pairwise_filterMap.mpr (hnodup.imp ?_))
    intro l l' hne link hl link' hl' cut hcut cut' hcut' hinput
    exact hne (h.cut_unique hnames hget hget hnode hnode hl hl' hcut hcut' hinput).2
  · refine (h.pins_pairwise hn hnames).imp_of_mem ?_
    intro pin pin' hpin hpin' hne cut hcut cut' hcut' hinput
    obtain ⟨link, hlink, hcut⟩ := List.mem_filterMap.mp hcut
    obtain ⟨l, -, hl⟩ := List.mem_filterMap.mp hlink
    obtain ⟨link', hlink', hcut'⟩ := List.mem_filterMap.mp hcut'
    obtain ⟨l', -, hl'⟩ := List.mem_filterMap.mp hlink'
    obtain ⟨hget, hnode⟩ := hown hpin
    obtain ⟨hget', hnode'⟩ := hown hpin'
    have hid := (h.cut_unique hnames hget hget' hnode hnode' hl hl' hcut hcut' hinput).1
    rw [hid, hget', Option.some.injEq] at hget
    exact hne hget.symm

/-! ## Drawing the cut links again -/

theorem findEnd?_elsewhere {node : NodeId} {p q : PinId}
    (hq : g.findEnd? node (.elsewhere p) = some q) : q = p ∧ ∃ pin, g.pins.get? p = some pin := by
  simp only [findEnd?] at hq
  split at hq
  · next hc =>
      exact ⟨(Option.some.inj hq).symm, Table.mem_keys.mp ((Table.mem_keys_iff _ _).mpr hc)⟩
  · cases hq

section Bare

variable {n : Node} {specs : List PinSpec} (h : g.Sound) (hn : g.nodes.get? n.id = some n)
include h hn

theorem Sound.not_mem_pins {p : PinId} {pin : Pin} (hp : g.pins.get? p = some pin)
    (hnode : pin.node ≠ n.id) : p ∉ n.pins :=
  fun hm => hnode (h.intact.node_eq hn hm hp)

/-- The pins that the node has before links are drawn are those it declares. -/
theorem Sound.own_pin_of_bare {p : PinId} {pin : Pin} (hp : (g.bare n specs).pins.get? p = some pin)
    (hnode : pin.node = n.id) : p = pin.id ∧ pin ∈ declaredPins n.id g.nextId specs := by
  rcases h.intact.pin_of_bare hp with hdeclared | ⟨hother, pin₀, hp₀, rfl⟩
  · exact hdeclared
  · obtain ⟨m, hm, hlisted⟩ := h.intact.owned hp₀
    have hnode₀ : pin₀.node = n.id := hnode
    rw [hnode₀, hn] at hm
    cases hm
    exact absurd (Node.mem_pins_iff.mpr ⟨_, hlisted⟩) hother

variable (hs : (g.bare n specs).Sound)
include hs

/-- Where remembered ends are now tells them apart. -/
theorem Sound.findEnd?_inj {p q r : PinId} {a b : Pin} (ha : g.pins.get? p = some a)
    (hb : g.pins.get? q = some b) (har : (g.bare n specs).findEnd? n.id (a.asEnd n.id) = some r)
    (hbr : (g.bare n specs).findEnd? n.id (b.asEnd n.id) = some r) :
    a.asEnd n.id = b.asEnd n.id := by
  -- A pin elsewhere is no pin of the node, also before links are drawn.
  have hapart : ∀ {q b r}, g.pins.get? q = some b → b.node ≠ n.id →
      (g.bare n specs).findEnd? n.id (.elsewhere b.id) = some r →
      ∃ pin, (g.bare n specs).pins.get? r = some pin ∧ pin.node ≠ n.id := by
    intro q b r hb hnb hr
    rw [(findEnd?_elsewhere hr).1, h.intact.pins.get?_id hb]
    exact ⟨_, hs.pin_of_kept hb (h.not_mem_pins hn hb hnb), hnb⟩
  by_cases hna : a.node = n.id
  · rw [Pin.asEnd_of_mem hna] at har ⊢
    obtain ⟨pin, hpin, hnode, hd, hname⟩ := hs.intact.pin_of_findPin? har
    by_cases hnb : b.node = n.id
    · rw [Pin.asEnd_of_mem hnb] at hbr ⊢
      obtain ⟨pin', hpin', -, hd', hname'⟩ := hs.intact.pin_of_findPin? hbr
      rw [hpin] at hpin'
      cases hpin'
      rw [← hd, ← hname, ← hd', ← hname']
    · rw [Pin.asEnd_of_ne hnb] at hbr
      obtain ⟨pin', hpin', hnode'⟩ := hapart hb hnb hbr
      rw [hpin] at hpin'
      cases hpin'
      exact absurd hnode hnode'
  · rw [Pin.asEnd_of_ne hna] at har ⊢
    by_cases hnb : b.node = n.id
    · rw [Pin.asEnd_of_mem hnb] at hbr
      obtain ⟨pin, hpin, hnode, -⟩ := hs.intact.pin_of_findPin? hbr
      obtain ⟨pin', hpin', hnode'⟩ := hapart ha hna har
      rw [hpin] at hpin'
      cases hpin'
      exact absurd hnode hnode'
    · rw [Pin.asEnd_of_ne hnb] at hbr ⊢
      rw [← (findEnd?_elsewhere har).1, ← (findEnd?_elsewhere hbr).1]

omit hs in
/-- A cut link comes from a link of the node, and its input is the input of that link. -/
theorem Sound.link_of_cut {cut : CutLink} (hcut : cut ∈ g.cutLinks n) :
    ∃ l i a, l ∈ n.pins.flatMap g.linksAt ∧ l ∈ g.linksAt i ∧ g.pins.get? i = some a ∧
      a.direction = .input ∧ cut.input = a.asEnd n.id := by
  obtain ⟨o, ho, own, hown, l, -, link, hl, hcut⟩ := mem_cutLinks.mp hcut
  have hnode := h.intact.node_eq hn ho hown
  obtain ⟨i, a, hi, hd, hinv, heq, -⟩ := h.intact.input_of_cut hown hnode hl hcut
  obtain ⟨q, -, hq, -⟩ := cutLink?_eq_some.mp hcut
  rw [h.intact.pins.get?_id hown] at hq
  have hat : ∀ {p}, link.involves p = true → l ∈ g.linksAt p := fun hp =>
    (mem_linksAt_iff h.intact.links).mpr ⟨link, hl, hp⟩
  exact ⟨l, i, a, List.mem_flatMap.mpr ⟨o, ho, hat (Link.involves_of_otherEnd? hq).1⟩, hat hinv, hi,
    hd, heq⟩

/-- Every input that was fed by a cut link has no link now. -/
theorem Sound.input_is_free {cut : CutLink} (hcut : cut ∈ g.cutLinks n) {p : PinId}
    (hp : (g.bare n specs).findEnd? n.id cut.input = some p) :
    (g.bare n specs).linksAt p = [] := by
  obtain ⟨l, i, a, hgone, hl, hi, hd, heq⟩ := h.link_of_cut hn hcut
  rw [heq] at hp
  by_cases hna : a.node = n.id
  · rw [Pin.asEnd_of_mem hna] at hp
    obtain ⟨pin, hpin, hnode', -⟩ := hs.intact.pin_of_findPin? hp
    obtain ⟨-, hdeclared⟩ := h.own_pin_of_bare hn hpin hnode'
    obtain ⟨_, spec, -, rfl⟩ := mem_declaredPins.mp hdeclared
    exact (hs.intact.entered hpin).symm
  · rw [Pin.asEnd_of_ne hna, h.intact.pins.get?_id hi] at hp
    rw [(findEnd?_elsewhere hp).1,
      ← hs.intact.entered (hs.pin_of_kept hi (h.not_mem_pins hn hi hna))]
    refine List.filter_eq_nil_iff.mpr fun l' hl' => ?_
    rw [h.intact.entered hi] at hl'
    rw [h.intact.link_unique hi hd hl' hl]
    simpa using hgone

/-- The links that were cut for a new layout can all be drawn next to each other. -/
theorem Sound.drawable (hnames : g.NamesApart n.id) :
    (g.bare n specs).Drawable n.id (g.cutLinks n) where
  free _ hcut _ hp := h.input_is_free hn hs hcut hp
  apart := by
    refine (h.intact.cutLinks_pairwise hn hnames).imp_of_mem ?_
    intro cut cut' hcut hcut' hne p hp hp'
    obtain ⟨-, i, a, -, -, hi, -, heq⟩ := h.link_of_cut hn hcut
    obtain ⟨-, i', a', -, -, hi', -, heq'⟩ := h.link_of_cut hn hcut'
    rw [heq] at hp
    rw [heq'] at hp'
    exact hne (heq.trans ((h.findEnd?_inj hn hs hi hi' hp hp').trans heq'.symm))

end Bare

/-- What a new layout comes to: the declared pins instead of the old ones, and all links between
    ends that are there and fit, in the order in which they were remembered. -/
theorem Sound.relayout_drawn (h : g.Sound) {n : Node} {b : Behavior}
    (hn : g.nodes.get? n.id = some n) (hb : n.behavior = some b) (hnames : g.NamesApart n.id)
    (hlast : (Graph.relayout n.id g).graph.nextId < lastNumber) :
    (g.bare n (b.layout g.propertyValue?)).Sound ∧
      (g.bare n (b.layout g.propertyValue?)).Drawn
        ((g.cutLinks n).filterMap ((g.bare n (b.layout g.propertyValue?)).drawnEnds? n.id))
        (Graph.relayout n.id g).graph := by
  rw [h.relayout_graph hn hb] at hlast ⊢
  have hadd := Nat.lt_of_le_of_lt (Edit.Counts.forM (redraw_counts n.id) _ _ hlast) hlast
  have hkey : n.id ∈ (Graph.deletePins n.pins g).graph.nodes.keys := by
    rw [deletePins_graph h.intact, Table.mem_keys, get?_node_without, if_neg (by simp), hn]
    exact ⟨_, rfl⟩
  have hsound := (h.deletePins n.pins).addPins hkey hadd
  rw [h.bare_graph hn hadd] at hlast hsound ⊢
  exact ⟨hsound, (h.drawable hn hsound hnames).drawn hsound hlast⟩

end Graph

end FlowGraph
