import FlowGraph.Proofs.SamePins

/-!
# Where the flow goes after the same pins again

A flow output may lead to several nodes (`Graph.flowTargets`), and the flow goes to the first of
them.  When the links of a node are drawn again, those of other nodes that lead to it come behind
their other links, and of its own the links within the node come first, since they are remembered
from its inputs (`Graph.redrawnTargets`).  So new pins of the same names and types can divert the
flow, but only where an output leads to several nodes (`Graph.Diverts`).
-/

namespace FlowGraph

/-! ## Lists -/

/-- What is left besides some items is all of the other items if it is as many. -/
theorem eq_filter_of_length {α : Type} [DecidableEq α] {a : α} {xs rest : List α}
    (hall : ∀ x ∈ rest, x = a) (hlength : (xs.filter (· ≠ a)).length + rest.length = xs.length) :
    rest = xs.filter (· = a) := by
  have hsplit := xs.length_eq_length_filter_add (· = a)
  have hrest := List.eq_replicate_iff.mpr ⟨rfl, hall⟩
  have hfilter : xs.filter (· = a) = List.replicate (xs.filter (· = a)).length a :=
    List.eq_replicate_iff.mpr ⟨rfl, fun x hx => by simpa using (List.mem_filter.mp hx).2⟩
  have hnot : (xs.filter fun x => !decide (x = a)) = xs.filter (· ≠ a) :=
    List.filter_congr fun x _ => by simp
  rw [hnot] at hsplit
  rw [hrest, hfilter]
  congr 1
  omega

/-- If only one of the items of a list gives anything, it gives all there is. -/
theorem flatMap_eq_of_nodup {α β : Type} {xs : List α} (hnodup : xs.Nodup) {a : α} (ha : a ∈ xs)
    {f : α → List β} (hf : ∀ x ∈ xs, x ≠ a → f x = []) : xs.flatMap f = f a := by
  obtain ⟨before, after, rfl⟩ := List.append_of_mem ha
  have hbefore : before.flatMap f = [] := List.flatMap_eq_nil_iff.mpr fun x hx =>
    hf x (List.mem_append_left _ hx) fun heq =>
      List.disjoint_of_nodup_append hnodup hx (heq ▸ List.mem_cons_self)
  have hafter : after.flatMap f = [] := List.flatMap_eq_nil_iff.mpr fun x hx =>
    hf x (List.mem_append_right _ (List.mem_cons_of_mem _ hx)) fun heq =>
      (List.nodup_cons.mp (List.nodup_append.mp hnodup).2.1).1 (heq ▸ hx)
  rw [List.flatMap_append, List.flatMap_cons, hbefore, hafter, List.nil_append, List.append_nil]

/-- Moving some items to the front changes the first one exactly if it is none of them and there
    are some. -/
theorem head?_filter_append {α : Type} {p q : α → Bool} (hq : ∀ x, q x = !p x) (xs : List α) :
    (xs.filter p ++ xs.filter q).head? = xs.head? ↔
      ¬ ∃ first, xs.head? = some first ∧ p first = false ∧ ∃ other ∈ xs, p other = true := by
  cases xs with
  | nil => simp
  | cons x xs =>
    cases hx : p x with
    | true => simp [hx]
    | false =>
      cases hfront : (x :: xs).filter p with
      | nil =>
        have hnone := List.filter_eq_nil_iff.mp hfront
        simp only [List.nil_append, List.filter_cons, hq, hx, Bool.not_false, if_true,
          List.head?_cons, Option.some.injEq, exists_eq_left', true_and, true_iff]
        rintro ⟨other, hother, htrue⟩
        exact hnone other hother htrue
      | cons y ys =>
        have hfirst : y ∈ (x :: xs).filter p := hfront ▸ List.mem_cons_self
        obtain ⟨hmem, hy⟩ := List.mem_filter.mp hfirst
        simp only [List.cons_append, List.head?_cons, Option.some.injEq, exists_eq_left', hx,
          true_and]
        refine iff_of_false (fun heq => ?_) (not_not_intro ⟨y, hmem, hy⟩)
        rw [heq, hx] at hy
        cases hy

namespace Graph

variable {g : Graph}

/-! ## The nodes that the flow goes to -/

/-- The node at the other end of a link. -/
def target? (g : Graph) (out : PinId) (l : Link) : Option NodeId :=
  (l.otherEnd? out).bind fun q => (g.pins.get? q).map Pin.node

/-- The nodes that the links of the flow output lead to, in the order of the links.  The flow goes
    to the first of them. -/
def flowTargets (g : Graph) (node : NodeId) : List NodeId :=
  ((g.flowPin? node .output).bind g.pins.get?).elim [] fun out =>
    out.links.filterMap fun l => (g.links.get? l).bind (g.target? out.id)

theorem Intact.pin_of_flowPin? (h : g.Intact) {k : NodeId} {d : Direction} {p : PinId}
    (hp : g.flowPin? k d = some p) :
    ∃ pin, g.pins.get? p = some pin ∧ pin.node = k ∧ pin.direction = d := by
  obtain ⟨listed, hlisted, hfind⟩ := Option.bind_eq_some_iff.mp hp
  obtain ⟨n, hn, rfl⟩ := Option.map_eq_some_iff.mp hlisted
  exact h.listed hn (List.mem_of_find?_eq_some hfind)

/-- A link of the node has an end there. -/
theorem Intact.end_on_node (h : g.Intact) {k : NodeId} {l : Link} (hl : l ∈ g.linksOfNode k) :
    ∃ r pin, l.involves r = true ∧ g.pins.get? r = some pin ∧ pin.node = k := by
  obtain ⟨-, hany⟩ := List.mem_filter.mp hl
  obtain ⟨r, hr, hinv⟩ := List.any_eq_true.mp hany
  cases hn : g.nodes.get? k with
  | none =>
    rw [hn] at hr
    cases hr
  | some n =>
    rw [hn, Option.elim_some] at hr
    obtain ⟨pin, hpin, hnode⟩ := h.node_of_listed hn hr
    exact ⟨r, pin, hinv, hpin, hnode⟩

/-- A link that a pin lists has an end there. -/
theorem Intact.link_of_pin (h : g.Intact) {p : PinId} {pin : Pin} (hp : g.pins.get? p = some pin)
    {link : Link} (hlink : link ∈ pin.links.filterMap g.links.get?) :
    g.links.get? link.id = some link ∧ link.involves p = true := by
  obtain ⟨l, hl, hget⟩ := List.mem_filterMap.mp hlink
  rw [h.entered hp, mem_linksAt_iff h.links] at hl
  obtain ⟨link', hlink', hinv⟩ := hl
  rw [hget] at hlink'
  cases hlink'
  rw [h.links.get?_id hget]
  exact ⟨hget, hinv⟩

/-- A link leads somewhere from each of its ends. -/
theorem Intact.target?_isSome (h : g.Intact) {l : Link} (hl : l ∈ g.links.values) (out : PinId) :
    (g.target? out l).isSome = l.involves out := by
  rw [← l.isSome_otherEnd? out, target?]
  cases hq : l.otherEnd? out with
  | none => rfl
  | some q =>
    obtain ⟨pin, hpin⟩ := h.end_exists (h.links.get?_of_mem_values hl)
      (Link.involves_of_otherEnd? hq).2
    rw [Option.bind_some, hpin]
    rfl

theorem Intact.flowTargets_eq (h : g.Intact) {m : NodeId} {out : PinId}
    (hout : g.flowPin? m .output = some out) :
    g.flowTargets m = g.links.values.filterMap (g.target? out) := by
  obtain ⟨pin, hpin, -⟩ := h.pin_of_flowPin? hout
  have hid : pin.id = out := h.pins.get?_id hpin
  have hkeep : g.links.values.filterMap (g.target? out) =
      (g.links.values.filter (·.involves out)).filterMap (g.target? out) := by
    rw [List.filterMap_filter]
    refine List.filterMap_congr fun l hl => ?_
    split
    · rfl
    · next hno =>
      rw [← h.target?_isSome hl out] at hno
      simpa using hno
  rw [flowTargets, hout, Option.bind_some, hpin, Option.elim_some, h.entered hpin, hid, hkeep,
    linksAt, List.filterMap_map]
  refine List.filterMap_congr fun l hl => ?_
  rw [Function.comp_apply, h.links.get?_of_mem_values (List.mem_of_mem_filter hl), Option.bind_some]

/-- The flow goes to the first of the nodes that its output leads to. -/
theorem Intact.flowSuccessor?_eq (h : g.Intact) (m : NodeId) :
    g.flowSuccessor? m = (g.flowTargets m).head? := by
  unfold flowSuccessor?
  cases hout : g.flowPin? m .output with
  | none => simp [flowTargets, hout]
  | some out =>
    obtain ⟨pin, hpin, -⟩ := h.pin_of_flowPin? hout
    have hid : pin.id = out := h.pins.get?_id hpin
    simp only [flowTargets, hout, Option.bind_some, hpin, Option.elim_some, Option.bind_eq_bind,
      hid]
    cases hlinks : pin.links with
    | nil => rfl
    | cons l rest =>
      have hmem : l ∈ g.linksAt out := by
        rw [← h.entered hpin, hlinks]
        exact List.mem_cons_self
      obtain ⟨link, hlink, hinv⟩ := (mem_linksAt_iff h.links).mp hmem
      obtain ⟨k, hk⟩ := Option.isSome_iff_exists.mp
        ((h.target?_isSome (Table.mem_values_of_get? hlink) out).trans hinv)
      rw [List.filterMap_cons, hlink, Option.bind_some, hk]
      simp only [List.head?_cons, Option.bind_some, hlink]
      unfold target? at hk
      rw [← hk]
      cases link.otherEnd? out with
      | none => rfl
      | some q =>
        simp only [Option.bind_some]
        cases g.pins.get? q <;> rfl

/-- The flow output leads to as many nodes as it has links. -/
theorem Intact.length_flowTargets (h : g.Intact) {m : NodeId} {out : PinId}
    (hout : g.flowPin? m .output = some out) :
    (g.flowTargets m).length = (g.links.values.map Link.pair).countP (out ∈ ·) := by
  rw [h.flowTargets_eq hout, List.length_filterMap_eq_countP, List.countP_map]
  refine List.countP_congr fun l hl => ?_
  rw [h.target?_isSome hl, Function.comp_apply, decide_eq_true_eq, Link.involves_iff, Link.pair,
    Sym2.mem_iff]
  exact or_congr eq_comm eq_comm

/-! ## The links of the node in the order in which they are drawn -/

/-- The links that are remembered from the pins of one direction. -/
def cutLinksOf (g : Graph) (node : NodeId) (d : Direction) : List CutLink :=
  (g.pinsOf node d).flatMap fun pin =>
    (pin.links.filterMap g.links.get?).filterMap (g.cutLink? node pin)

/-- The links of the inputs are remembered before those of the outputs. -/
theorem cutLinks_eq {n : Node} (hn : g.nodes.get? n.id = some n) :
    g.cutLinks n = g.cutLinksOf n.id .input ++ g.cutLinksOf n.id .output := by
  rw [cutLinks, filterMap_pins hn, List.flatMap_append, cutLinksOf, cutLinksOf]

/-- What links between these ends lead to from a pin. -/
def targetsOf (g : Graph) (out : PinId) (ends : List (PinId × PinId)) : List NodeId :=
  ends.filterMap fun e => g.target? out ⟨default, e.1, e.2⟩

theorem targetsOf_newLinks (g : Graph) (out : PinId) (first : Nat) (ends : List (PinId × PinId)) :
    (newLinks first ends).filterMap (g.target? out) = g.targetsOf out ends := by
  conv_rhs => rw [targetsOf, ← newLinks_ends first ends, List.filterMap_map]
  rfl

section Again

variable {n : Node} {b : Behavior} (h : g.Sound) (hn : g.nodes.get? n.id = some n)
  (hb : n.behavior = some b) (hnames : g.NamesApart n.id)
  (hforms : g.HasForms n.id (b.layout g.propertyValue?))
  (hlast : (Graph.relayout n.id g).graph.nextId < lastNumber)
include h hn hb hnames hforms hlast

/-- Every flow output has as many links as before. -/
theorem Sound.length_flowTargets (m : NodeId) :
    ((Graph.relayout n.id g).graph.flowTargets m).length = (g.flowTargets m).length := by
  obtain ⟨hs, hdrawn⟩ := h.relayout_drawn hn hb hnames hlast
  have hpin := (h.repinned hn hb hnames hforms hlast).flowPin? m .output
  cases hout : g.flowPin? m .output with
  | none =>
    rw [hout] at hpin
    simp [flowTargets, hout, hpin]
  | some out =>
    rw [hout] at hpin
    obtain ⟨pin, hget, -⟩ := h.intact.pin_of_flowPin? hout
    rw [hdrawn.sound.intact.length_flowTargets hpin, h.intact.length_flowTargets hout,
      (h.pairs_relayout hn hb hnames hforms hlast).countP_eq, List.countP_map, List.countP_map]
    refine List.countP_congr fun l hl => ?_
    simp only [Function.comp_apply, decide_eq_true_eq, Sym2.mem_map]
    constructor
    · rintro ⟨p, hp, heq⟩
      obtain ⟨a, ha⟩ := h.intact.end_exists (h.intact.links.get?_of_mem_values hl)
        (Link.involves_iff.mpr ((Sym2.mem_iff.mp hp).imp Eq.symm Eq.symm))
      rw [h.renewed_relayout hn hb hnames hlast] at heq
      rwa [← h.renewed_inj hn hs hnames hforms ha hget heq]
    · exact fun hp => ⟨out, hp, rfl⟩

/-- From a pin of another node, the links that were left alone lead where those links led that did
    not lead to the node. -/
theorem Sound.targets_kept {m : NodeId} (hm : m ≠ n.id) {out : PinId}
    (hout : g.flowPin? m .output = some out) :
    (g.links.values.filter fun l => !n.pins.any l.involves).filterMap
      ((Graph.relayout n.id g).graph.target? out) = (g.flowTargets m).filter (· ≠ n.id) := by
  obtain ⟨pin, hpin, hnode, -⟩ := h.intact.pin_of_flowPin? hout
  rw [h.intact.flowTargets_eq hout, List.filter_filterMap, List.filterMap_filter]
  refine List.filterMap_congr fun l hl => ?_
  cases hq : l.otherEnd? out with
  | none => simp [target?, hq]
  | some q =>
    have hget := h.intact.links.get?_of_mem_values hl
    have hinv := Link.involves_of_otherEnd? hq
    obtain ⟨far, hfar⟩ := h.intact.end_exists hget hinv.2
    by_cases hfn : far.node = n.id
    · have htouch : n.pins.any l.involves = true :=
        List.any_eq_true.mpr ⟨q, (h.intact.mem_pins hn).mpr ⟨far, hfar, hfn⟩, hinv.2⟩
      simp [target?, hq, hfar, hfn, htouch, Option.filter]
    · have htouch : n.pins.any l.involves = false := by
        refine List.any_eq_false.mpr fun r hr hinvr => ?_
        rcases Link.eq_of_involves hq hinvr with rfl | rfl
        · exact h.not_mem_pins hn hpin (hnode ▸ hm) hr
        · exact h.not_mem_pins hn hfar hfn hr
      obtain ⟨far', hfar', -, hsame, -⟩ := (h.repinned hn hb hnames hforms hlast).pins hfar
      rw [renewed_of_ne hfar hfn] at hfar'
      simp [target?, hq, hfar, hfar', hsame, hfn, htouch, Option.filter]

/-- At another node, the links to the node come behind those that were left alone. -/
theorem Sound.flowTargets_relayout_ne {m : NodeId} (hm : m ≠ n.id) :
    (Graph.relayout n.id g).graph.flowTargets m =
      (g.flowTargets m).filter (· ≠ n.id) ++ (g.flowTargets m).filter (· = n.id) := by
  obtain ⟨-, hdrawn⟩ := h.relayout_drawn hn hb hnames hlast
  have hrepinned := h.repinned hn hb hnames hforms hlast
  have hlength := h.length_flowTargets hn hb hnames hforms hlast m
  have hflow := hrepinned.flowPin? m .output
  cases hout : g.flowPin? m .output with
  | none =>
    rw [hout] at hflow
    simp [flowTargets, hout, hflow]
  | some out =>
    obtain ⟨pin, hpin, hnode, -⟩ := h.intact.pin_of_flowPin? hout
    have hother : pin.node ≠ n.id := hnode ▸ hm
    rw [hout, Option.map_some, renewed_of_ne hpin hother] at hflow
    rw [hdrawn.sound.intact.flowTargets_eq hflow, (h.relaid hn hb hnames hlast).kept,
      List.filterMap_append, h.targets_kept hn hb hnames hforms hlast hm hout] at hlength ⊢
    rw [List.length_append] at hlength
    -- In which order the links of the node are drawn does not matter: they all lead to it, and the
    -- output has as many as before.
    refine congrArg _ (eq_filter_of_length (fun k hk => ?_) hlength)
    obtain ⟨l, hl, htarget⟩ := List.mem_filterMap.mp hk
    obtain ⟨r, own, hinv, hown, hownNode⟩ := hdrawn.sound.intact.end_on_node hl
    obtain ⟨q, hq, howner⟩ := Option.bind_eq_some_iff.mp htarget
    rcases Link.eq_of_involves hq hinv with rfl | rfl
    · obtain ⟨pin', hpin', -, hsame, -⟩ := hrepinned.pins hpin
      rw [renewed_of_ne hpin hother, hown] at hpin'
      cases hpin'
      exact absurd (hsame.symm.trans hownNode) hother
    · rw [hown, Option.map_some, Option.some.injEq] at howner
      exact howner.symm.trans hownNode

/-- What the links that were drawn from the inputs of the node lead to is the node itself. -/
theorem Sound.targets_from_inputs {out : PinId} (hout : g.flowPin? n.id .output = some out)
    {k : NodeId}
    (hk : k ∈ (Graph.relayout n.id g).graph.targetsOf
      (g.renewed n.id (Graph.relayout n.id g).graph out)
      ((g.cutLinksOf n.id .input).filterMap
        ((g.bare n (b.layout g.propertyValue?)).drawnEnds? n.id))) : k = n.id := by
  obtain ⟨hs, hdrawn⟩ := h.relayout_drawn hn hb hnames hlast
  obtain ⟨⟨a, c⟩, hends, htarget⟩ := List.mem_filterMap.mp hk
  obtain ⟨cut, hcut, hends⟩ := List.mem_filterMap.mp hends
  obtain ⟨pin, hpin, hcut⟩ := List.mem_flatMap.mp hcut
  obtain ⟨link, -, hcut⟩ := List.mem_filterMap.mp hcut
  obtain ⟨q, far, -, -, -, rfl⟩ := cutLink?_eq_some.mp hcut
  obtain ⟨p, hp, hget⟩ := (Graph.mem_pinsOf hn).mp hpin
  obtain ⟨pin', hget', -, hd⟩ := h.intact.listed hn hp
  rw [hget] at hget'
  cases hget'
  obtain ⟨pa, hpa, hnode, hda, -⟩ := hs.intact.pin_of_findPin? (drawnEnds?_eq_some.mp hends).1
  obtain ⟨r, hr, howner⟩ := Option.bind_eq_some_iff.mp htarget
  rcases Link.otherEnd?_eq_some.mp hr with ⟨hstart, -⟩ | ⟨-, hstart⟩
  · -- The first end is an input, and the flow output is none.
    obtain ⟨pout, hpout, -, hdout⟩ := h.intact.pin_of_flowPin? hout
    obtain ⟨pout', hpout', -, -, hdout', -⟩ := h.pin_of_renewed hn hs hnames hforms hpout
    rw [← h.renewed_relayout hn hb hnames hlast, ← hstart, hpa] at hpout'
    cases hpout'
    rw [hda, hd, hdout] at hdout'
    cases hdout'
  · obtain ⟨far', hfar', rfl⟩ := Option.map_eq_some_iff.mp howner
    rw [← hstart] at hfar'
    obtain ⟨pa', hpa', heq⟩ := pin_of_unlinked hdrawn.pins hfar'
    rw [hpa] at hpa'
    cases hpa'
    exact (congrArg (fun p : Pin => p.node) heq : far'.unlinked.node = pa.unlinked.node).trans hnode

/-- What a link that was drawn from an output of the node leads to, from the place of the flow
    output: the same node as before, if the link is one of that output and leads elsewhere. -/
theorem Sound.target_of_cut {out : PinId} (hout : g.flowPin? n.id .output = some out) {pin : Pin}
    (hpin : pin ∈ g.pinsOf n.id .output) {link : Link}
    (hlink : link ∈ pin.links.filterMap g.links.get?) :
    (((g.cutLink? n.id pin link).bind
        ((g.bare n (b.layout g.propertyValue?)).drawnEnds? n.id)).bind fun e =>
      (Graph.relayout n.id g).graph.target? (g.renewed n.id (Graph.relayout n.id g).graph out)
        ⟨default, e.1, e.2⟩) =
    if pin.id = out then (g.target? out link).filter (· ≠ n.id) else none := by
  obtain ⟨hs, hdrawn⟩ := h.relayout_drawn hn hb hnames hlast
  have hsame := h.renewed_relayout hn hb hnames hlast
  obtain ⟨p, hp, hget⟩ := (Graph.mem_pinsOf hn).mp hpin
  obtain rfl : pin.id = p := h.intact.pins.get?_id hget
  obtain ⟨own, hown, hnode, hd⟩ := h.intact.listed hn hp
  rw [hget] at hown
  cases hown
  obtain ⟨hlink, hinv⟩ := h.intact.link_of_pin hget hlink
  obtain ⟨q, hq⟩ := Option.isSome_iff_exists.mp ((link.isSome_otherEnd? pin.id).trans hinv)
  obtain ⟨far, hfar, htypes, hopposite⟩ := h.intact.otherEnd hlink hget hq
  have htarget : g.target? pin.id link = some far.node := by
    rw [target?, hq, Option.bind_some, hfar, Option.map_some]
  by_cases hfn : far.node = n.id
  · -- A link within the node is remembered from its input only.
    rw [cutLink?_within hd hq hfar hfn, Option.bind_none, Option.bind_none]
    split
    · next heq => simp [← heq, htarget, hfn, Option.filter]
    · rfl
  · have hcut := cutLink?_eq_some.mpr ⟨q, far, hq, hfar, fun heq => absurd heq hfn, rfl⟩
    obtain ⟨hstand, hplace⟩ := h.place_of_pin hn hs hnames hforms hget
    obtain ⟨hstand', hplace'⟩ := h.place_of_pin hn hs hnames hforms hfar
    have hends := (h.drawnEnds?_cut hn hs hget hnode hfar hopposite).mpr
      ⟨hstand, hstand', by rw [hplace, hplace', htypes]⟩
    rw [hcut, Option.bind_some, hends, Option.bind_some, hsame, renewed_of_ne hfar hfn]
    obtain ⟨pout, hpout, houtNode, -⟩ := h.intact.pin_of_flowPin? hout
    split
    · next heq =>
      obtain ⟨far', hfar', -, hnode', -⟩ := (h.repinned hn hb hnames hforms hlast).pins hfar
      rw [renewed_of_ne hfar hfn] at hfar'
      rw [← heq, htarget]
      simp [target?, Link.otherEnd?, hfar', hnode', hfn, Option.filter]
    · next hne =>
      have hfirst : g.renewed n.id (g.bare n (b.layout g.propertyValue?)) pin.id ≠
          g.renewed n.id (g.bare n (b.layout g.propertyValue?)) out := fun heq =>
        hne (h.renewed_inj hn hs hnames hforms hget hpout heq)
      have hsecond : q ≠ g.renewed n.id (g.bare n (b.layout g.propertyValue?)) out := by
        intro heq
        obtain rfl := h.renewed_inj hn hs hnames hforms hfar hpout
          ((renewed_of_ne hfar hfn).trans heq)
        rw [hfar] at hpout
        cases hpout
        exact hfn houtNode
      simp [target?, Link.otherEnd?, hfirst, hsecond]

/-- What the links that were drawn from the outputs lead to from the place of the flow output are
    the other nodes that it led to, in order. -/
theorem Sound.targets_from_outputs {out : PinId} (hout : g.flowPin? n.id .output = some out) :
    (Graph.relayout n.id g).graph.targetsOf (g.renewed n.id (Graph.relayout n.id g).graph out)
      ((g.cutLinksOf n.id .output).filterMap
        ((g.bare n (b.layout g.propertyValue?)).drawnEnds? n.id)) =
      (g.flowTargets n.id).filter (· ≠ n.id) := by
  obtain ⟨pout, hpout, hnode, hd⟩ := h.intact.pin_of_flowPin? hout
  have hid : pout.id = out := h.intact.pins.get?_id hpout
  have hmem := h.intact.mem_pinsOf hpout
  rw [hnode, hd] at hmem
  have hpins : (g.pinsOf n.id .output).Nodup := .of_map Pin.name (hnames .output)
  -- Of all outputs, only the flow output itself has links that start at its place.
  rw [targetsOf, cutLinksOf, List.filterMap_flatMap, List.filterMap_flatMap]
  have hcuts : (g.pinsOf n.id .output).flatMap (fun pin =>
      (((pin.links.filterMap g.links.get?).filterMap (g.cutLink? n.id pin)).filterMap
        ((g.bare n (b.layout g.propertyValue?)).drawnEnds? n.id)).filterMap fun e =>
          (Graph.relayout n.id g).graph.target? (g.renewed n.id (Graph.relayout n.id g).graph out)
            ⟨default, e.1, e.2⟩) =
      (g.pinsOf n.id .output).flatMap fun pin => (pin.links.filterMap g.links.get?).filterMap
        fun link => if pin.id = out then (g.target? out link).filter (· ≠ n.id) else none := by
    refine List.flatMap_congr fun pin hpin => ?_
    rw [List.filterMap_filterMap, List.filterMap_filterMap]
    refine List.filterMap_congr fun link hlink => ?_
    rw [← Option.bind_assoc]
    exact h.target_of_cut hn hb hnames hforms hlast hout hpin hlink
  rw [hcuts, flatMap_eq_of_nodup hpins hmem fun pin hpin hne => ?_]
  · simp only [hid, if_true, flowTargets, hout, Option.bind_some, hpout, Option.elim_some,
      List.filterMap_filterMap, List.filter_filterMap]
    refine List.filterMap_congr fun l _ => ?_
    cases g.links.get? l <;> rfl
  · have hother : pin.id ≠ out := fun heq => hne (by
      obtain ⟨p, -, hget⟩ := (Graph.mem_pinsOf hn).mp hpin
      rw [← h.intact.pins.get?_id hget, heq, hpout] at hget
      exact (Option.some.inj hget).symm)
    simp [hother]

/-- No link that was left alone has an end at the place of a pin of the node. -/
theorem Sound.targets_left {out : PinId} {pin : Pin} (hpin : g.pins.get? out = some pin)
    (hnode : pin.node = n.id) :
    (g.links.values.filter fun l => !n.pins.any l.involves).filterMap
      ((Graph.relayout n.id g).graph.target?
        (g.renewed n.id (Graph.relayout n.id g).graph out)) = [] := by
  obtain ⟨hs, -⟩ := h.relayout_drawn hn hb hnames hlast
  obtain ⟨pin', hpin', -, hnode', -⟩ := h.pin_of_renewed hn hs hnames hforms hpin
  obtain ⟨heq, hdeclared⟩ := h.own_pin_of_bare hn hpin' (hnode'.trans hnode)
  refine List.filterMap_eq_nil_iff.mpr fun l hl => ?_
  rw [h.renewed_relayout hn hb hnames hlast, target?, Option.bind_eq_none_iff]
  intro q hq
  obtain ⟨old, hold⟩ := h.intact.end_exists
    (h.intact.links.get?_of_mem_values (List.mem_of_mem_filter hl))
    (Link.involves_of_otherEnd? hq).1
  rw [heq] at hold
  exact absurd (Table.mem_keys_of_get? hold) (h.declared_fresh hdeclared)

/-- At the node itself, the links to itself come first. -/
theorem Sound.flowTargets_relayout_self :
    (Graph.relayout n.id g).graph.flowTargets n.id =
      (g.flowTargets n.id).filter (· = n.id) ++ (g.flowTargets n.id).filter (· ≠ n.id) := by
  obtain ⟨hs, hdrawn⟩ := h.relayout_drawn hn hb hnames hlast
  have hlength := h.length_flowTargets hn hb hnames hforms hlast n.id
  have hflow := (h.repinned hn hb hnames hforms hlast).flowPin? n.id .output
  cases hout : g.flowPin? n.id .output with
  | none =>
    rw [hout] at hflow
    simp [flowTargets, hout, hflow]
  | some out =>
    rw [hout, Option.map_some] at hflow
    obtain ⟨pin, hpin, hnode, -⟩ := h.intact.pin_of_flowPin? hout
    rw [hdrawn.sound.intact.flowTargets_eq hflow, (h.relaid hn hb hnames hlast).kept,
      List.filterMap_append, h.targets_left hn hb hnames hforms hlast hpin hnode,
      List.nil_append, h.linksOfNode_drawn hn hs hdrawn, targetsOf_newLinks, cutLinks_eq hn,
      List.filterMap_append, targetsOf, List.filterMap_append, ← targetsOf, ← targetsOf,
      h.targets_from_outputs hn hb hnames hforms hlast hout] at hlength ⊢
    rw [List.length_append, Nat.add_comm] at hlength
    -- The links within the node are drawn in the order of its inputs, not of the flow output, but
    -- they all lead to the node.
    refine congrArg (· ++ _) (eq_filter_of_length (fun k hk => ?_) hlength)
    exact h.targets_from_inputs hn hb hnames hforms hlast hout hk

end Again

/-! ## What is diverted -/

/-- The targets of a flow output of node `m` after the links of `node` were drawn again: elsewhere
    they come behind the others, and of the links of the node itself those within it come first. -/
def redrawnTargets (node m : NodeId) (targets : List NodeId) : List NodeId :=
  if m = node then targets.filter (· = node) ++ targets.filter (· ≠ node)
  else targets.filter (· ≠ node) ++ targets.filter (· = node)

/-- The flow output of `m` leads to `node` first and to another node as well; or it is that of
    `node` itself and leads to another node first and to `node` as well. -/
def Diverts (g : Graph) (node m : NodeId) : Prop :=
  ∃ first, g.flowSuccessor? m = some first ∧ (first = node ↔ m ≠ node) ∧
    ∃ other ∈ g.flowTargets m, (other = node ↔ m = node)

/-- Drawing the links of the node again changes the first target exactly if the flow is diverted. -/
theorem Intact.head?_redrawnTargets (h : g.Intact) (node m : NodeId) :
    (redrawnTargets node m (g.flowTargets m)).head? = g.flowSuccessor? m ↔ ¬ g.Diverts node m := by
  unfold redrawnTargets Diverts
  rw [h.flowSuccessor?_eq]
  by_cases hm : m = node
  · rw [if_pos hm, head?_filter_append fun x => by simp]
    simp [hm]
  · rw [if_neg hm, head?_filter_append fun x => by simp]
    simp [hm]

/-- A node gets the same pins again.  The flow outputs then lead to the same nodes, but where one
    led to the node its links there come last, and of those of the node itself the links within it
    come first.  So the flow goes on as before from every node but those whose first target changes
    with that, and a pass that comes to none of these goes the same way as before. -/
theorem same_layout_diverts_forks_only {start : Graph} (hs : start.Starts) (h : start.Reaches g)
    {id : NodeId} (hid : g.nodes.contains id = true) (hdeclared : g.AsDeclared id)
    (hnames : g.NamesApart id)
    (hids : (relayout id g).graph.nextId - start.nextId < 0x7fffffffffffffff) :
    (relayout id g).answer = .ok () ∧
      (∀ m, (relayout id g).graph.flowTargets m = redrawnTargets id m (g.flowTargets m)) ∧
      (∀ m, g.flowSuccessor? m = (g.flowTargets m).head? ∧
        ((relayout id g).graph.flowSuccessor? m = g.flowSuccessor? m ↔ ¬ g.Diverts id m)) ∧
      ∀ e entry, (∀ i m, g.flowNode? entry i = some m → ¬ g.Diverts id m) →
        (runPass entry ⟨e, (relayout id g).graph⟩).answer = (runPass entry ⟨e, g⟩).answer ∧
          (runPass entry ⟨e, (relayout id g).graph⟩).session.evaluator.visited =
            (runPass entry ⟨e, g⟩).session.evaluator.visited := by
  have hsound := h.sound hs
  have hlast := hs.nextId_lt hids
  obtain ⟨n, hn⟩ := Option.isSome_iff_exists.mp hid
  obtain ⟨b, hb, -⟩ := hsound.staffed.staff hn
  have hforms : g.HasForms id (b.layout g.propertyValue?) := by
    intro d
    rw [hdeclared d, declaredSpecs, hn, Option.bind_some, hb, Option.elim_some]
  obtain rfl : n.id = id := hsound.intact.nodes.get?_id hn
  obtain ⟨-, hdrawn⟩ := hsound.relayout_drawn hn hb hnames hlast
  have htargets : ∀ m, (relayout n.id g).graph.flowTargets m =
      redrawnTargets n.id m (g.flowTargets m) := by
    intro m
    by_cases hm : m = n.id
    · rw [hm, redrawnTargets, if_pos rfl]
      exact hsound.flowTargets_relayout_self hn hb hnames hforms hlast
    · rw [redrawnTargets, if_neg hm]
      exact hsound.flowTargets_relayout_ne hn hb hnames hforms hlast hm
  have hsuccessor : ∀ m, (relayout n.id g).graph.flowSuccessor? m = g.flowSuccessor? m ↔
      ¬ g.Diverts n.id m := by
    intro m
    rw [hdrawn.sound.intact.flowSuccessor?_eq, htargets]
    exact hsound.intact.head?_redrawnTargets n.id m
  refine ⟨relayout_answer hn hb, htargets,
    fun m => ⟨hsound.intact.flowSuccessor?_eq m, hsuccessor m⟩, fun e entry hpass => ?_⟩
  exact runPass_inStep (hsound.repinned hn hb hnames hforms hlast) e
    fun i m hm => (hsuccessor m).mpr (hpass i m hm)

/-- An event that two log nodes follow, and a third one that is followed by another and by itself.
    A constant feeds the two. -/
def forked : Graph :=
  (Command.performAll
    [.addNode .eventBegin, .addNode (.floatConstant 0), .addNode (.logValue "a"),
      .addNode (.logValue "b"), .addNode (.logValue "c"), .addNode (.logValue "d"),
      .createLink ⟨2⟩ ⟨6⟩, .createLink ⟨2⟩ ⟨11⟩, .createLink ⟨17⟩ ⟨21⟩, .createLink ⟨17⟩ ⟨16⟩,
      .createLink ⟨4⟩ ⟨8⟩, .createLink ⟨4⟩ ⟨13⟩]
    (Graph.new "forked" .builtin)).graph

/-- At the fork, the first log node becomes the last with new pins, and the last stays the last; the
    node that is followed by itself comes to be so first. -/
theorem forked_diverts :
    (relayout ⟨5⟩ forked).graph.flowTargets ⟨1⟩ = [⟨10⟩, ⟨5⟩] ∧
      (relayout ⟨10⟩ forked).graph.flowSuccessor? ⟨1⟩ = some ⟨5⟩ ∧
      (∀ e, (runPass ⟨1⟩ ⟨e, (relayout ⟨10⟩ forked).graph⟩).session.evaluator.visited =
        (runPass ⟨1⟩ ⟨e, forked⟩).session.evaluator.visited) ∧
      (relayout ⟨15⟩ forked).graph.flowTargets ⟨15⟩ = [⟨15⟩, ⟨20⟩] := by
  have hpins : ∀ id ∈ [(⟨5⟩ : NodeId), ⟨10⟩, ⟨15⟩], forked.nodes.contains id = true ∧
      forked.AsDeclared id ∧ forked.NamesApart id ∧
      (relayout id forked).graph.nextId - 1 < 0x7fffffffffffffff := by
    simp only [List.mem_cons, List.not_mem_nil, or_false]
    rintro id (rfl | rfl | rfl)
    all_goals exact ⟨by decide +kernel, fun d => by cases d <;> decide +kernel,
      fun d => by cases d <;> decide +kernel, by decide +kernel⟩
  have hagain : ∀ id ∈ [(⟨5⟩ : NodeId), ⟨10⟩, ⟨15⟩], _ := fun id hid =>
    same_layout_diverts_forks_only (g := forked) (.new _ _) ⟨⟨_, rfl⟩, by decide +kernel⟩
      (hpins id hid).1 (hpins id hid).2.1 (hpins id hid).2.2.1 (hpins id hid).2.2.2
  have hnext : forked.flowSuccessor? ⟨1⟩ = some ⟨5⟩ := by decide +kernel
  have hlast : forked.flowSuccessor? ⟨5⟩ = none := by decide +kernel
  have hpass : ∀ i m, forked.flowNode? ⟨1⟩ i = some m → m = ⟨1⟩ ∨ m = ⟨5⟩ := by
    intro i
    induction i with
    | zero => exact fun m hm => .inl (Option.some.inj hm).symm
    | succ i ih =>
      intro m hm
      obtain ⟨k, hk, hm⟩ := Option.bind_eq_some_iff.mp hm
      rcases ih k hk with rfl | rfl
      · exact .inr (Option.some.inj (hm.symm.trans hnext))
      · cases hm.symm.trans hlast
  have hfar : ∀ m, m = ⟨1⟩ ∨ m = ⟨5⟩ → ¬ forked.Diverts ⟨10⟩ m := by
    rintro m (rfl | rfl) ⟨first, hfirst, hto, -⟩
    · cases hfirst.symm.trans hnext
      exact absurd (hto.mpr (by decide)) (by decide)
    · cases hfirst.symm.trans hlast
  obtain ⟨-, hmoved, -⟩ := hagain ⟨5⟩ (by decide)
  obtain ⟨-, -, hsuccessor, hsame⟩ := hagain ⟨10⟩ (by decide)
  obtain ⟨-, hself, -⟩ := hagain ⟨15⟩ (by decide)
  refine ⟨(hmoved _).trans (by decide +kernel), ?_, ?_, (hself _).trans (by decide +kernel)⟩
  · exact ((hsuccessor ⟨1⟩).2.mpr (hfar _ (.inl rfl))).trans hnext
  · exact fun e => (hsame e ⟨1⟩ fun i m hm => hfar m (hpass i m hm)).2

/-- Two flow outputs of one name, of which the second leads to a log node. -/
def twin : Graph :=
  (Command.performAll
    [.addNode (.scripted { kind := "twin", flow := true, pins := [.flow .output, .flow .output] }),
      .addNode (.logValue "a"), .createLink ⟨3⟩ ⟨5⟩]
    (Graph.new "twin" .builtin)).graph

/-- The same pins again may divert the flow: behind a fork, and where a link comes to the first of
    two pins of one name. -/
theorem same_pins_divert :
    ((Graph.new "forked" .builtin).Reaches forked ∧ forked.AsDeclared ⟨5⟩ ∧ forked.NamesApart ⟨5⟩ ∧
      forked.flowSuccessor? ⟨1⟩ = some ⟨5⟩ ∧
      (relayout ⟨5⟩ forked).graph.flowSuccessor? ⟨1⟩ = some ⟨10⟩ ∧
      (runPass ⟨1⟩ ⟨{}, forked⟩).session.evaluator.visited = [⟨1⟩, ⟨5⟩] ∧
      (runPass ⟨1⟩ ⟨{}, (relayout ⟨5⟩ forked).graph⟩).session.evaluator.visited = [⟨1⟩, ⟨10⟩]) ∧
    ((Graph.new "twin" .builtin).Reaches twin ∧ twin.AsDeclared ⟨1⟩ ∧
      twin.flowSuccessor? ⟨1⟩ = none ∧
      (relayout ⟨1⟩ twin).graph.flowSuccessor? ⟨1⟩ = some ⟨4⟩) := by
  refine ⟨⟨⟨⟨_, rfl⟩, by decide +kernel⟩, fun d => by cases d <;> decide +kernel,
    fun d => by cases d <;> decide +kernel, by decide +kernel, by decide +kernel, ?_, ?_⟩,
    ⟨⟨_, rfl⟩, by decide +kernel⟩, fun d => by cases d <;> decide +kernel,
    by decide +kernel, by decide +kernel⟩
  · decide +kernel
  · decide +kernel

end Graph

end FlowGraph
