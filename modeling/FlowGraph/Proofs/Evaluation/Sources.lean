import FlowGraph.Proofs.Graph.Layout

/-!
# Inputs and what feeds them

Which pin feeds an input, which nodes are pure and which pin is the first value output of a node is
a matter of the frame of a graph, so an evaluation cannot change it while it runs.  In a graph that
was built and not loaded, a pure node has one output at most, so the pin that feeds an input from a
pure node is the one its body writes.
-/

namespace FlowGraph.Graph

variable {g g' : Graph}

/-! ## Across a frame -/

theorem isPure_of_frame (hf : g'.frame = g.frame) (k : NodeId) : g'.isPure k = g.isPure k := by
  unfold isPure
  rw [nodes_of_frame hf]

theorem feedingPin?_frame (g : Graph) (p : PinId) : g.frame.feedingPin? p = g.feedingPin? p := by
  unfold feedingPin?
  simp only [frame, Table.get?_map]
  cases g.pins.get? p <;> rfl

theorem feedingPin?_of_frame (hf : g'.frame = g.frame) (p : PinId) :
    g'.feedingPin? p = g.feedingPin? p := by
  rw [← feedingPin?_frame g', hf, feedingPin?_frame]

theorem Pin.isFlow_blank (p : Pin) : p.blank.isFlow = p.isFlow := by
  simp [Pin.blank, Pin.isFlow, Value.isFlow, Pin.type]

theorem valuePin?_frame (g : Graph) (k : NodeId) (d : Direction) (i : Nat) :
    g.frame.valuePin? k d i = g.valuePin? k d i := by
  have htest : ∀ p, ((g.pins.map .blank).get? p).any (!·.isFlow) =
      (g.pins.get? p).any (!·.isFlow) := by
    intro p
    rw [Table.get?_map]
    cases g.pins.get? p with
    | none => rfl
    | some pin => exact congrArg not (Pin.isFlow_blank pin)
  simp only [valuePin?, frame, htest]

theorem valuePin?_of_frame (hf : g'.frame = g.frame) (k : NodeId) (d : Direction) (i : Nat) :
    g'.valuePin? k d i = g.valuePin? k d i := by
  rw [← valuePin?_frame g', hf, valuePin?_frame]

theorem typeOf?_of_frame (hf : g'.frame = g.frame) (p : PropertyId) :
    g'.typeOf? p = g.typeOf? p := (thins_of_frame hf default).types p

/-! ## The pin that feeds an input -/

theorem feedingPin?_eq_some {i src : PinId} :
    g.feedingPin? i = some src ↔ ∃ pin l link, g.pins.get? i = some pin ∧
      pin.direction = .input ∧ pin.links = [l] ∧ g.links.get? l = some link ∧
      link.otherEnd? i = some src := by
  simp only [feedingPin?, Option.bind_eq_bind, Option.bind_eq_some_iff]
  constructor
  · rintro ⟨pin, hpin, l, hl, link, hlink, hother⟩
    refine ⟨pin, l, link, hpin, ?_, ?_, hlink, hother⟩
    · unfold Pin.feedingLink? at hl
      split at hl
      · next hd _ => exact hd
      · cases hl
    · unfold Pin.feedingLink? at hl
      split at hl
      · next _ hlinks =>
        cases hl
        exact hlinks
      · cases hl
  · rintro ⟨pin, l, link, hpin, hd, hlinks, hlink, hother⟩
    refine ⟨pin, hpin, l, ?_, link, hlink, hother⟩
    simp [Pin.feedingLink?, hd, hlinks]

/-- The pure node that an input is fed from.  It is evaluated before the input is refreshed. -/
def pureSource? (g : Graph) (input : PinId) : Option NodeId := do
  let _ ← (g.pins.get? input).filter (!·.isFlow)
  let source ← g.feedingPin? input
  let sourcePin ← g.pins.get? source
  (some sourcePin.node).filter g.isPure

theorem pureSource?_eq_some {i : PinId} {m : NodeId} :
    g.pureSource? i = some m ↔ ∃ pin src q, g.pins.get? i = some pin ∧ pin.isFlow = false ∧
      g.feedingPin? i = some src ∧ g.pins.get? src = some q ∧ q.node = m ∧ g.isPure m = true := by
  simp only [pureSource?, Option.bind_eq_bind, Option.bind_eq_some_iff, Option.filter_eq_some_iff,
    Option.some.injEq, Bool.not_eq_true']
  constructor
  · rintro ⟨pin, ⟨hpin, hflow⟩, src, hsrc, q, hq, hm, hpure⟩
    exact ⟨pin, src, q, hpin, hflow, hsrc, hq, hm, hpure⟩
  · rintro ⟨pin, src, q, hpin, hflow, hsrc, hq, hm, hpure⟩
    exact ⟨pin, ⟨hpin, hflow⟩, src, hsrc, q, hq, hm, hpure⟩

theorem pureSource?_of_frame (hf : g'.frame = g.frame) (i : PinId) :
    g'.pureSource? i = g.pureSource? i := by
  suffices hsame : ∀ {g g' : Graph} {m}, g'.frame = g.frame → g'.pureSource? i = some m →
      g.pureSource? i = some m from Option.ext fun m => ⟨hsame hf, hsame hf.symm⟩
  intro g g' m hf hm
  obtain ⟨pin', src, q', hpin', hflow, hsrc, hq', hnode, hpure⟩ := pureSource?_eq_some.mp hm
  obtain ⟨pin, hpin, hblank⟩ := pin_of_frame hf hpin'
  obtain ⟨q, hq, hblank'⟩ := pin_of_frame hf hq'
  refine pureSource?_eq_some.mpr ⟨pin, src, q, hpin, ?_, ?_, hq, ?_, ?_⟩
  · rw [← Pin.isFlow_blank, ← hblank, Pin.isFlow_blank, hflow]
  · rw [← hsrc, feedingPin?_of_frame hf]
  · exact (congrArg Pin.node hblank').symm.trans hnode
  · rw [← hpure, isPure_of_frame hf]

/-- The other end of a link fits the pin. -/
theorem Intact.otherEnd (h : g.Intact) {l : LinkId} {link : Link} {p q : PinId} {pin : Pin}
    (hl : g.links.get? l = some link) (hp : g.pins.get? p = some pin)
    (hq : link.otherEnd? p = some q) :
    ∃ far, g.pins.get? q = some far ∧ far.type = pin.type ∧ far.direction ≠ pin.direction := by
  obtain ⟨a, b, ha, hb, hab⟩ := h.joined hl
  obtain ⟨-, htype, hdir⟩ := Pin.canConnect_iff.mp hab
  unfold Link.otherEnd? at hq
  split at hq
  · next hs =>
    cases hq
    rw [hs, hp] at ha
    cases ha
    exact ⟨b, hb, htype, hdir⟩
  · split at hq
    · next hf =>
      cases hq
      rw [hf, hp] at hb
      cases hb
      exact ⟨a, ha, htype.symm, hdir.symm⟩
    · cases hq

/-- An input is fed from an output of its type. -/
theorem Intact.feeding (h : g.Intact) {i src : PinId} (hf : g.feedingPin? i = some src) :
    ∃ pin q, g.pins.get? i = some pin ∧ pin.direction = .input ∧ g.pins.get? src = some q ∧
      q.direction = .output ∧ q.type = pin.type := by
  obtain ⟨pin, l, link, hpin, hd, -, hlink, hother⟩ := feedingPin?_eq_some.mp hf
  obtain ⟨q, hq, htype, hdir⟩ := h.otherEnd hlink hpin hother
  refine ⟨pin, q, hpin, hd, hq, ?_, htype⟩
  cases hqd : q.direction with
  | input => exact absurd (hqd.trans hd.symm) hdir
  | output => rfl

/-- The other end of a link of an input feeds it. -/
theorem Intact.feedingPin?_of_otherEnd (h : g.Intact) {l : LinkId} {link : Link} {i src : PinId}
    {pin : Pin} (hp : g.pins.get? i = some pin) (hd : pin.direction = .input)
    (hl : g.links.get? l = some link) (hsrc : link.otherEnd? i = some src) :
    g.feedingPin? i = some src := by
  have hmem : l ∈ pin.links := by
    rw [h.entered hp, mem_linksAt_iff h.links]
    exact ⟨link, hl, by rw [← Link.isSome_otherEnd?, hsrc]; rfl⟩
  have hone := eq_singleton_of_mem hmem (h.fed hp hd)
  exact feedingPin?_eq_some.mpr ⟨pin, l, link, hp, hd, hone, hl, hsrc⟩

/-- An input that is linked is fed. -/
theorem Intact.feedingPin?_isSome (h : g.Intact) {i : PinId} {pin : Pin}
    (hp : g.pins.get? i = some pin) (hd : pin.direction = .input) :
    (∃ src, g.feedingPin? i = some src) ↔ pin.isConnected = true := by
  constructor
  · rintro ⟨src, hsrc⟩
    obtain ⟨pin', l, -, hp', -, hlinks, -, -⟩ := feedingPin?_eq_some.mp hsrc
    rw [hp] at hp'
    cases hp'
    simp [Pin.isConnected, hlinks]
  · intro hc
    cases hlinks : pin.links with
    | nil => simp [Pin.isConnected, hlinks] at hc
    | cons l rest =>
      have hmem : l ∈ g.linksAt i := by
        rw [← h.entered hp, hlinks]
        exact List.mem_cons_self
      obtain ⟨link, hlink, hinv⟩ := (mem_linksAt_iff h.links).mp hmem
      have hother : (link.otherEnd? i).isSome = true := by
        rw [Link.isSome_otherEnd?]
        exact hinv
      obtain ⟨src, hsrc⟩ := Option.isSome_iff_exists.mp hother
      exact ⟨src, h.feedingPin?_of_otherEnd hp hd hlink hsrc⟩

/-! ## Value pins -/

theorem Intact.valuePin? (h : g.Intact) {k : NodeId} {d : Direction} {i : Nat} {p : PinId}
    (hp : g.valuePin? k d i = some p) :
    ∃ n pin, g.nodes.get? k = some n ∧ p ∈ n.pinsOf d ∧ g.pins.get? p = some pin ∧
      pin.node = k ∧ pin.direction = d ∧ pin.isFlow = false := by
  simp only [Graph.valuePin?, Option.bind_eq_some_iff, Option.map_eq_some_iff] at hp
  obtain ⟨ids, ⟨n, hn, rfl⟩, hp⟩ := hp
  obtain ⟨hm, htest⟩ := List.mem_filter.mp (List.mem_of_getElem? hp)
  obtain ⟨pin, hpin, hk, hd⟩ := h.listed hn hm
  refine ⟨n, pin, hn, hm, hpin, hk, hd, ?_⟩
  rw [hpin] at htest
  simpa using htest

/-! ## Graphs that were built -/

/-- A sound graph of built-in nodes whose pins are as declared. -/
structure Built (g : Graph) : Prop where
  sound : g.Sound
  laid : g.Laid
  builtin : ∀ {k n b}, g.nodes.get? k = some n → n.behavior = some b → b.isBuiltin = true

theorem isPure_iff {k : NodeId} :
    g.isPure k = true ↔ ∃ n, g.nodes.get? k = some n ∧ n.flow = false := by
  unfold isPure
  cases g.nodes.get? k <;> simp

/-- The three built-in kinds of pure nodes. -/
theorem Sound.pure_cases (h : g.Sound) {k : NodeId} {n : Node} {b : Behavior}
    (hn : g.nodes.get? k = some n) (hb : n.behavior = some b) (hpure : n.flow = false)
    (hbuiltin : b.isBuiltin = true) :
    (∃ x, b = .floatConstant x) ∨ (∃ op, b = .arithmetic op) ∨ ∃ p, b = .getVariable p := by
  obtain ⟨b', hb', -, hf⟩ := h.staffed.staff hn
  rw [hb] at hb'
  cases hb'
  rw [hf] at hpure
  cases b with
  | floatConstant x => exact .inl ⟨x, rfl⟩
  | arithmetic op => exact .inr (.inl ⟨op, rfl⟩)
  | getVariable p => exact .inr (.inr ⟨p, rfl⟩)
  | scripted script => cases hbuiltin
  | _ => cases hpure

theorem Built.pure_cases (h : g.Built) {k : NodeId} (hpure : g.isPure k = true) :
    ∃ n b, g.nodes.get? k = some n ∧ n.behavior = some b ∧
      ((∃ x, b = .floatConstant x) ∨ (∃ op, b = .arithmetic op) ∨ ∃ p, b = .getVariable p) := by
  obtain ⟨n, hn, hflow⟩ := isPure_iff.mp hpure
  obtain ⟨b, hb, -⟩ := h.sound.staffed.staff hn
  exact ⟨n, b, hn, hb, h.sound.pure_cases hn hb hflow (h.builtin hn hb)⟩

theorem Intact.forms_length (h : g.Intact) {k : NodeId} {n : Node}
    (hn : g.nodes.get? k = some n) (d : Direction) :
    (g.forms k d).length = (n.pinsOf d).length := by
  rw [forms_eq hn, List.filterMap_length_eq_length]
  intro p hp
  obtain ⟨pin, hpin, -⟩ := h.listed hn hp
  rw [hpin]
  rfl

/-- A pure node of a built-in kind has no output beside the one its body writes. -/
theorem Laid.pure_output (hl : g.Laid) (h : g.Sound) {p : PinId} {pin : Pin}
    (hp : g.pins.get? p = some pin) (hd : pin.direction = .output) (hflow : pin.isFlow = false)
    {n : Node} {b : Behavior} (hn : g.nodes.get? pin.node = some n) (hb : n.behavior = some b)
    (hpure : n.flow = false) (hbuiltin : b.isBuiltin = true) :
    g.valuePin? pin.node .output 0 = some p := by
  have hkind := h.pure_cases hn hb hpure hbuiltin
  obtain ⟨v, -, hforms⟩ := hl pin.node n b hn hb
  obtain ⟨n', hn', hlisted⟩ := h.intact.owned hp
  rw [hn] at hn'
  cases hn'
  rw [hd] at hlisted
  have hlayout : (formsOf (b.layoutAs v) .output).length ≤ 1 := by
    rcases hkind with ⟨x, rfl⟩ | ⟨op, rfl⟩ | ⟨q, rfl⟩
    · exact Nat.le_refl 1
    · exact Nat.le_refl 1
    · cases v with
      | none => exact Nat.zero_le 1
      | some v => exact Nat.le_refl 1
  have hle := Nat.le_trans (hforms .output).length_le hlayout
  rw [h.intact.forms_length hn] at hle
  have hsingle : n.pinsOf .output = [p] := eq_singleton_of_mem hlisted hle
  simp [valuePin?, hn, hsingle, hp, hflow]

theorem Built.pure_output (h : g.Built) {p : PinId} {pin : Pin} (hp : g.pins.get? p = some pin)
    (hd : pin.direction = .output) (hflow : pin.isFlow = false) (hpure : g.isPure pin.node = true) :
    g.valuePin? pin.node .output 0 = some p := by
  obtain ⟨n, hn, hpure⟩ := isPure_iff.mp hpure
  obtain ⟨b, hb, -⟩ := h.sound.staffed.staff hn
  exact h.laid.pure_output h.sound hp hd hflow hn hb hpure (h.builtin hn hb)

end FlowGraph.Graph
