import FlowGraph.Proofs.Evaluation.Success
import FlowGraph.Proofs.Redirection

/-!
# Where the flow comes in

A built-in behavior declares one flow input at most, except that a variable takes the type of its
property, and this may be the flow type.  So in a graph that never had such a property each node of
a built-in kind has one flow input at most; a scripted one has as many as it declares.  It is not
enough that there is no such property now: a variable keeps the pins of a property that is gone.

An input has one link at most.  So where each node has one flow input, no two nodes are followed by
the same node (`EntersOnce.flowSuccessor?_injective`).
-/

namespace FlowGraph

/-- How many of the forms are of the flow type. -/
def flowCount (forms : List (String × ValueType)) : Nat := forms.countP (·.2.isFlow)

/-- The behavior declares one flow input at most, as all built-in kinds do. -/
def Behavior.oneEntrance : Behavior → Bool
  | scripted script => decide (flowCount (formsOf script.pins .input) ≤ 1)
  | _ => true

theorem Behavior.flowCount_layout {b : Behavior} (hb : b.oneEntrance = true)
    {valueOf : PropertyId → Option Value}
    (hflow : ∀ p v, valueOf p = some v → v.type.isFlow = false) :
    flowCount (formsOf (b.layout valueOf) .input) ≤ 1 := by
  cases b with
  | eventBegin => exact Nat.zero_le 1
  | logValue label => exact Nat.le_refl 1
  | floatConstant value => exact Nat.zero_le 1
  | arithmetic op => exact Nat.zero_le 1
  | getVariable p =>
    cases hv : p.bind valueOf with
    | none =>
      simp only [layout, hv]
      exact Nat.zero_le 1
    | some v =>
      simp only [layout, hv]
      exact Nat.zero_le 1
  | setVariable p =>
    cases hv : p.bind valueOf with
    | none =>
      simp only [layout, hv]
      exact Nat.le_refl 1
    | some v =>
      obtain ⟨q, -, hq⟩ := Option.bind_eq_some_iff.mp hv
      have hforms : formsOf ((setVariable p).layout valueOf) .input =
          [("Exec", .flow), ("Value", v.type)] := by
        simp only [layout, hv]
        rfl
      rw [hforms, flowCount, List.countP_cons_of_pos rfl,
        List.countP_cons_of_neg (by simp [hflow q v hq])]
      exact Nat.le_refl 1
  | scripted script => exact of_decide_eq_true hb

theorem Behavior.oneEntrance_keepBound (keep : PropertyId → Bool) (b : Behavior) :
    (b.keepBound keep).oneEntrance = b.oneEntrance := by
  cases b <;> rfl

namespace Graph

variable {g g' : Graph}

/-! ## One entrance -/

/-- The behaviors of all nodes declare one flow input at most. -/
def oneEntrance (g : Graph) : Bool := g.nodes.values.all fun n => n.behavior.all (·.oneEntrance)

theorem oneEntrance_of_allBuiltin (h : g.allBuiltin = true) : g.oneEntrance = true := by
  refine List.all_eq_true.mpr fun n hn => ?_
  have hbuiltin := List.all_eq_true.mp h n hn
  cases hb : n.behavior with
  | none => rfl
  | some b =>
    rw [hb] at hbuiltin
    cases b with
    | scripted script => cases hbuiltin
    | _ => rfl

/-- A node whose behavior declares one flow input at most has one at most. -/
def EntersOnce (g : Graph) : Prop :=
  ∀ k n b, g.nodes.get? k = some n → n.behavior = some b → b.oneEntrance = true →
    flowCount (g.forms k .input) ≤ 1

theorem EntersOnce.new (name : String) (registry : Registry) :
    (Graph.new name registry).EntersOnce := fun _ _ _ hn => nomatch hn

theorem EntersOnce.thins (h : g.EntersOnce) {k : NodeId} (ht : Thins k g g') {n' : Node}
    {b : Behavior} (hn' : g'.nodes.get? k = some n') (hb : n'.behavior = some b)
    (hone : b.oneEntrance = true) : flowCount (g'.forms k .input) ≤ 1 := by
  obtain ⟨n, hn, hbehavior, -⟩ := ht.node hn'
  exact Nat.le_trans (ht.forms .input).countP_le (h k n b hn (hbehavior ▸ hb) hone)

theorem EntersOnce.repins (h : g.EntersOnce) (hflow : g.flowless = true) (hr : Repins g g') :
    g'.EntersOnce := by
  intro k n' b hn' hb hone
  cases hr with
  | thins ht => exact h.thins (ht k) hn' hb hone
  | @lays id declared hl =>
    by_cases hk : k = id
    · subst hk
      rw [hl.node hn'] at hb
      cases hb
      have hdeclared : flowCount (formsOf (b.layout g.propertyValue?) .input) ≤ 1 :=
        b.flowCount_layout hone fun _ _ hv => not_isFlow_of_flowless hflow hv
      exact Nat.le_trans (hl.forms .input).countP_le hdeclared
    · exact h.thins (hl.others hk) hn' hb hone

theorem EntersOnce.createProperty (h : g.EntersOnce) (name : String) (v : Value)
    (parent : Option PropertyId) : (Graph.createProperty name v parent g).graph.EntersOnce := by
  rcases createProperty_cases name v parent g with ⟨q, -, -, hg⟩ | ⟨-, hg⟩
  · rwa [hg]
  · rw [hg]
    exact h

theorem EntersOnce.deleteProperty (h : g.EntersOnce) (hs : g.Sound) (p : PropertyId) :
    (Graph.deleteProperty p g).graph.EntersOnce := by
  by_cases hp : p ∈ g.properties.keys
  · rw [deleteProperty_graph hs.intact.nodes.nodup hp]
    intro k n' b' hn' hb' hone
    simp only [Graph.withoutProperties, Table.get?_map] at hn'
    obtain ⟨n, hn, rfl⟩ := Option.map_eq_some_iff.mp hn'
    obtain ⟨b, hb, rfl⟩ := Option.map_eq_some_iff.mp hb'
    rw [Behavior.unbindAll, Behavior.oneEntrance_keepBound] at hone
    rw [forms_withoutProperties]
    exact h k n b hn hb hone
  · rwa [deleteProperty_of_not_mem hp]

theorem EntersOnce.perform (h : g.EntersOnce) (hs : g.Sound) (hflow : g.flowless = true)
    (c : Command) (hlast : (c.perform g).graph.nextId < lastNumber) :
    (c.perform g).graph.EntersOnce := by
  rcases hs.perform_repins c hlast with hr | ⟨name, v, parent, rfl⟩ | ⟨p, rfl⟩
  · exact h.repins hflow hr
  · exact h.createProperty name v parent
  · exact h.deleteProperty hs p

/-- The graph was built from an empty one, and there never was a property of the flow type. -/
inductive GrownFlowless : Graph → Prop where
  | new (name : String) (registry : Registry) : GrownFlowless (Graph.new name registry)
  | perform {g : Graph} (h : GrownFlowless g) (c : Command)
      (hflow : (c.perform g).graph.flowless = true) : GrownFlowless (c.perform g).graph

/-- A run goes on like that if there is no property of the flow type after any of its operations. -/
theorem GrownFlowless.performAll {commands : List Command} (h : g.GrownFlowless)
    (hflow : ∀ done ∈ commands.inits, (Command.performAll done g).graph.flowless = true) :
    (Command.performAll commands g).graph.GrownFlowless := by
  induction commands generalizing g with
  | nil => exact h
  | cons c commands ih =>
    have hfirst : (c.perform g).graph.flowless = true := by
      refine hflow [c] ((List.mem_inits _ _).mpr ?_)
      exact List.prefix_append [c] commands
    refine ih (h.perform c hfirst) fun done hdone => ?_
    refine hflow (c :: done) ((List.mem_inits _ _).mpr ?_)
    exact (List.prefix_cons_inj c).mpr ((List.mem_inits _ _).mp hdone)

/-- As long as there never was a property of the flow type, nodes keep to one flow input. -/
theorem GrownFlowless.entersOnce (h : g.GrownFlowless) (hlast : g.nextId < lastNumber) :
    g.Sound ∧ g.flowless = true ∧ g.EntersOnce := by
  induction h with
  | new name registry => exact ⟨.new name registry, rfl, .new name registry⟩
  | @perform g _ c hflow ih =>
    have hbefore := Nat.lt_of_le_of_lt (perform_counts c g hlast) hlast
    obtain ⟨hs, hflowless, honce⟩ := ih hbefore
    exact ⟨hs.perform c hlast, hflow, honce.perform hs hflowless c hlast⟩

/-! ## The nodes before a node -/

theorem isFlow_of_flowPin? {k : NodeId} {d : Direction} {p : PinId} {pin : Pin}
    (hp : g.flowPin? k d = some p) (hpin : g.pins.get? p = some pin) : pin.isFlow = true := by
  obtain ⟨listed, -, hfind⟩ := Option.bind_eq_some_iff.mp hp
  have htest := List.find?_some hfind
  rwa [hpin] at htest

/-- The flow goes from one node to the next through a flow input that is fed by the first. -/
theorem Intact.entrance_of_flowSuccessor? (h : g.Intact) {a c : NodeId}
    (hnext : g.flowSuccessor? a = some c) :
    ∃ i far out pin, g.pins.get? i = some far ∧ far.node = c ∧ far.direction = .input ∧
      far.isFlow = true ∧ g.feedingPin? i = some out ∧ g.pins.get? out = some pin ∧
      pin.node = a := by
  simp only [flowSuccessor?, Option.bind_eq_bind, Option.bind_eq_some_iff] at hnext
  obtain ⟨out, hout, pin, hpin, l, -, link, hlink, i, hi, far, hfar, hc⟩ := hnext
  obtain ⟨pin', hpin', hnode, hd⟩ := h.pin_of_flowPin? hout
  rw [hpin] at hpin'
  cases hpin'
  obtain ⟨far', hfar', htype, hother⟩ := h.otherEnd hlink hpin hi
  rw [hfar] at hfar'
  cases hfar'
  have hdirection : far.direction = .input := by
    cases hfd : far.direction with
    | input => rfl
    | output => exact absurd (hfd.trans hd.symm) hother
  have hflow : far.isFlow = pin.isFlow := congrArg ValueType.isFlow htype
  refine ⟨i, far, out, pin, hfar, Option.some.inj hc, hdirection, ?_, ?_, hpin, hnode⟩
  · rw [hflow, isFlow_of_flowPin? hout hpin]
  · exact h.feedingPin?_of_otherEnd hfar hdirection hlink (Link.otherEnd?_comm.mp hi)

/-- Of the flow inputs of a node that has one at most, any two are the same. -/
theorem Intact.entrance_unique (h : g.Intact) {k : NodeId}
    (hone : flowCount (g.forms k .input) ≤ 1) {p q : PinId} {a b : Pin}
    (ha : g.pins.get? p = some a) (hka : a.node = k) (hda : a.direction = .input)
    (hfa : a.isFlow = true) (hb : g.pins.get? q = some b) (hkb : b.node = k)
    (hdb : b.direction = .input) (hfb : b.isFlow = true) : p = q := by
  obtain ⟨n, hn, hp⟩ := h.owned ha
  obtain ⟨n', hn', hq⟩ := h.owned hb
  rw [hka] at hn
  rw [hkb, hn] at hn'
  cases hn'
  rw [hda] at hp
  rw [hdb] at hq
  have hcount : flowCount (g.forms k .input) =
      ((n.pinsOf .input).filter fun r => (g.pins.get? r).any (·.isFlow)).length := by
    rw [forms_eq hn, flowCount, List.countP_filterMap, ← List.countP_eq_length_filter]
    refine List.countP_congr fun r _ => ?_
    cases g.pins.get? r <;> exact Iff.rfl
  rw [hcount] at hone
  have hmem : ∀ {r pin}, r ∈ n.pinsOf .input → g.pins.get? r = some pin → pin.isFlow = true →
      r ∈ (n.pinsOf .input).filter fun r => (g.pins.get? r).any (·.isFlow) := by
    intro r pin hr hpin hf
    refine List.mem_filter.mpr ⟨hr, ?_⟩
    rw [hpin]
    exact hf
  have hsingle := eq_singleton_of_mem (hmem hp ha hfa) hone
  have hother := hmem hq hb hfb
  rw [hsingle] at hother
  exact (List.mem_singleton.mp hother).symm

/-- No two nodes are followed by the same node. -/
theorem EntersOnce.flowSuccessor?_injective (h : g.EntersOnce) (hs : g.Sound)
    (hone : g.oneEntrance = true) {a b c : NodeId} (ha : g.flowSuccessor? a = some c)
    (hb : g.flowSuccessor? b = some c) : a = b := by
  obtain ⟨i, far, out, pin, hfar, hnode, hd, hflow, hfeed, hpin, rfl⟩ :=
    hs.intact.entrance_of_flowSuccessor? ha
  obtain ⟨i', far', out', pin', hfar', hnode', hd', hflow', hfeed', hpin', rfl⟩ :=
    hs.intact.entrance_of_flowSuccessor? hb
  have hentrances : flowCount (g.forms c .input) ≤ 1 := by
    obtain ⟨n, hn, -⟩ := hs.intact.owned hfar
    obtain ⟨behavior, hbehavior, -⟩ := hs.staffed.staff hn
    have hall := List.all_eq_true.mp hone n (Table.mem_values_of_get? hn)
    rw [hbehavior] at hall
    exact hnode ▸ h _ n behavior hn hbehavior hall
  obtain rfl := hs.intact.entrance_unique hentrances hfar hnode hd hflow hfar' hnode' hd' hflow'
  rw [hfeed] at hfeed'
  cases hfeed'
  rw [hpin] at hpin'
  cases hpin'
  rfl

end Graph

end FlowGraph
