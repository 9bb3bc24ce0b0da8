import FlowGraph.Proofs.Evaluation.Frame
import FlowGraph.Proofs.Evaluation.Sources

/-!
# What the graph means

The dataflow reading of a graph (`Graph.Means`): an output of a flow node means the value it holds,
a constant its number, a sum what its two operands mean, added, a product the same, multiplied, and
a variable the value of its property.  No pin is overwritten in this reading, and no body is run.

Evaluation on demand computes it by overwriting pins.  What makes it right is that every write
during a pull puts into a pin the value that is due there by the graph as it was before: a pin that
was refreshed once (`Graph.Settled`) may be written again by a later pull, but never with another
value.
-/

namespace FlowGraph

open Eval

namespace Graph

variable {g t u : Graph}

/-- The pin that feeds a value input of the node. -/
def operand? (g : Graph) (k : NodeId) (i : Nat) : Option PinId :=
  (g.valuePin? k .input i).bind g.feedingPin?

theorem operand?_eq_some {k : NodeId} {i : Nat} {a : PinId} :
    g.operand? k i = some a ↔
      ∃ p, g.valuePin? k .input i = some p ∧ g.feedingPin? p = some a :=
  Option.bind_eq_some_iff

/-- The value of an output by the dataflow reading of the graph. -/
inductive Means (g : Graph) : PinId → Value → Prop where
  /-- The output of a flow node has the value the node left there. -/
  | stored {p : PinId} {pin : Pin} {n : Node} (hp : g.pins.get? p = some pin)
      (hd : pin.direction = .output) (hn : g.nodes.get? pin.node = some n) (hflow : n.flow = true) :
      Means g p pin.value
  | constant {p : PinId} {k : NodeId} {n : Node} {x : Float32}
      (hp : g.valuePin? k .output 0 = some p) (hn : g.nodes.get? k = some n)
      (hb : n.behavior = some (.floatConstant x)) : Means g p (.float x)
  | sum {p a b : PinId} {k : NodeId} {n : Node} {x y : Float32}
      (hp : g.valuePin? k .output 0 = some p) (hn : g.nodes.get? k = some n)
      (hb : n.behavior = some (.arithmetic .add)) (ha : g.operand? k 0 = some a)
      (hc : g.operand? k 1 = some b) (hx : Means g a (.float x)) (hy : Means g b (.float y)) :
      Means g p (.float (x + y))
  | product {p a b : PinId} {k : NodeId} {n : Node} {x y : Float32}
      (hp : g.valuePin? k .output 0 = some p) (hn : g.nodes.get? k = some n)
      (hb : n.behavior = some (.arithmetic .multiply)) (ha : g.operand? k 0 = some a)
      (hc : g.operand? k 1 = some b) (hx : Means g a (.float x)) (hy : Means g b (.float y)) :
      Means g p (.float (x * y))
  | property {p : PinId} {k : NodeId} {n : Node} {q : PropertyId} {v : Value}
      (hp : g.valuePin? k .output 0 = some p) (hn : g.nodes.get? k = some n)
      (hb : n.behavior = some (.getVariable (some q))) (hv : g.propertyValue? q = some v) :
      Means g p v

/-- A pin is the value output of one node only. -/
theorem Intact.valuePin?_owner (h : g.Intact) {k k' : NodeId} {d d' : Direction} {i i' : Nat}
    {p : PinId} (hp : g.valuePin? k d i = some p) (hp' : g.valuePin? k' d' i' = some p) :
    k = k' ∧ d = d' := by
  obtain ⟨-, pin, -, -, hpin, hk, hd, -⟩ := h.valuePin? hp
  obtain ⟨-, pin', -, -, hpin', hk', hd', -⟩ := h.valuePin? hp'
  rw [hpin] at hpin'
  cases hpin'
  exact ⟨hk.symm.trans hk', hd.symm.trans hd'⟩

/-- The value output of a pure node is not the output of a flow node. -/
theorem Sound.not_flow (h : g.Sound) {p : PinId} {pin : Pin} {k : NodeId} {d : Direction} {i : Nat}
    {m n : Node} {b : Behavior} (hp : g.pins.get? p = some pin)
    (hm : g.nodes.get? pin.node = some m) (hflow : m.flow = true)
    (hk : g.valuePin? k d i = some p) (hn : g.nodes.get? k = some n) (hb : n.behavior = some b) :
    b.hasFlow = true := by
  obtain ⟨-, pin', -, -, hpin', howner, -, -⟩ := h.intact.valuePin? hk
  rw [hp] at hpin'
  cases hpin'
  rw [howner, hn] at hm
  cases hm
  obtain ⟨b', hb', -, hf⟩ := h.staffed.staff hn
  rw [hb] at hb'
  cases hb'
  exact hf.symm.trans hflow

/-- The operands of the node mean the numbers. -/
def Operands (g : Graph) (k : NodeId) (x y : Float32) : Prop :=
  ∃ a b, g.operand? k 0 = some a ∧ g.operand? k 1 = some b ∧
    g.Means a (.float x) ∧ g.Means b (.float y)

/-- What a pure node computes, by its kind. -/
def Gives (g : Graph) (k : NodeId) : Behavior → Value → Prop
  | .floatConstant x, v => v = .float x
  | .arithmetic .add, v => ∃ x y, g.Operands k x y ∧ v = .float (x + y)
  | .arithmetic .multiply, v => ∃ x y, g.Operands k x y ∧ v = .float (x * y)
  | .getVariable (some q), v => g.propertyValue? q = some v
  | _, _ => False

/-- Operands mean the same numbers if the pins that feed them mean one value each. -/
theorem Operands.unique {k : NodeId} {a b : PinId} {x y x' y' : Float32}
    (h : g.Operands k x' y') (ha : g.operand? k 0 = some a) (hb : g.operand? k 1 = some b)
    (hx : ∀ {w}, g.Means a w → w = .float x) (hy : ∀ {w}, g.Means b w → w = .float y) :
    x' = x ∧ y' = y := by
  obtain ⟨a', b', ha', hb', hx', hy'⟩ := h
  rw [ha] at ha'
  cases ha'
  rw [hb] at hb'
  cases hb'
  exact ⟨Value.float.inj (hx hx'), Value.float.inj (hy hy')⟩

/-- The output of a pure node means what the node computes. -/
theorem Sound.gives_of_means (h : g.Sound) {p : PinId} {k : NodeId} {n : Node} {b : Behavior}
    {v : Value} (hp : g.valuePin? k .output 0 = some p) (hn : g.nodes.get? k = some n)
    (hb : n.behavior = some b) (hpure : b.hasFlow = false) (hv : g.Means p v) : g.Gives k b v := by
  -- Two nodes that give a pin its meaning are the same node, so they have the same behavior.
  have hsame : ∀ {k' : NodeId} {n' : Node} {b' : Behavior}, g.valuePin? k' .output 0 = some p →
      g.nodes.get? k' = some n' → n'.behavior = some b' → k' = k ∧ b' = b := by
    intro k' n' b' hp' hn' hb'
    obtain ⟨rfl, -⟩ := h.intact.valuePin?_owner hp hp'
    rw [hn] at hn'
    cases hn'
    rw [hb] at hb'
    exact ⟨rfl, (Option.some.inj hb').symm⟩
  cases hv with
  | stored hp' _ hn' hflow =>
    have := h.not_flow hp' hn' hflow hp hn hb
    rw [hpure] at this
    cases this
  | constant hp' hn' hb' =>
    obtain ⟨rfl, rfl⟩ := hsame hp' hn' hb'
    rfl
  | sum hp' hn' hb' ha hc hx hy | product hp' hn' hb' ha hc hx hy =>
    obtain ⟨rfl, rfl⟩ := hsame hp' hn' hb'
    exact ⟨_, _, ⟨_, _, ha, hc, hx, hy⟩, rfl⟩
  | property hp' hn' hb' hv =>
    obtain ⟨rfl, rfl⟩ := hsame hp' hn' hb'
    exact hv

/-- A pin means one value at most. -/
theorem Means.unique (h : g.Sound) {p : PinId} {v w : Value} (hv : g.Means p v)
    (hw : g.Means p w) : w = v := by
  induction hv generalizing w with
  | stored hp hd hn hflow =>
    -- The other reading cannot be that of a pure node.
    have hnot : ∀ {k : NodeId} {n : Node} {b : Behavior} {p : PinId}, g.valuePin? k .output 0 =
        some p → g.nodes.get? k = some n → n.behavior = some b → b.hasFlow = false →
        ∀ {pin : Pin} {m : Node}, g.pins.get? p = some pin → g.nodes.get? pin.node = some m →
        m.flow ≠ true := by
      intro k n b p hk hn hb hpure pin m hp hm hflow
      have := h.not_flow hp hm hflow hk hn hb
      rw [hpure] at this
      cases this
    cases hw with
    | stored hp' =>
      rw [hp] at hp'
      cases hp'
      rfl
    | constant hp' hn' hb' => exact absurd hflow (hnot hp' hn' hb' rfl hp hn)
    | sum hp' hn' hb' => exact absurd hflow (hnot hp' hn' hb' rfl hp hn)
    | product hp' hn' hb' => exact absurd hflow (hnot hp' hn' hb' rfl hp hn)
    | property hp' hn' hb' => exact absurd hflow (hnot hp' hn' hb' rfl hp hn)
  | constant hp hn hb => exact h.gives_of_means hp hn hb rfl hw
  | sum hp hn hb ha hc _ _ ihx ihy | product hp hn hb ha hc _ _ ihx ihy =>
    obtain ⟨x', y', hoperands, rfl⟩ := h.gives_of_means hp hn hb rfl hw
    obtain ⟨rfl, rfl⟩ := hoperands.unique ha hc ihx ihy
    rfl
  | property hp hn hb hv =>
    have hw' : g.propertyValue? _ = some w := h.gives_of_means hp hn hb rfl hw
    rw [hv] at hw'
    exact (Option.some.inj hw').symm

/-! ## Values that are due -/

/-- The value a refreshed pin ought to hold: an input that of its source, the output of a pure node
    its own. -/
def Due (g : Graph) (p : PinId) (v : Value) : Prop :=
  (∃ src, g.feedingPin? p = some src ∧ g.Means src v) ∨
    ∃ k, g.isPure k = true ∧ g.valuePin? k .output 0 = some p ∧ g.Means p v

/-- The pin holds in `t` the value that is due by `g`. -/
def Settled (g t : Graph) (p : PinId) : Prop :=
  ∃ pin, t.pins.get? p = some pin ∧ g.Due p pin.value

/-- `t` is `g` after some pulls: what pulls do not write is as it was. -/
structure Advances (g t : Graph) : Prop where
  frame : t.frame = g.frame
  properties : t.properties = g.properties
  /-- The outputs of flow nodes are not written. -/
  stored : ∀ {p pin n}, g.pins.get? p = some pin → pin.direction = .output →
    g.nodes.get? pin.node = some n → n.flow = true → t.pins.get? p = some pin

theorem Advances.refl (g : Graph) : g.Advances g := ⟨rfl, rfl, fun h _ _ _ => h⟩

/-- A later state of the same evaluation, in which nothing that was settled is lost. -/
structure Onward (g t u : Graph) : Prop where
  advances : g.Advances u
  settled : ∀ {p}, g.Settled t p → g.Settled u p

theorem Onward.refl (h : g.Advances t) : g.Onward t t := ⟨h, id⟩

theorem Onward.trans {w : Graph} (h : g.Onward t u) (h' : g.Onward u w) : g.Onward t w :=
  ⟨h'.advances, fun hs => h'.settled (h.settled hs)⟩

/-- The graph in which a pin holds the value. -/
def withValue (g : Graph) (p : PinId) (v : Value) : Graph :=
  { g with pins := g.pins.modify p fun q => { q with value := v } }

theorem withValue_frame (h : t.Indexed) {p : PinId} {pin : Pin} {v : Value}
    (hp : t.pins.get? p = some pin) (htype : v.type = pin.type) :
    (t.withValue p v).frame = t.frame := by
  have hframe := setPin_frame h p v
  rcases setPin_cases p v t with ⟨_, -, hne⟩ | ⟨_, -, -, hg⟩
  · exact absurd htype (hne pin hp)
  · rwa [hg] at hframe

/-- A pin that is due a value is not the output of a flow node. -/
theorem Due.not_stored (h : g.Sound) {p : PinId} {v : Value} (hdue : g.Due p v) {pin : Pin}
    {n : Node} (hp : g.pins.get? p = some pin) (hd : pin.direction = .output)
    (hn : g.nodes.get? pin.node = some n) : n.flow = false := by
  rcases hdue with ⟨src, hsrc, -⟩ | ⟨k, hpure, hk, -⟩
  · obtain ⟨pin', -, hp', hd', -⟩ := h.intact.feeding hsrc
    rw [hp] at hp'
    cases hp'
    rw [hd] at hd'
    cases hd'
  · obtain ⟨-, pin', -, -, hp', howner, -, -⟩ := h.intact.valuePin? hk
    rw [hp] at hp'
    cases hp'
    obtain ⟨m, hm, hflow⟩ := isPure_iff.mp hpure
    rw [howner, hm] at hn
    cases hn
    exact hflow

/-- Writing the value that is due. -/
theorem Advances.withValue (h : g.Sound) (ha : g.Advances t) {p : PinId} {pin : Pin} {v : Value}
    (hp : t.pins.get? p = some pin) (htype : v.type = pin.type) (hdue : g.Due p v) :
    g.Onward t (t.withValue p v) ∧ g.Settled (t.withValue p v) p := by
  have hview : ∀ q, (t.withValue p v).pins.get? q =
      (t.pins.get? q).map fun r => if q = p then { r with value := v } else r := fun q => by
    simp only [Graph.withValue, Table.get?_modify]
  have hwritten : g.Settled (t.withValue p v) p := by
    refine ⟨{ pin with value := v }, ?_, hdue⟩
    rw [hview, hp, Option.map_some, if_pos rfl]
  refine ⟨⟨⟨?_, ha.properties, ?_⟩, ?_⟩, hwritten⟩
  · have hindexed := h.intact.indexed.of_frame ha.frame
    exact (withValue_frame hindexed hp htype).trans ha.frame
  · intro q r n hr hd hn hflow
    have hne : q ≠ p := by
      rintro rfl
      have := hdue.not_stored h hr hd hn
      rw [hflow] at this
      cases this
    rw [hview, ha.stored hr hd hn hflow, Option.map_some, if_neg hne]
  · -- A settled pin that is written again gets the value that is due to it.
    intro q hq
    by_cases hqp : q = p
    · rw [hqp]
      exact hwritten
    · obtain ⟨r, hr, hdue'⟩ := hq
      refine ⟨r, ?_, hdue'⟩
      rw [hview, hr, Option.map_some, if_neg hqp]

end Graph

end FlowGraph
