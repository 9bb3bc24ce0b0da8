import FlowGraph.Proofs.Evaluation.Bodies
import FlowGraph.Proofs.Run

/-!
# Pulling computes the meaning

A pull that succeeds leaves the output of its node settled, and whatever else was settled before.
The induction is on the depth of the pulls; a loop over inputs carries along which of them were
refreshed, and `Graph.Onward` is what lets a later input be pulled without undoing an earlier one.
-/

namespace FlowGraph

open Eval

namespace Graph

variable {g t : Graph} {s : Session} {k : NodeId}

/-- A settled input holds what its source means. -/
theorem Settled.input (h : g.Sound) {i : PinId} (hs : g.Settled t i) {pin : Pin}
    (hi : g.pins.get? i = some pin) (hd : pin.direction = .input) {pin' : Pin}
    (hp : t.pins.get? i = some pin') :
    ∃ src, g.feedingPin? i = some src ∧ g.Means src pin'.value := by
  obtain ⟨pin'', hp'', hdue⟩ := hs
  rw [hp] at hp''
  cases hp''
  rcases hdue with hdue | ⟨m, -, hm, -⟩
  · exact hdue
  · obtain ⟨-, q, -, -, hq, -, hqd, -⟩ := h.intact.valuePin? hm
    rw [hi] at hq
    cases hq
    rw [hd] at hqd
    cases hqd

/-- A settled output of a pure node holds what it means. -/
theorem Settled.output (h : g.Sound) {p : PinId} (hs : g.Settled t p) {pin : Pin}
    (hp : g.pins.get? p = some pin) (hd : pin.direction = .output) {pin' : Pin}
    (hp' : t.pins.get? p = some pin') : g.Means p pin'.value := by
  obtain ⟨pin'', hp'', hdue⟩ := hs
  rw [hp'] at hp''
  cases hp''
  rcases hdue with ⟨src, hsrc, -⟩ | ⟨m, -, -, hmeans⟩
  · obtain ⟨q, -, hq, hqd, -⟩ := h.intact.feeding hsrc
    rw [hp] at hq
    cases hq
    rw [hd] at hqd
    cases hqd
  · exact hmeans

/-- Writing to the output of a pure node what it means settles it. -/
theorem Built.writeOutput_settles (h : g.Built) (ha : g.Advances s.graph)
    (hpure : g.isPure k = true) {n : Node} {b : Behavior} (hn : g.nodes.get? k = some n)
    (hb : n.behavior = some b) {v : Value}
    (hv : ∀ p, g.valuePin? k .output 0 = some p → g.Means p v) :
    (writeOutput k 0 v).Ends (s.running k)
      (fun _ t => g.Onward s.graph (t.back k b).graph ∧
        ∀ p, g.valuePin? k .output 0 = some p → g.Settled (t.back k b).graph p)
      fun _ t => g.Advances (t.back k b).graph := by
  have hn' : s.graph.nodes.get? k = some n := by
    rw [nodes_of_frame ha.frame]
    exact hn
  refine writeOutput_ends (Q := fun _ t => g.Onward s.graph t.graph ∧
    ∀ p, g.valuePin? k .output 0 = some p → g.Settled t.graph p)
    (E := fun _ t => g.Advances t.graph) (h.sound.intact.indexed.of_frame ha.frame) hn' hb ?_
    fun _ _ => ha
  intro p pin hp hpin htype
  rw [valuePin?_of_frame ha.frame] at hp
  obtain ⟨honward, hsettled⟩ := ha.withValue h.sound hpin htype (.inr ⟨k, hpure, hp, hv p hp⟩)
  refine ⟨honward, fun q hq => ?_⟩
  rw [hp] at hq
  cases hq
  exact hsettled

/-- What a body reads from a settled input is what the source of the input means. -/
theorem Built.read_settled (h : g.Built) (ha : g.Advances s.graph)
    (hin : ∀ i p, g.valuePin? k .input i = some p → g.Settled s.graph p) {i : Nat} {p : PinId}
    {pin : Pin} (hp : (s.running k).graph.valuePin? k .input i = some p)
    (hpin : (s.running k).graph.pins.get? p = some pin) :
    ∃ src, g.operand? k i = some src ∧ g.Means src pin.value := by
  have hp : g.valuePin? k .input i = some p := by
    rw [← valuePin?_of_frame ha.frame, ← hp]
    exact (valuePin?_setBehavior k none s.graph k .input i).symm
  obtain ⟨-, pin₀, -, -, hpin₀, -, hd, -⟩ := h.sound.intact.valuePin? hp
  obtain ⟨src, hsrc, hmeans⟩ := (hin i p hp).input h.sound hpin₀ hd hpin
  exact ⟨src, operand?_eq_some.mpr ⟨p, hp, hsrc⟩, hmeans⟩

/-- The body of a pure node whose inputs are settled settles its output. -/
theorem Built.runNode_settles (h : g.Built) (ha : g.Advances s.graph) (hpure : g.isPure k = true)
    (hin : ∀ i p, g.valuePin? k .input i = some p → g.Settled s.graph p) :
    (runNode k).Ends s
      (fun _ t => g.Onward s.graph t.graph ∧
        ∀ p, g.valuePin? k .output 0 = some p → g.Settled t.graph p)
      fun _ t => g.Advances t.graph := by
  obtain ⟨n, b, hn, hb, hkind⟩ := h.pure_cases hpure
  have hn' : s.graph.nodes.get? k = some n := by
    rw [nodes_of_frame ha.frame]
    exact hn
  have hback : g.Advances ((s.running k).back k b).graph := by
    rw [Session.back_running (h.sound.intact.indexed.of_frame ha.frame) hn' hb]
    exact ha
  rw [runNode_ends hn' hb]
  -- Every kind ends with writing what its output means.
  rcases hkind with ⟨x, rfl⟩ | ⟨op, rfl⟩ | ⟨q, rfl⟩
  · exact h.writeOutput_settles ha hpure hn hb fun p hp => .constant hp hn hb
  · simp only [Behavior.body, ends_bind]
    refine readFloat_ends (fun p pin x hp hpin hx => ?_) fun _ _ => hback
    refine readFloat_ends (fun p' pin' y hp' hpin' hy => ?_) fun _ _ => hback
    obtain ⟨a, ha', hmx⟩ := h.read_settled ha hin hp hpin
    obtain ⟨c, hc, hmy⟩ := h.read_settled ha hin hp' hpin'
    rw [hx] at hmx
    rw [hy] at hmy
    cases op with
    | add => exact h.writeOutput_settles ha hpure hn hb fun r hr => .sum hr hn hb ha' hc hmx hmy
    | multiply =>
      exact h.writeOutput_settles ha hpure hn hb fun r hr => .product hr hn hb ha' hc hmx hmy
  · simp only [Behavior.body, ends_bind]
    refine propertyOf_ends (fun q' v hq hv => ?_) fun _ => hback
    subst hq
    refine h.writeOutput_settles ha hpure hn hb fun p hp => .property hp hn hb ?_
    have hprops : (s.running k).graph.propertyValue? q' = g.propertyValue? q' := by
      unfold propertyValue?
      exact congrArg (fun t => (t.get? q').map (·.value)) ha.properties
    rw [← hprops]
    exact hv

/-- What a pull does that evaluates a pure node for a consumer. -/
def PullSettles (g : Graph) (pull : NodeId → Eval Unit) : Prop :=
  ∀ m s, g.Advances s.graph → g.isPure m = true →
    (pull m).Ends s
      (fun _ t => g.Onward s.graph t.graph ∧
        ∀ p, g.valuePin? m .output 0 = some p → g.Settled t.graph p)
      fun _ t => g.Advances t.graph

/-- Refreshing an input settles it. -/
theorem Built.refreshInput_settles (h : g.Built) {pull : NodeId → Eval Unit}
    (hpull : g.PullSettles pull) (ha : g.Advances s.graph) {i : PinId} {pin : Pin}
    (hp : g.pins.get? i = some pin) :
    (refreshInput pull k i).Ends s
      (fun _ t => g.Onward s.graph t.graph ∧ (pin.isFlow = false → g.Settled t.graph i))
      fun _ t => g.Advances t.graph := by
  have hi := h.sound.intact
  -- Copying from a source that holds what it means settles the input.
  have hcopy : ∀ t : Session, g.Advances t.graph → ∀ src, g.feedingPin? i = some src →
      (∀ r, t.graph.pins.get? src = some r → g.Means src r.value) →
      (attempt k (copyPin src i)).Ends t
        (fun _ u => g.Onward t.graph u.graph ∧ (pin.isFlow = false → g.Settled u.graph i))
        fun _ u => g.Advances u.graph := by
    intro t ht src hsrc hmeans
    refine hi.copyPin_ends ht.frame hsrc fun pin' r hp' hr htype => ?_
    obtain ⟨honward, hsettled⟩ :=
      ht.withValue h.sound hp' htype (.inl ⟨src, hsrc, hmeans r hr⟩)
    exact ⟨honward, fun _ => hsettled⟩
  refine hi.refreshInput_ends ha.frame hp ?_ ?_ ?_ ?_
  · intro hf
    refine ⟨.refl ha, fun hno => ?_⟩
    rw [hf] at hno
    cases hno
  · intro _ _
    exact ha
  · intro src q _ hsrc hq hd hvalue hpure
    refine (hpull q.node s ha hpure).mono ?_ fun _ _ he => he
    intro _ t hpulled
    obtain ⟨honward, hsettled⟩ := hpulled
    have hout := hsettled src (h.pure_output hq hd hvalue hpure)
    have hmeans : ∀ r, t.graph.pins.get? src = some r → g.Means src r.value :=
      fun r hr => hout.output h.sound hq hd hr
    refine (hcopy t honward.advances src hsrc hmeans).mono ?_ fun _ _ he => he
    intro _ u hcopied
    exact ⟨honward.trans hcopied.1, hcopied.2⟩
  · intro src q _ hsrc hq hd hpure
    refine hcopy s ha src hsrc fun r hr => ?_
    obtain ⟨n, hn, -⟩ := hi.owned hq
    have hflow : n.flow = true := by
      by_contra hno
      have hpure' : g.isPure q.node = true := isPure_iff.mpr ⟨n, hn, by simpa using hno⟩
      rw [hpure] at hpure'
      cases hpure'
    rw [ha.stored hq hd hn hflow] at hr
    cases hr
    exact .stored hq hd hn hflow

/-- Refreshing the inputs of a node settles them all. -/
theorem Built.refreshInputsWith_settles (h : g.Built) {pull : NodeId → Eval Unit}
    (hpull : g.PullSettles pull) (ha : g.Advances s.graph) (k : NodeId) :
    (refreshInputsWith pull k).Ends s
      (fun _ t => g.Onward s.graph t.graph ∧ ∀ n, g.nodes.get? k = some n → ∀ i ∈ n.inputs,
        ∀ pin, g.pins.get? i = some pin → pin.isFlow = false → g.Settled t.graph i)
      fun _ t => g.Advances t.graph := by
  simp only [refreshInputsWith, ends_bind, ends_graph]
  rw [nodes_of_frame ha.frame]
  cases hn : g.nodes.get? k with
  | none => exact ha
  | some n =>
    refine (ends_forM (I := fun done t => g.Onward s.graph t.graph ∧ ∀ i ∈ done,
      ∀ pin, g.pins.get? i = some pin → pin.isFlow = false → g.Settled t.graph i) n.inputs
      ⟨.refl ha, by simp⟩ ?_).mono ?_ fun _ _ he => he
    · intro done i t hdone hinv
      obtain ⟨honward, hsettled⟩ := hinv
      have hmem : i ∈ n.pinsOf .input := hdone.subset (by simp)
      obtain ⟨pin, hpin, -⟩ := h.sound.intact.listed hn hmem
      refine (h.refreshInput_settles hpull honward.advances hpin).mono ?_ fun _ _ he => he
      rintro _ u ⟨honward', hi⟩
      refine ⟨honward.trans honward', fun j hj pin' hpin' hf => ?_⟩
      rcases List.mem_append.mp hj with hj | hj
      · exact honward'.settled (hsettled j hj pin' hpin' hf)
      · rw [List.mem_singleton.mp hj] at hpin' ⊢
        rw [hpin] at hpin'
        cases hpin'
        exact hi hf
    · rintro _ t ⟨honward, hsettled⟩
      refine ⟨honward, fun m hm => ?_⟩
      cases hm
      exact hsettled

/-- A pull settles the output of its node, however deep it goes. -/
theorem Built.pull_settles (h : g.Built) (depth : Nat) : g.PullSettles (pull depth) := by
  induction depth with
  | zero => exact fun _ _ ha _ => ha
  | succ depth ih =>
    intro m s ha hpure
    simp only [pull, ends_bind, ends_evaluator]
    split
    · exact ha
    · simp only [ends_updateEvaluator, ends_bind, ends_andFinally, evaluateWith]
      refine (h.refreshInputsWith_settles (s := ⟨beginPull m s.evaluator, s.graph⟩) ih ha m).mono ?_
        fun _ _ he => he
      rintro _ t ⟨honward, hsettled⟩
      have hin : ∀ i p, g.valuePin? m .input i = some p → g.Settled t.graph p := by
        intro i p hp
        obtain ⟨n, pin, hn, hmem, hpin, -, -, hf⟩ := h.sound.intact.valuePin? hp
        exact hsettled n hn p hmem pin hpin hf
      refine (h.runNode_settles honward.advances hpure hin).mono ?_ fun _ _ he => he
      rintro _ u ⟨honward', hout⟩
      exact ⟨honward.trans honward', hout⟩

/-! ## What refreshing computes -/

/-- Every node is of a built-in kind. -/
def allBuiltin (g : Graph) : Bool := g.nodes.values.all fun n => n.behavior.all Behavior.isBuiltin

theorem isBuiltin_of_allBuiltin (h : g.allBuiltin = true) {k : NodeId} {n : Node} {b : Behavior}
    (hn : g.nodes.get? k = some n) (hb : n.behavior = some b) : b.isBuiltin = true := by
  have hall := List.all_eq_true.mp h n (Table.mem_values_of_get? hn)
  rwa [hb] at hall

theorem Reaches.built {name : String} {registry : Registry}
    (h : (Graph.new name registry).Reaches g) (hb : g.allBuiltin = true) : g.Built where
  sound := h.sound (.new name registry)
  laid := h.laid
  builtin := isBuiltin_of_allBuiltin hb

theorem Pin.eq_of_blank {p q : Pin} (h : p.blank = q.blank) : q = { p with value := q.value } := by
  obtain ⟨hid, hname, hd, hnode, hlinks, -⟩ := Pin.blank_eq_blank h
  cases p
  cases q
  simp_all

/-- Refreshing the inputs of a node of a graph that was built of built-in nodes, where it succeeds,
    puts into each value input the one value that its source means by the graph as it was; and
    whether or not it succeeds, it changes no property and no output of a flow node. -/
theorem refreshInputs_computes_meaning {name : String} {registry : Registry}
    (hrun : (Graph.new name registry).Reaches g) (hbuiltin : g.allBuiltin = true) (e : Evaluator)
    (k : NodeId) :
    ((refreshInputs k ⟨e, g⟩).answer = .ok () →
      ∀ n, g.nodes.get? k = some n → ∀ i ∈ n.inputs, ∀ pin, g.pins.get? i = some pin →
        pin.isFlow = false →
        ∃ src v, g.feedingPin? i = some src ∧ (∀ w, g.Means src w ↔ w = v) ∧
          (refreshInputs k ⟨e, g⟩).session.graph.pins.get? i = some { pin with value := v }) ∧
    (refreshInputs k ⟨e, g⟩).session.graph.properties = g.properties ∧
    ∀ p pin n, g.pins.get? p = some pin → pin.direction = .output →
      g.nodes.get? pin.node = some n → n.flow = true →
      (refreshInputs k ⟨e, g⟩).session.graph.pins.get? p = some pin := by
  have h := hrun.built hbuiltin
  have hends := h.refreshInputsWith_settles (s := ⟨e, g⟩) (h.pull_settles (pullDepth g))
    (.refl g) k
  have hadvances : g.Advances (refreshInputs k ⟨e, g⟩).session.graph := by
    cases ha : (refreshInputs k ⟨e, g⟩).answer with
    | ok _ => exact (hends.ok ha).1.advances
    | error stop => exact hends.error ha
  refine ⟨?_, hadvances.properties, fun p pin n hp hd hn hflow => hadvances.stored hp hd hn hflow⟩
  intro ha n hn i hi pin hp hf
  obtain ⟨pin', hp', hdue⟩ := (hends.ok ha).2 n hn i hi pin hp hf
  obtain ⟨pin₀, hp₀, hd⟩ := h.sound.intact.listed hn (d := .input) hi
  rw [hp] at hp₀
  cases hp₀
  obtain ⟨src, hsrc, hmeans⟩ := Settled.input h.sound ⟨pin', hp', hdue⟩ hp hd.2 hp'
  refine ⟨src, pin'.value, hsrc, fun w => ⟨fun hw => hmeans.unique h.sound hw, ?_⟩, ?_⟩
  · rintro rfl
    exact hmeans
  · obtain ⟨pin₁, hp₁, heq⟩ := pin_of_frame hadvances.frame hp'
    rw [hp] at hp₁
    cases hp₁
    exact hp'.trans (congrArg some (Pin.eq_of_blank heq.symm))

/-- A constant that feeds both inputs of a sum, which feeds a log node. -/
def doubling : Graph :=
  (Command.performAll
    [.addNode (.floatConstant 2), .addNode (.arithmetic .add), .createLink ⟨2⟩ ⟨4⟩,
      .createLink ⟨2⟩ ⟨5⟩, .addNode (.logValue "sum"), .createLink ⟨6⟩ ⟨12⟩]
    (Graph.new "doubling" .builtin)).graph

theorem doubling_reached : (Graph.new "doubling" .builtin).Reaches doubling :=
  ⟨⟨_, rfl⟩, by decide +kernel⟩

/-- The sum of `doubling` times the constant, which is logged instead of the sum. -/
def scaling : Graph :=
  (Command.performAll
    [.addNode (.arithmetic .multiply), .createLink ⟨6⟩ ⟨16⟩, .createLink ⟨2⟩ ⟨17⟩,
      .createLink ⟨18⟩ ⟨12⟩]
    doubling).graph

theorem scaling_reached : (Graph.new "doubling" .builtin).Reaches scaling :=
  doubling_reached.performAll (by decide +kernel)

theorem scaling_product_reaches_log : ∃ pin : Pin,
    (refreshInputs ⟨9⟩ ⟨{}, scaling⟩).session.graph.pins.get? ⟨12⟩ =
      some { pin with value := .float ((2 + 2) * 2) } := by
  have hconstant : scaling.Means ⟨2⟩ (.float 2) := .constant (k := ⟨1⟩) rfl rfl rfl
  have hsum : scaling.Means ⟨6⟩ (.float (2 + 2)) :=
    .sum (k := ⟨3⟩) rfl rfl rfl rfl rfl hconstant hconstant
  have hproduct : scaling.Means ⟨18⟩ (.float ((2 + 2) * 2)) :=
    .product (k := ⟨15⟩) rfl rfl rfl rfl rfl hsum hconstant
  have hsrc : scaling.feedingPin? ⟨12⟩ = some ⟨18⟩ := by decide +kernel
  obtain ⟨n, hn⟩ : ∃ n, scaling.nodes.get? ⟨9⟩ = some n := ⟨_, rfl⟩
  obtain ⟨pin, hp⟩ : ∃ pin, scaling.pins.get? ⟨12⟩ = some pin := ⟨_, rfl⟩
  have hi : (scaling.nodes.get? ⟨9⟩).all (fun n => (⟨12⟩ : PinId) ∈ n.inputs) = true := by
    decide +kernel
  have hf : (scaling.pins.get? ⟨12⟩).all (!·.isFlow) = true := by decide +kernel
  rw [hn] at hi
  rw [hp] at hf
  obtain ⟨src, v, hfed, hv, hheld⟩ :=
    (refreshInputs_computes_meaning scaling_reached (by decide +kernel) {} ⟨9⟩).1
      (eq_ok_of_isOk (by decide +kernel)) n hn ⟨12⟩ (by simpa using hi) pin hp (by simpa using hf)
  rw [hsrc] at hfed
  cases hfed
  rw [← (hv _).mp hproduct] at hheld
  exact ⟨pin, hheld⟩

end Graph

end FlowGraph
