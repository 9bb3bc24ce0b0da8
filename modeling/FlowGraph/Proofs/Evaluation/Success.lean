import FlowGraph.Proofs.Evaluation.Declared
import FlowGraph.Proofs.Evaluation.Pulls

/-!
# When an evaluation succeeds

A node can be evaluated exactly if nothing it needs is on a cycle of pure nodes, unlinked or
unbound.  Both directions come from following the pulls once: a pull that answers shows its node
to be `Graph.Ready`, and one that fails names a node that is to blame (`Graph.Explains`).

A pull is refused for a node that is being resolved already.  Every node on that list needs the
node that is pulled now, so a refusal is never a false alarm; and the list has no repetition, so
the depth of the pulls is never used up.
-/

namespace FlowGraph

open Eval

namespace Graph

variable {g : Graph} {s : Session} {k m : NodeId}

/-- A value input of the first node is linked to a pin of the second, which is pure. -/
def DependsOn (g : Graph) (m m' : NodeId) : Prop :=
  ∃ n i pin src q, g.nodes.get? m = some n ∧ i ∈ n.inputs ∧ g.pins.get? i = some pin ∧
    pin.isFlow = false ∧ g.feedingPin? i = some src ∧ g.pins.get? src = some q ∧ q.node = m' ∧
    g.isPure m' = true

/-- The node itself and the pure nodes behind it. -/
def Needs (g : Graph) : NodeId → NodeId → Prop := Relation.ReflTransGen g.DependsOn

/-- Every value input of the node is linked. -/
def Linked (g : Graph) (m : NodeId) : Prop :=
  ∀ n, g.nodes.get? m = some n → ∀ i ∈ n.inputs, ∀ pin, g.pins.get? i = some pin →
    pin.isFlow = false → pin.isConnected = true

/-- The node can be evaluated: it is linked and bound, and so is everything it depends on. -/
inductive Ready (g : Graph) : NodeId → Prop where
  | intro {m : NodeId} (linked : g.Linked m) (bound : ¬ g.Unbound m)
      (sources : ∀ m', g.DependsOn m m' → Ready g m') : Ready g m

/-- The failure is one of a node that is needed: the node is on a cycle, has an unlinked value input
    of the given name, or is an unbound variable. -/
def Explains (g : Graph) (k : NodeId) : Stop → Prop
  | .failed (.infiniteLoop m _) => g.Needs k m ∧ Relation.TransGen g.DependsOn m m
  | .failed (.missingInput m input) => g.Needs k m ∧
      ((∃ n i pin, g.nodes.get? m = some n ∧ i ∈ n.inputs ∧ g.pins.get? i = some pin ∧
        pin.isFlow = false ∧ pin.isConnected = false ∧ pin.name = input) ∨
      (g.Unbound m ∧ input = "property"))
  | _ => False

/-! ## Being ready -/

theorem Ready.not_cyclic (h : g.Ready m) : ¬ Relation.TransGen g.DependsOn m m := by
  induction h with
  | @intro m _ _ sources ih =>
    intro hcycle
    -- The next node on the cycle is on it too.
    obtain ⟨c, hc, hback⟩ := Relation.TransGen.head'_iff.mp hcycle
    exact ih c hc (Relation.TransGen.tail' hback hc)

theorem Ready.needs (h : g.Ready k) (hm : g.Needs k m) : g.Ready m := by
  induction hm with
  | refl => exact h
  | tail _ hdep ih =>
    cases ih with
    | intro _ _ sources => exact sources _ hdep

/-! ## Bodies -/

section Running

variable {i : Nat} {type : ValueType} {E : Stop → Session → Prop}

theorem readInput_running {Q : Value → Session → Prop}
    (h : ∃ p pin, s.graph.valuePin? m .input i = some p ∧ s.graph.pins.get? p = some pin ∧
      pin.type = type) (hq : ∀ v : Value, v.type = type → Q v (s.running m)) :
    (readInput m i).Ends (s.running m) Q E := by
  obtain ⟨p, pin, hp, hpin, htype⟩ := h
  rw [← valuePin?_setBehavior m none] at hp
  refine readInput_ends (fun p' pin' hp' hpin' => ?_) fun hno => absurd hpin (hno p pin hp)
  have heq : p' = p := Option.some.inj (hp'.symm.trans hp)
  subst heq
  have heq : pin' = pin := Option.some.inj (hpin'.symm.trans hpin)
  subst heq
  exact hq _ htype

theorem readFloat_running {Q : Float32 → Session → Prop}
    (h : ∃ p pin, s.graph.valuePin? m .input i = some p ∧ s.graph.pins.get? p = some pin ∧
      pin.type = .float) (hq : ∀ x, Q x (s.running m)) :
    (readFloat m i).Ends (s.running m) Q E := by
  obtain ⟨p, pin, hp, hpin, htype⟩ := h
  rw [← valuePin?_setBehavior m none] at hp
  exact readFloat_ends (fun _ _ x _ _ _ => hq x) fun hno => absurd htype (hno p pin hp hpin)

theorem writeOutput_running {P : Prop} {E : Stop → Prop} (hs : s.graph.Indexed) {n : Node}
    {b : Behavior} (hn : s.graph.nodes.get? m = some n) (hb : n.behavior = some b) {v : Value}
    (h : ∃ p pin, s.graph.valuePin? m .output i = some p ∧ s.graph.pins.get? p = some pin ∧
      pin.type = v.type) (hp : P) :
    (writeOutput m i v).Ends (s.running m) (fun _ _ => P) fun stop _ => E stop := by
  obtain ⟨p, pin, hpin?, hpin, htype⟩ := h
  refine writeOutput_ends (Q := fun _ _ => P) (E := fun stop _ => E stop) hs hn hb
    (fun _ _ _ _ _ => hp) fun hno => absurd htype.symm (hno p pin hpin? hpin)

theorem propertyOf_running (hs : s.graph.frame = g.frame) {q : PropertyId} {v : Value}
    (hv : g.propertyValue? q = some v) {Q : Value → Session → Prop}
    (hq : ∀ w : Value, w.type = v.type → Q w (s.running m)) :
    (propertyOf m (some q)).Ends (s.running m) Q E := by
  have htype : (s.graph.propertyValue? q).map Value.type = some v.type := by
    show s.graph.typeOf? q = some v.type
    rw [typeOf?_of_frame hs, typeOf?, hv]
    rfl
  obtain ⟨w, hw, hwtype⟩ := Option.map_eq_some_iff.mp htype
  refine propertyOf_ends (fun q' w' hq' hw' => ?_) fun hnone => ?_
  · cases hq'
    have heq : w' = w := Option.some.inj (Eq.trans (Eq.symm hw') hw)
    rw [heq]
    exact hq w hwtype
  · have hnone : s.graph.propertyValue? q = none := hnone
    rw [hnone] at hw
    cases hw

/-- Writing to a property changes the contents of the graph around the body. -/
theorem setProperty_running (hg : g.Indexed) (hs : s.graph.frame = g.frame) {q : PropertyId}
    {v w : Value} (hv : g.propertyValue? q = some v) (hw : w.type = v.type)
    {Q : Unit → Session → Prop}
    (hq : ∀ t : Session, t.graph.frame = g.frame → Q () (t.running m)) :
    (attempt m (Graph.setProperty q w)).Ends (s.running m) Q E := by
  have htype : (s.graph.propertyValue? q).map Value.type = some v.type := by
    show s.graph.typeOf? q = some v.type
    rw [typeOf?_of_frame hs, typeOf?, hv]
    rfl
  obtain ⟨x, hx, hxtype⟩ := Option.map_eq_some_iff.mp htype
  obtain ⟨p, hp, rfl⟩ := Option.map_eq_some_iff.mp hx
  have hframe := hq ⟨s.evaluator, (Graph.setProperty q w s.graph).graph⟩
    ((setProperty_frame (hg.of_frame hs) q w).trans hs)
  refine ends_attempt.mpr ?_
  rcases setProperty_cases q w (s.running m).graph with ⟨_, -, hne⟩ | ⟨_, -, -, _, rfl, hset⟩
  · exact absurd (hw.trans hxtype.symm) (hne p hp)
  · rcases setProperty_cases q w s.graph with ⟨_, -, hne⟩ | ⟨_, -, -, _, rfl, hset'⟩
    · exact absurd (hw.trans hxtype.symm) (hne p hp)
    · rw [hset'] at hframe
      rw [hset]
      exact hframe

end Running

/-- No property is of the flow type. -/
def flowless (g : Graph) : Bool := g.properties.values.all fun p => !p.value.isFlow

theorem not_isFlow_of_flowless (h : g.flowless = true) {q : PropertyId} {v : Value}
    (hv : g.propertyValue? q = some v) : v.type.isFlow = false := by
  obtain ⟨p, hp, rfl⟩ := Option.map_eq_some_iff.mp hv
  have hall : (!p.value.isFlow) = true := List.all_eq_true.mp h p (Table.mem_values_of_get? hp)
  show p.value.isFlow = false
  simpa using hall

theorem propertyValue?_eq_none {q : PropertyId} :
    g.propertyValue? q = none ↔ q ∉ g.properties.keys := by
  rw [propertyValue?, Option.map_eq_none_iff]
  exact ⟨Table.not_mem_keys_of_none, Table.get?_eq_none⟩

/-- A variable that is not unbound reads a property that is there, whose type it cannot change. -/
theorem bound_property {n : Node} {p : Option PropertyId} (hn : g.nodes.get? m = some n)
    (hb : n.behavior = some (.getVariable p) ∨ n.behavior = some (.setVariable p))
    (hbound : ¬ g.Unbound m) : ∃ q v, p = some q ∧ g.propertyValue? q = some v := by
  by_contra hno
  refine hbound ⟨n, p, hn, hb, fun q hq hkey => ?_⟩
  cases hv : g.propertyValue? q with
  | none => exact propertyValue?_eq_none.mp hv hkey
  | some v => exact hno ⟨q, v, hq, hv⟩

/-- A variable writes to its property if this exists, which no evaluation changes. -/
theorem filter_properties {t : Graph} (ht : t.frame = g.frame) (p : Option PropertyId) :
    p.filter t.properties.contains = p.filter fun q => decide (q ∈ g.properties.keys) := by
  refine congrArg p.filter (funext fun q => ?_)
  rw [← property_keys_of_frame ht, Bool.eq_iff_iff, decide_eq_true_iff]
  exact (Table.mem_keys_iff _ _).symm

/-- The body of an unbound variable asks for the property. -/
theorem Unbound.runNode (hs : s.graph.frame = g.frame) (hbound : g.Unbound m) :
    (runNode m).Ends s (fun _ _ => False) fun stop _ =>
      stop = .failed (.missingInput m "property") := by
  obtain ⟨n, p, hn, hkind, hp⟩ := hbound
  have hn' : s.graph.nodes.get? m = some n := by
    rw [nodes_of_frame hs]
    exact hn
  have hmissing : ∀ q, p = some q → q ∉ s.graph.properties.keys := fun q hq => by
    rw [property_keys_of_frame hs]
    exact hp q hq
  rcases hkind with hb | hb
  · rw [runNode_ends hn' hb]
    simp only [Behavior.body, ends_bind]
    refine propertyOf_ends (fun q v hq hv => ?_) fun _ => rfl
    have hnone : s.graph.propertyValue? q = none := propertyValue?_eq_none.mpr (hmissing q hq)
    have hv' : s.graph.propertyValue? q = some v := hv
    rw [hnone] at hv'
    cases hv'
  · have hfilter : p.filter (s.running m).graph.properties.contains = none := by
      rw [show p.filter (s.running m).graph.properties.contains = _ from filter_properties hs p]
      exact Option.filter_eq_none_iff.mpr fun q hq => by simpa using hp q hq
    rw [runNode_ends hn' hb]
    simp only [Behavior.body, ends_bind, ends_graph, hfilter, ends_fail]

/-- The value pins of a bound variable that is written. -/
theorem setVariable_values {valueOf : PropertyId → Option Value} {q : PropertyId} {v : Value}
    (hv : valueOf q = some v) (hflow : v.type.isFlow = false) (d : Direction) :
    ((formsOf ((Behavior.setVariable (some q)).layout valueOf) d).filter fun f => !f.2.isFlow) =
      [("Value", v.type)] := by
  simp only [Behavior.layout, Option.bind_some, hv]
  have hforms : formsOf [.flow .input, .flow .output, .input "Value" v, .output "Value" v] d =
      [("Exec", .flow), ("Value", v.type)] := by cases d <;> rfl
  rw [hforms, List.filter_cons_of_neg (by decide), List.filter_cons_of_pos (by simp [hflow])]
  rfl

/-- The body of a node that has its pins, and its property if it is a variable, does not fail. -/
theorem Built.runNode_answers (h : g.Built) (hflow : g.flowless = true)
    (hs : s.graph.frame = g.frame) (hm : m ∈ g.nodes.keys) (hbound : ¬ g.Unbound m)
    (hall : g.HasDeclaredPins m) :
    (runNode m).Ends s (fun _ _ => True) fun _ _ => False := by
  obtain ⟨n, hn⟩ := Table.mem_keys.mp hm
  obtain ⟨b, hb, -⟩ := h.sound.staffed.staff hn
  have hbuiltin := h.builtin hn hb
  have hindexed := h.sound.intact.indexed.of_frame hs
  have hnode : ∀ {t : Graph}, t.frame = g.frame → t.nodes.get? m = some n := fun ht => by
    rw [nodes_of_frame ht]
    exact hn
  -- The pins a body counts to are there in every state of the evaluation.
  have hpin : ∀ {t : Graph}, t.frame = g.frame → ∀ d i name type,
      ((formsOf (b.layout g.propertyValue?) d).filter fun f => !f.2.isFlow)[i]? =
        some (name, type) →
      ∃ p pin, t.valuePin? m d i = some p ∧ t.pins.get? p = some pin ∧ pin.type = type := by
    intro t ht d i name type hform
    exact h.typed_value hn hb hbound hall ht hform
  have hvalue : ∀ {q v}, g.propertyValue? q = some v → v.type.isFlow = false :=
    fun hv => not_isFlow_of_flowless hflow hv
  rw [runNode_ends (hnode hs) hb]
  cases b with
  | eventBegin => exact True.intro
  | logValue label =>
    simp only [Behavior.body, ends_bind, ends_report]
    refine readFloat_running (hpin hs .input 0 "Value" .float rfl) fun x => ?_
    exact writeOutput_running hindexed (hnode hs) hb (hpin hs .output 0 "Value" .float rfl)
      True.intro
  | floatConstant x =>
    exact writeOutput_running hindexed (hnode hs) hb (hpin hs .output 0 "Value" .float rfl)
      True.intro
  | arithmetic op =>
    simp only [Behavior.body, ends_bind]
    refine readFloat_running (hpin hs .input 0 "A" .float rfl) fun x => ?_
    refine readFloat_running (hpin hs .input 1 "B" .float rfl) fun y => ?_
    exact writeOutput_running hindexed (hnode hs) hb (hpin hs .output 0 "Result" .float rfl)
      True.intro
  | getVariable p =>
    obtain ⟨q, v, rfl, hv⟩ := bound_property hn (.inl hb) hbound
    simp only [Behavior.body, ends_bind]
    refine propertyOf_running hs hv fun w hw => ?_
    refine writeOutput_running hindexed (hnode hs) hb ?_ True.intro
    refine hpin hs .output 0 "Value" w.type ?_
    simp [Behavior.layout, formsOf, hv, PinSpec.output, hvalue hv, hw]
  | setVariable p =>
    obtain ⟨q, v, rfl, hv⟩ := bound_property hn (.inr hb) hbound
    have hfilter : (some q).filter (s.running m).graph.properties.contains = some q := by
      have hkey : q ∈ g.properties.keys := Decidable.of_not_not fun hno => by
        rw [propertyValue?_eq_none.mpr hno] at hv
        cases hv
      rw [show (some q).filter (s.running m).graph.properties.contains = _ from
        filter_properties hs (some q)]
      exact Option.filter_some_pos (decide_eq_true hkey)
    simp only [Behavior.body, ends_bind, ends_graph, hfilter, ends_pure]
    have hvalues := setVariable_values hv (hvalue hv)
    refine readInput_running (hpin hs .input 0 "Value" v.type ?_) fun w hw => ?_
    · rw [hvalues]
      rfl
    · refine setProperty_running h.sound.intact.indexed hs hv hw fun t ht => ?_
      refine propertyOf_running ht hv fun u hu => ?_
      have htindexed := h.sound.intact.indexed.of_frame ht
      refine writeOutput_running htindexed (hnode ht) hb ?_ True.intro
      refine hpin ht .output 0 "Value" u.type ?_
      rw [hvalues, hu]
      rfl
  | scripted script => cases hbuiltin

/-! ## Pulls -/

/-- The session of an evaluation of the graph, while the given nodes are being resolved. -/
def Amid (g : Graph) (busy : List NodeId) (s : Session) : Prop := s.Framed g ∧ s.Resolving busy

/-- Pulling a pure node that is needed shows that it is ready, or finds a node to blame.  The nodes
    being resolved all wait for the node that is pulled. -/
def PullAnswers (g : Graph) (k : NodeId) (busy : List NodeId) (pull : NodeId → Eval Unit) : Prop :=
  ∀ m s, g.Amid busy s → g.isPure m = true → g.Needs k m →
    (∀ x ∈ busy, Relation.TransGen g.DependsOn x m) →
    (pull m).Ends s (fun _ t => g.Ready m ∧ g.Amid busy t) fun stop _ => g.Explains k stop

variable {busy : List NodeId}

/-- An input that is refreshed is linked, and the pure node behind it is ready. -/
theorem Built.refreshInput_answers (h : g.Built) {pull : NodeId → Eval Unit}
    (hpull : g.PullAnswers k busy pull) (hs : g.Amid busy s) (hneeds : g.Needs k m)
    (hbusy : ∀ x ∈ busy, Relation.ReflTransGen g.DependsOn x m) {n : Node}
    (hn : g.nodes.get? m = some n) {i : PinId} (hi : i ∈ n.inputs) {pin : Pin}
    (hp : g.pins.get? i = some pin) (hd : pin.direction = .input) :
    (refreshInput pull m i).Ends s
      (fun _ t => (pin.isFlow = false → pin.isConnected = true ∧ ∀ src q,
        g.feedingPin? i = some src → g.pins.get? src = some q → g.isPure q.node = true →
        g.Ready q.node) ∧ g.Amid busy t)
      fun stop _ => g.Explains k stop := by
  have hintact := h.sound.intact
  have hcopy : ∀ t src, g.Amid busy t → g.feedingPin? i = some src →
      (attempt m (copyPin src i)).Ends t (fun _ u => g.Amid busy u)
        fun stop _ => g.Explains k stop := by
    intro t src ht hsrc
    refine hintact.copyPin_ends ht.1 hsrc fun pin' r hp' _ htype => ?_
    exact ⟨(withValue_frame (hintact.indexed.of_frame ht.1) hp' htype).trans ht.1, ht.2⟩
  have hlinked : ∀ src, g.feedingPin? i = some src → pin.isConnected = true :=
    fun src hsrc => (hintact.feedingPin?_isSome hp hd).mp ⟨src, hsrc⟩
  refine hintact.refreshInput_ends hs.1 hp ?_ ?_ ?_ ?_
  · intro hf
    refine ⟨fun hno => ?_, hs⟩
    rw [hf] at hno
    cases hno
  · intro hf hsrc
    have hunlinked : pin.isConnected = false := by
      by_contra hc
      obtain ⟨src, hsrc'⟩ := (hintact.feedingPin?_isSome hp hd).mpr (by simpa using hc)
      rw [hsrc] at hsrc'
      cases hsrc'
    exact ⟨hneeds, .inl ⟨n, i, pin, hn, hi, hp, hf, hunlinked, rfl⟩⟩
  · intro src q hf hsrc hq _ _ hpure
    have hdep : g.DependsOn m q.node := ⟨n, i, pin, src, q, hn, hi, hp, hf, hsrc, hq, rfl, hpure⟩
    have hwaiting : ∀ x ∈ busy, Relation.TransGen g.DependsOn x q.node :=
      fun x hx => .tail' (hbusy x hx) hdep
    refine (hpull q.node s hs hpure (hneeds.tail hdep) hwaiting).mono ?_ fun _ _ he => he
    intro _ t hpulled
    obtain ⟨hready, ht⟩ := hpulled
    refine (hcopy t src ht hsrc).mono ?_ fun _ _ he => he
    intro _ u hu
    refine ⟨fun _ => ⟨hlinked src hsrc, fun src' q' hsrc' hq' _ => ?_⟩, hu⟩
    cases Option.some.inj (hsrc.symm.trans hsrc')
    cases Option.some.inj (hq.symm.trans hq')
    exact hready
  · intro src q _ hsrc hq _ hpure
    refine (hcopy s src hs hsrc).mono ?_ fun _ _ he => he
    intro _ u hu
    refine ⟨fun _ => ⟨hlinked src hsrc, fun src' q' hsrc' hq' hpure' => ?_⟩, hu⟩
    cases Option.some.inj (hsrc.symm.trans hsrc')
    cases Option.some.inj (hq.symm.trans hq')
    rw [hpure] at hpure'
    cases hpure'

/-- A node whose inputs could be refreshed is linked, and all it depends on is ready. -/
theorem Built.refreshInputsWith_answers (h : g.Built) {pull : NodeId → Eval Unit}
    (hpull : g.PullAnswers k busy pull) (hs : g.Amid busy s) (hm : m ∈ g.nodes.keys)
    (hneeds : g.Needs k m) (hbusy : ∀ x ∈ busy, Relation.ReflTransGen g.DependsOn x m) :
    (refreshInputsWith pull m).Ends s
      (fun _ t => (g.Linked m ∧ ∀ m', g.DependsOn m m' → g.Ready m') ∧ g.Amid busy t)
      fun stop _ => g.Explains k stop := by
  obtain ⟨n, hn⟩ := Table.mem_keys.mp hm
  simp only [refreshInputsWith, ends_bind, ends_graph, nodes_of_frame hs.1, hn]
  -- The inputs that were looked at are linked, and what is behind them is ready.
  refine (ends_forM (I := fun done t => (∀ i ∈ done, ∀ pin, g.pins.get? i = some pin →
    pin.isFlow = false → pin.isConnected = true ∧ ∀ src q, g.feedingPin? i = some src →
      g.pins.get? src = some q → g.isPure q.node = true → g.Ready q.node) ∧ g.Amid busy t) n.inputs
    ⟨fun _ hi => (nomatch hi), hs⟩ ?_).mono ?_ fun _ _ he => he
  · intro done i t hdone hinv
    obtain ⟨hall, ht⟩ := hinv
    have hi : i ∈ n.pinsOf .input := hdone.subset (by simp)
    obtain ⟨pin, hp, -, hd⟩ := h.sound.intact.listed hn hi
    refine (h.refreshInput_answers hpull ht hneeds hbusy hn hi hp hd).mono ?_ fun _ _ he => he
    rintro _ u ⟨hnew, hu⟩
    refine ⟨fun j hj pin' hp' hf => ?_, hu⟩
    rcases List.mem_append.mp hj with hj | hj
    · exact hall j hj pin' hp' hf
    · cases List.mem_singleton.mp hj
      cases Option.some.inj (hp'.symm.trans hp)
      exact hnew hf
  · rintro _ t ⟨hall, ht⟩
    refine ⟨⟨fun n' hn' i hi pin hp hf => ?_, ?_⟩, ht⟩
    · cases Option.some.inj (hn'.symm.trans hn)
      exact (hall i hi pin hp hf).1
    · rintro m' ⟨n', i, pin, src, q, hn', hi, hp, hf, hsrc, hq, rfl, hpure⟩
      cases Option.some.inj (hn'.symm.trans hn)
      exact (hall i hi pin hp hf).2 src q hsrc hq hpure

/-- Evaluating a node shows that it is ready, or finds a node to blame. -/
theorem Built.evaluateWith_answers (h : g.Built) (hflow : g.flowless = true)
    (hall : ∀ m, g.Needs k m → ¬ g.Unbound m → g.HasDeclaredPins m) {pull : NodeId → Eval Unit}
    (hpull : g.PullAnswers k busy pull) (hs : g.Amid busy s) (hm : m ∈ g.nodes.keys)
    (hneeds : g.Needs k m) (hbusy : ∀ x ∈ busy, Relation.ReflTransGen g.DependsOn x m) :
    (evaluateWith pull m).Ends s (fun _ _ => g.Ready m) fun stop _ => g.Explains k stop := by
  rw [evaluateWith, ends_bind]
  refine (h.refreshInputsWith_answers hpull hs hm hneeds hbusy).mono ?_ fun _ _ he => he
  rintro _ t ⟨⟨hlinked, hsources⟩, ht⟩
  -- Once the inputs are there, a body can only miss its property.
  by_cases hbound : g.Unbound m
  · refine (hbound.runNode ht.1).mono (fun _ _ hno => hno.elim) fun stop _ he => ?_
    rw [he]
    exact ⟨hneeds, .inr ⟨hbound, rfl⟩⟩
  · refine (h.runNode_answers hflow ht.1 hm hbound (hall m hneeds hbound)).mono ?_
      fun _ _ hno => hno.elim
    exact fun _ _ _ => .intro hlinked hbound hsources

/-- A pull never goes as deep as it may: each level has another node that is being resolved. -/
theorem Built.pull_answers (h : g.Built) (hflow : g.flowless = true)
    (hall : ∀ m, g.Needs k m → ¬ g.Unbound m → g.HasDeclaredPins m) (depth : Nat) :
    ∀ {busy : List NodeId}, busy.Nodup → busy ⊆ g.nodes.keys →
      g.nodes.keys.length < depth + busy.length → g.PullAnswers k busy (pull depth) := by
  induction depth with
  | zero =>
    -- All nodes are being resolved, and there would have to be one more.
    intro busy hnodup hsub hroom
    have hle := hnodup.length_le_of_subset hsub
    omega
  | succ depth ih =>
    intro busy hnodup hsub hroom m s hs hpure hneeds hbusy
    have hkept : Keeps (g.Amid busy) (pull (depth + 1) m) :=
      ((keptByParts_framed h.sound.intact.indexed).pull (depth + 1) m).and
        (pull_keeps_resolving (depth + 1) busy m)
    suffices hends : (pull (depth + 1) m).Ends s (fun _ _ => g.Ready m)
        fun stop _ => g.Explains k stop from
      (hends.and_keeps hkept hs).mono (fun _ _ hq => hq) fun _ _ he => he.1
    have hprogress : s.evaluator.inProgress = busy := hs.2
    simp only [pull, ends_bind, ends_evaluator, hprogress]
    by_cases hin : m ∈ busy
    · -- A node that is being resolved needs the node that is pulled, which is itself.
      simp only [hin, if_true, ends_fail]
      exact ⟨hneeds, hbusy m hin⟩
    · simp only [hin, if_false, ends_updateEvaluator, ends_bind, ends_andFinally]
      obtain ⟨n, hn, -⟩ := isPure_iff.mp hpure
      have hm := Table.mem_keys_of_get? hn
      have hinner : g.PullAnswers k (m :: busy) (pull depth) := ih
        (List.nodup_cons.mpr ⟨hin, hnodup⟩) (List.cons_subset.mpr ⟨hm, hsub⟩) (by rw [List.length_cons]; omega)
      refine h.evaluateWith_answers hflow hall hinner
        (s := ⟨beginPull m s.evaluator, s.graph⟩) ⟨hs.1, congrArg (m :: ·) hprogress⟩ hm hneeds ?_
      intro x hx
      rcases List.mem_cons.mp hx with rfl | hx
      · exact .refl
      · exact (hbusy x hx).to_reflTransGen

/-- Evaluating a node of a graph that was built, of built-in nodes, and not loaded, with an
    evaluator that is resolving nothing, succeeds exactly if no node that is needed is on a cycle of
    pure nodes, has an unlinked value input or is an unbound variable; and a failure names such a
    node. -/
theorem evaluateNode_succeeds_iff {name : String} {registry : Registry}
    (hrun : (Graph.new name registry).Reaches g) (hbuiltin : g.allBuiltin = true)
    (hflow : g.flowless = true) (hk : k ∈ g.nodes.keys) {e : Evaluator} (he : e.inProgress = [])
    (hall : ∀ m, g.Needs k m → ¬ g.Unbound m → g.HasDeclaredPins m) :
    ((evaluateNode k ⟨e, g⟩).answer = .ok () ↔
      (∀ m, g.Needs k m → ¬ Relation.TransGen g.DependsOn m m) ∧
      (∀ m, g.Needs k m → g.Linked m) ∧ ∀ m, g.Needs k m → ¬ g.Unbound m) ∧
    ∀ stop, (evaluateNode k ⟨e, g⟩).answer = .error stop → g.Explains k stop := by
  have h := hrun.built hbuiltin
  have hpull : g.PullAnswers k [] (pull (pullDepth g)) := by
    refine h.pull_answers hflow hall _ List.nodup_nil (List.nil_subset _) ?_
    rw [pullDepth, List.length_nil, Table.size_eq_length_keys]
    omega
  have hends : (evaluateWith (pull (pullDepth g)) k).Ends ⟨e, g⟩ (fun _ _ => g.Ready k)
      fun stop _ => g.Explains k stop :=
    h.evaluateWith_answers hflow hall hpull (s := ⟨e, g⟩) ⟨rfl, he⟩ hk .refl
      fun _ hx => (nomatch hx)
  refine ⟨⟨fun ha => ?_, ?_⟩, fun stop ha => hends.error ha⟩
  · have hready := hends.ok ha
    refine ⟨fun m hm => (hready.needs hm).not_cyclic, fun m hm => ?_, fun m hm => ?_⟩
    · cases hready.needs hm with
      | intro linked _ _ => exact linked
    · cases hready.needs hm with
      | intro _ bound _ => exact bound
  · rintro ⟨hacyclic, hlinked, hbound⟩
    -- A failure would blame a node that is needed, and each of the conditions clears one cause.
    cases ha : (evaluateNode k ⟨e, g⟩).answer with
    | ok _ => rfl
    | error stop =>
      have hblame := hends.error ha
      exfalso
      cases stop with
      | exhausted => exact hblame
      | failed error =>
        cases error with
        | infiniteLoop m steps => exact hacyclic m hblame.1 hblame.2
        | missingInput m input =>
          obtain ⟨hneeds, ⟨n, i, pin, hn, hi, hp, hf, hunlinked, -⟩ | ⟨hunbound, -⟩⟩ := hblame
          · rw [hlinked m hneeds n hn i hi pin hp hf] at hunlinked
            cases hunlinked
          · exact hbound m hneeds hunbound
        | _ => exact hblame

theorem doubling_log_is_ready :
    (evaluateNode ⟨9⟩ ⟨{}, doubling⟩).answer = .ok () ∧
      ¬ Relation.TransGen doubling.DependsOn ⟨9⟩ ⟨9⟩ ∧ doubling.Linked ⟨9⟩ := by
  have hok : (evaluateNode ⟨9⟩ ⟨{}, doubling⟩).answer = .ok () := eq_ok_of_isOk (by decide +kernel)
  have hpins : ∀ m ∈ doubling.nodes.keys, doubling.HasDeclaredPins m := by decide +kernel
  have hall : ∀ m, doubling.Needs ⟨9⟩ m → ¬ doubling.Unbound m → doubling.HasDeclaredPins m := by
    intro m _ _ n hn
    exact hpins m (Table.mem_keys_of_get? hn) n hn
  have hiff := evaluateNode_succeeds_iff doubling_reached (by decide +kernel) (by decide +kernel)
    (by decide +kernel) (e := {}) rfl hall
  obtain ⟨hacyclic, hlinked, -⟩ := hiff.1.mp hok
  exact ⟨hok, hacyclic _ .refl, hlinked _ .refl⟩

end Graph

end FlowGraph
