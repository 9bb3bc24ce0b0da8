import FlowGraph.Proofs.Evaluation.Bodies
import FlowGraph.Proofs.Evaluation.Requests

/-!
# Evaluation and types

Values carry their types with them and are checked when they are copied, so an evaluation could fail
for the type of a value.  In a graph that was built and not loaded it does not.  All value pins of a
built-in node are of one type, which for a bound variable is the type of its property
(`Graph.Fits`); the pins have it from the layout and keep it, whatever happens to the node, its pins
or the property.  All that can be missing is a pin.

A scripted node may fail as it likes, so nothing is said of the failures in its name.
-/

namespace FlowGraph

open Eval

namespace Graph

variable {g g' : Graph} {k : NodeId}

/-! ## The type of a node -/

/-- Every value pin of the node is of the type. -/
def Carries (g : Graph) (k : NodeId) (type : ValueType) : Prop :=
  ∀ d i p, g.valuePin? k d i = some p → ∃ pin, g.pins.get? p = some pin ∧ pin.type = type

theorem Carries.of_frame {type : ValueType} (h : g.Carries k type) (hf : g'.frame = g.frame) :
    g'.Carries k type := by
  intro d i p hp
  rw [valuePin?_of_frame hf] at hp
  obtain ⟨pin, hpin, htype⟩ := h d i p hp
  obtain ⟨pin', hpin', heq⟩ := pin_of_frame hf.symm hpin
  obtain ⟨-, -, -, -, -, hsame⟩ := Pin.blank_eq_blank heq
  exact ⟨pin', hpin', hsame.symm.trans htype⟩

/-- The type of the value pins is the one that the body of a built-in node works with. -/
def Fits (g : Graph) (k : NodeId) : Behavior → Prop
  | .eventBegin | .scripted _ => True
  | .logValue _ | .floatConstant _ | .arithmetic _ => g.Carries k .float
  | .getVariable p | .setVariable p => ∀ q type, p = some q → g.typeOf? q = some type →
      g.Carries k type

/-- The value pins of a node are as its behavior declares them. -/
theorem LaidOut.value_form (hl : g.LaidOut k) (hi : g.Intact) {n : Node} {b : Behavior}
    (hn : g.nodes.get? k = some n) (hb : n.behavior = some b) :
    ∃ v : Option Value, (∀ p, b.bound = some p → v.map Value.type = g.typeOf? p) ∧
      ∀ d i p, g.valuePin? k d i = some p → ∃ pin, g.pins.get? p = some pin ∧
        pin.isFlow = false ∧ pin.form ∈ formsOf (b.layoutAs v) d := by
  obtain ⟨v, hv, hforms⟩ := hl n b hn hb
  refine ⟨v, hv, fun d i p hp => ?_⟩
  obtain ⟨n', pin, hn', hlisted, hpin, -, -, hflow⟩ := hi.valuePin? hp
  rw [hn] at hn'
  cases hn'
  refine ⟨pin, hpin, hflow, (hforms d).subset ?_⟩
  rw [forms_eq hn]
  exact List.mem_filterMap.mpr ⟨p, hlisted, by rw [hpin]; rfl⟩

/-- In a graph that was built, the pins of every node fit its body. -/
theorem LaidOut.fits (hl : g.LaidOut k) (hi : g.Intact) {n : Node} {b : Behavior}
    (hn : g.nodes.get? k = some n) (hb : n.behavior = some b) : g.Fits k b := by
  obtain ⟨v, hv, hforms⟩ := hl.value_form hi hn hb
  -- It is enough to look at the declaration, where all that is no flow is of the type.
  have hcarries : ∀ type, (∀ spec ∈ b.layoutAs v, spec.value.type = .flow ∨ spec.value.type = type) →
      g.Carries k type := by
    intro type hspecs d i p hp
    obtain ⟨pin, hpin, hflow, hform⟩ := hforms d i p hp
    obtain ⟨spec, hspec, heq⟩ := List.mem_map.mp hform
    have htype : spec.value.type = pin.type := congrArg Prod.snd heq
    refine ⟨pin, hpin, htype.symm.trans ((hspecs spec (List.mem_filter.mp hspec).1).resolve_left ?_)⟩
    intro hspecflow
    rw [show pin.isFlow = pin.type.isFlow from rfl, ← htype, hspecflow] at hflow
    cases hflow
  cases b with
  | eventBegin | scripted _ => exact True.intro
  | logValue _ | floatConstant _ | arithmetic _ =>
    refine hcarries .float ?_
    simp [Behavior.layoutAs, Behavior.layout, Behavior.bind?, PinSpec.flow, PinSpec.input,
      PinSpec.output, Value.type]
  | getVariable _ | setVariable _ =>
    rintro q type rfl htype
    obtain ⟨x, rfl, rfl⟩ := Option.map_eq_some_iff.mp ((hv q rfl).trans htype)
    refine hcarries x.type ?_
    simp [Behavior.layoutAs, Behavior.layout, Behavior.bind?, PinSpec.flow, PinSpec.input,
      PinSpec.output, Value.type]

end Graph

/-! ## Bodies -/

/-- The session while the body of a node of the graph runs. -/
def Session.Runs (g : Graph) (k : NodeId) (s : Session) : Prop := s.Framed (setBehavior k none g)

section Bodies

variable {g : Graph} {k : NodeId} {s : Session} {type : ValueType}

theorem Graph.Carries.running (h : g.Carries k type) (hs : s.Runs g k) :
    s.graph.Carries k type := by
  refine Graph.Carries.of_frame (fun d i p hp => ?_) hs
  rw [valuePin?_setBehavior] at hp
  exact h d i p hp

theorem readInput_typed (h : s.graph.Carries k type) (i : Nat) :
    (readInput k i).Ends s (fun v t => t = s ∧ v.type = type) fun stop _ =>
      stop = .failed (.missingInput k s!"#{i}") := by
  refine readInput_ends (fun p pin hp hpin => ?_) fun _ => rfl
  obtain ⟨pin', hpin', htype⟩ := h .input i p hp
  rw [hpin] at hpin'
  cases hpin'
  exact ⟨rfl, htype⟩

theorem readFloat_typed (h : s.graph.Carries k .float) (i : Nat) :
    (readFloat k i).Ends s (fun _ t => t = s) fun stop _ =>
      stop = .failed (.missingInput k s!"#{i}") := by
  refine ends_bind.mpr ((readInput_typed h i).mono (fun v t hv => ?_) fun _ _ he => he)
  obtain ⟨rfl, htype⟩ := hv
  cases v with
  | float x => exact rfl
  | _ => cases htype

theorem writeOutput_typed {v : Value} (h : s.graph.Carries k v.type) (i : Nat) :
    (writeOutput k i v).Ends s (fun _ _ => True) fun stop _ =>
      stop = .failed (.failed k s!"no value output #{i}") := by
  simp only [writeOutput, ends_bind, ends_graph]
  cases hp : s.graph.valuePin? k .output i with
  | none => exact rfl
  | some p =>
    obtain ⟨pin, hpin, htype⟩ := h .output i p hp
    refine ends_attempt.mpr ?_
    rcases Graph.setPin_cases p v s.graph with ⟨_, -, hne⟩ | ⟨_, -, -, hg⟩
    · exact absurd htype.symm (hne pin hpin)
    · rw [hg]
      exact True.intro

end Bodies

/-- The node in whose name an evaluation failed. -/
def EvaluationError.node : EvaluationError → NodeId
  | missingInput node _ | nodeNotFound node | failed node _ | graph node _ | infiniteLoop node _ =>
    node

/-- Whether the node is there and its behavior is a script. -/
def Graph.isScripted (g : Graph) (k : NodeId) : Bool :=
  ((g.nodes.get? k).bind (·.behavior)).any (!·.isBuiltin)

/-- A stop that is no matter of types: unless the node is scripted, the graph refuses nothing to it
    and all that it gives up for is an output that is not there. -/
def Stop.Typed (g : Graph) : Stop → Prop
  | .failed (.graph k _) => g.isScripted k = true
  | .failed (.failed k reason) => g.isScripted k = true ∨ reason = "no value output #0"
  | _ => True

section Typed

variable {g : Graph} {k : NodeId} {s : Session}

/-- Writing the first output fails at most because it is not there. -/
theorem writeOutput_ends_typed {v : Value} (h : s.graph.Carries k v.type) :
    (writeOutput k 0 v).Ends s (fun _ _ => True) fun stop _ => stop.Typed g :=
  (writeOutput_typed h 0).mono (fun _ _ hq => hq) fun _ _ he => he ▸ .inr rfl

/-- What a variable reads has the type of its value pins. -/
theorem propertyOf_ends_typed (hs : s.Runs g k) {p : Option PropertyId}
    (hfits : ∀ q type, p = some q → g.typeOf? q = some type → g.Carries k type) :
    (propertyOf k p).Ends s (fun v t => t = s ∧ g.Carries k v.type) fun stop _ => stop.Typed g := by
  refine propertyOf_ends (fun q v hq hv => ⟨rfl, hfits q v.type hq ?_⟩) fun _ => True.intro
  have htype : s.graph.typeOf? q = g.typeOf? q := Graph.typeOf?_of_frame hs q
  rw [← htype, Graph.typeOf?, hv]
  rfl

/-- A variable stores in its property what it reads from its input. -/
theorem setProperty_ends_typed (hg : g.Indexed) (hs : s.Runs g k) {q : PropertyId} {v : Value}
    (hv : g.typeOf? q = some v.type) :
    (attempt k (Graph.setProperty q v)).Ends s (fun _ t => t.Runs g k) fun stop _ => stop.Typed g := by
  have hindexed : s.graph.Indexed := (setBehavior_indexed hg k none).of_frame hs
  have hkept : Keeps (Session.Runs g k) (attempt k (Graph.setProperty q v)) :=
    .attempt k ((keptByWrites_framed (setBehavior_indexed hg k none)).properties q v)
  have hstored : s.graph.typeOf? q = some v.type := (Graph.typeOf?_of_frame hs q).trans hv
  obtain ⟨w, hw, htype⟩ := Option.map_eq_some_iff.mp hstored
  obtain ⟨property, hproperty, rfl⟩ := Option.map_eq_some_iff.mp hw
  refine (Ends.and_keeps (Q := fun _ _ => True) (E := fun stop _ => stop.Typed g) ?_ hkept hs).mono
    (fun _ _ hq => hq.2) fun _ _ he => he.1
  refine ends_attempt.mpr ?_
  rcases Graph.setProperty_cases q v s.graph with ⟨_, -, hne⟩ | ⟨_, -, -, _, -, hset⟩
  · exact absurd htype.symm (hne property hproperty)
  · rw [hset]
    exact True.intro

/-- The body of a node whose pins fit it fails for no type. -/
theorem body_typed (hg : g.Indexed) (hs : s.Runs g k) {n : Node} {b : Behavior}
    (hn : g.nodes.get? k = some n) (hb : n.behavior = some b) (hfits : g.Fits k b) :
    (b.body k).Ends s (fun _ _ => True) fun stop _ => stop.Typed g := by
  cases b with
  | eventBegin => exact True.intro
  | logValue label =>
    simp only [Behavior.body, ends_bind, ends_report]
    refine (readFloat_typed (hfits.running hs) 0).mono ?_ fun _ _ he => he ▸ True.intro
    rintro x _ rfl
    exact writeOutput_ends_typed (hfits.running hs)
  | floatConstant x => exact writeOutput_ends_typed (hfits.running hs)
  | arithmetic op =>
    simp only [Behavior.body, ends_bind]
    refine (readFloat_typed (hfits.running hs) 0).mono ?_ fun _ _ he => he ▸ True.intro
    rintro x _ rfl
    refine (readFloat_typed (hfits.running hs) 1).mono ?_ fun _ _ he => he ▸ True.intro
    rintro y _ rfl
    exact writeOutput_ends_typed (hfits.running hs)
  | getVariable p =>
    simp only [Behavior.body, ends_bind]
    refine (propertyOf_ends_typed hs hfits).mono ?_ fun _ _ he => he
    rintro v _ ⟨rfl, hv⟩
    exact writeOutput_ends_typed (hv.running hs)
  | setVariable p =>
    simp only [Behavior.body, ends_bind, ends_graph]
    cases hp : p.filter s.graph.properties.contains with
    | none => exact True.intro
    | some q =>
      obtain ⟨rfl, hcontains⟩ := Option.filter_eq_some_iff.mp hp
      obtain ⟨property, hproperty⟩ := Option.isSome_iff_exists.mp hcontains
      have htype : g.typeOf? q = some property.value.type := by
        rw [← show s.graph.typeOf? q = g.typeOf? q from Graph.typeOf?_of_frame hs q]
        simp [Graph.typeOf?, Graph.propertyValue?, hproperty]
      have hcarries := hfits q _ rfl htype
      simp only [ends_pure]
      refine (readInput_typed (hcarries.running hs) 0).mono ?_ fun _ _ he => he ▸ True.intro
      rintro v _ ⟨rfl, hv⟩
      refine (setProperty_ends_typed hg hs (hv ▸ htype)).mono (fun _ t ht => ?_) fun _ _ he => he
      refine (propertyOf_ends_typed ht hfits).mono ?_ fun _ _ he => he
      rintro w _ ⟨rfl, hw⟩
      exact writeOutput_ends_typed (hw.running ht)
  | scripted script =>
    have hscripted : g.isScripted k = true := by simp [Graph.isScripted, hn, hb, Behavior.isBuiltin]
    refine (body_stops k (.scripted script) s).mono (fun _ _ hq => hq) fun stop _ he => ?_
    cases stop with
    | exhausted => exact True.intro
    | failed error =>
      cases error with
      | failed m reason => exact .inl (he ▸ hscripted)
      | graph m cause => exact he.1 ▸ hscripted
      | _ => exact True.intro

end Typed

/-! ## Evaluations -/

namespace Graph

variable {g : Graph} {s : Session}

/-- Every node of a graph that was built runs without a failure for a type. -/
theorem Sound.runNode_typed (h : g.Sound) (hl : g.Laid) (hs : s.Framed g) (k : NodeId) :
    (runNode k).Ends s (fun _ _ => True) fun stop _ => stop.Typed g := by
  have hnodes : s.graph.nodes = g.nodes := nodes_of_frame hs
  cases hn : s.graph.nodes.get? k with
  | none =>
    simp only [runNode, ends_bind, ends_graph, hn]
    exact True.intro
  | some n =>
    have hn' : g.nodes.get? k = some n := hnodes ▸ hn
    obtain ⟨b, hb, -⟩ := h.staffed.staff hn'
    have hruns : (s.running k).Runs g k := setBehavior_frame hs k none
    rw [runNode_ends hn hb]
    exact body_typed h.intact.indexed hruns hn' hb ((hl k).fits h.intact hn' hb)

theorem Sound.stopsWithin_typed (h : g.Sound) (hl : g.Laid) :
    StopsWithin (Session.Framed g) (Stop.Typed g) where
  missing _ _ := True.intro
  absent _ := True.intro
  copies node i src s t hs hsrc ht := by
    rw [feedingPin?_of_frame hs] at hsrc
    have hkept : Keeps (Session.Framed g) (attempt node (copyPin src i)) :=
      .attempt node ((keptByParts_framed h.intact.indexed).copies src i)
    exact ((h.intact.copyPin_ends (Q := fun _ _ => True) (E := fun stop _ => stop.Typed g) ht hsrc
      fun _ _ _ _ _ => True.intro).and_keeps hkept ht).mono (fun _ _ hq => hq.2) fun _ _ he => he.1
  bodies node s hs :=
    ((h.runNode_typed hl hs node).and_keeps (runNode_keeps_frame h.intact.indexed node) hs).mono
      (fun _ _ hq => hq.2) fun _ _ he => he.1

/-- Evaluating a node of a graph that was built, or its inputs, fails for no type. -/
theorem Sound.evaluates_typed (h : g.Sound) (hl : g.Laid) (node : NodeId) (hs : s.Framed g) :
    (refreshInputs node).Ends s (fun _ _ => True) (fun stop _ => stop.Typed g) ∧
      (evaluateNode node).Ends s (fun _ _ => True) fun stop _ => stop.Typed g := by
  have hparts := h.stopsWithin_typed hl
  have hpull := hparts.pull_ends (fun _ _ => True.intro) True.intro (fun _ _ hs => hs)
    (fun _ _ hs => hs) (pullDepth s.graph)
  constructor
  · refine Ends.congr (m := refreshInputsWith (pull (pullDepth s.graph)) node) rfl ?_
    exact (hparts.refreshInputsWith (fun m t ht _ => hpull m t ht) hs node).mono
      (fun _ _ _ => True.intro) fun _ _ he => he
  · refine Ends.congr (m := evaluateWith (pull (pullDepth s.graph)) node) rfl ?_
    exact (hparts.evaluateWith (fun m t ht _ => hpull m t ht) hs node).mono
      (fun _ _ _ => True.intro) fun _ _ he => he

/-- In a graph that was built, no request fails because the graph refused to copy, to read or to
    write a value, or because an input is of the wrong type.  A body gives up for one reason only:
    the node has lost its output.  This is not said of scripted nodes, which fail as they like. -/
theorem evaluation_fails_for_no_type {name : String} {registry : Registry}
    (h : (Graph.new name registry).Reaches g) {e : Evaluator} {q : Request}
    {error : EvaluationError} (hfail : q.failure? ⟨e, g⟩ = some error)
    (hbuiltin : g.isScripted error.node = false) :
    (∀ node cause, error ≠ .graph node cause) ∧
      ∀ node reason, error = .failed node reason → reason = "no value output #0" := by
  have hsound := h.sound (.new name registry)
  have htyped : Stop.Typed g (.failed error) :=
    Request.failure?_stops hsound.intact.indexed (fun _ _ => True.intro)
      (fun node s hs => (hsound.evaluates_typed h.laid node hs).1)
      (fun node s hs => (hsound.evaluates_typed h.laid node hs).2) hfail
  constructor
  · rintro node cause rfl
    exact absurd (htyped.symm.trans hbuiltin) (by decide)
  · rintro node reason rfl
    refine htyped.resolve_left fun hscripted => ?_
    exact absurd (hscripted.symm.trans hbuiltin) (by decide)

/-- A constant that has lost its output. -/
def stump : Graph :=
  (Command.performAll [.addNode (.floatConstant 1), .deletePin ⟨2⟩]
    (Graph.new "stump" .builtin)).graph

theorem stump_reached : (Graph.new "stump" .builtin).Reaches stump :=
  ⟨⟨_, rfl⟩, by decide +kernel⟩

theorem stump_lacks_output : ∃ reason,
    (Request.evaluateNode ⟨1⟩).failure? ⟨{}, stump⟩ = some (.failed ⟨1⟩ reason) ∧
      reason = "no value output #0" := by
  have hfail : (Request.evaluateNode ⟨1⟩).failure? ⟨{}, stump⟩ =
      some (.failed ⟨1⟩ "no value output #0") := rfl
  exact ⟨_, hfail, (evaluation_fails_for_no_type stump_reached hfail (by decide +kernel)).2 _ _ rfl⟩

end Graph

end FlowGraph
