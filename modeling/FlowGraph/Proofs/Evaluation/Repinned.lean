import FlowGraph.Proofs.Evaluation.Bodies
import FlowGraph.Proofs.Evaluation.Pass

/-!
# Evaluation under other pins

Two graphs may have the same nodes with the same pins under other ids, fed from corresponding pins
(`Graph.Repinned`).  An evaluation goes in step on both, whatever the pins hold: where it can fail
or turn, it asks which pins there are, what feeds them and of which type a value is, and never which
value it is.  So a node can be evaluated in one of the graphs if it can be in the other, and passes
visit the same nodes as long as the flow is the same.
-/

namespace FlowGraph

open Eval

/-! ## Two steps, both with an answer or both without -/

namespace Eval

variable {α α' β β' : Type} {s s' : Session} {Q : α → α' → Session → Session → Prop}

/-- Either both steps answer, so that `Q` holds of the answers, or both stop. -/
def InStep (m : Eval α) (m' : Eval α') (s s' : Session) (Q : α → α' → Session → Session → Prop) :
    Prop :=
  match (m s).answer, (m' s').answer with
  | .ok a, .ok a' => Q a a' (m s).session (m' s').session
  | .error _, .error _ => True
  | _, _ => False

theorem inStep_fail {error error' : EvaluationError} :
    InStep (fail error) (fail error') s s' Q := trivial

theorem inStep_graph {Q : Graph → Graph → Session → Session → Prop}
    (h : Q s.graph s'.graph s s') : InStep graph graph s s' Q := h

theorem inStep_evaluator {Q : Evaluator → Evaluator → Session → Session → Prop}
    (h : Q s.evaluator s'.evaluator s s') : InStep evaluator evaluator s s' Q := h

theorem inStep_updateEvaluator {f f' : Evaluator → Evaluator}
    {Q : Unit → Unit → Session → Session → Prop}
    (h : Q () () { s with evaluator := f s.evaluator } { s' with evaluator := f' s'.evaluator }) :
    InStep (updateEvaluator f) (updateEvaluator f') s s' Q := h

theorem inStep_report {r r' : Report} {Q : Unit → Unit → Session → Session → Prop}
    (h : Q () () s s') : InStep (report r) (report r') s s' Q := h

theorem inStep_edit {e : Edit α} {e' : Edit α'}
    (h : Q (e s.graph).answer (e' s'.graph).answer { s with graph := (e s.graph).graph }
      { s' with graph := (e' s'.graph).graph }) : InStep (edit e) (edit e') s s' Q := h

theorem inStep_andFinally {m : Eval α} {m' : Eval α'} {f f' : Session → Session}
    (h : InStep m m' s s' fun a a' t t' => Q a a' (f t) (f' t')) :
    InStep (andFinally m f) (andFinally m' f') s s' Q := h

theorem inStep_bind {m : Eval α} {m' : Eval α'} {f : α → Eval β} {f' : α' → Eval β'}
    {Q : β → β' → Session → Session → Prop}
    (h : InStep m m' s s' fun a a' t t' => InStep (f a) (f' a') t t' Q) :
    InStep (m >>= f) (m' >>= f') s s' Q := by
  unfold InStep at h ⊢
  rw [bind_apply, bind_apply]
  cases ha : (m s).answer <;> cases ha' : (m' s').answer <;> simp only [ha, ha'] at h ⊢
  exact h

theorem InStep.mono {m : Eval α} {m' : Eval α'} {Q' : α → α' → Session → Session → Prop}
    (h : InStep m m' s s' Q) (hq : ∀ a a' t t', Q a a' t t' → Q' a a' t t') :
    InStep m m' s s' Q' := by
  unfold InStep at h ⊢
  cases ha : (m s).answer <;> cases ha' : (m' s').answer <;> simp only [ha, ha'] at h ⊢
  exact hq _ _ _ _ h

/-- A loop over items and one over their images stay in step if each two steps do. -/
theorem inStep_forM {R : Session → Session → Prop} {f : α → Eval Unit} {f' : α' → Eval Unit}
    {image : α → α'} (xs : List α) (h : R s s')
    (hstep : ∀ x ∈ xs, ∀ t t', R t t' →
      InStep (f x) (f' (image x)) t t' fun _ _ u u' => R u u') :
    InStep (xs.forM f) ((xs.map image).forM f') s s' fun _ _ t t' => R t t' := by
  induction xs generalizing s s' with
  | nil => exact h
  | cons x xs ih =>
    refine inStep_bind ((hstep x List.mem_cons_self s s' h).mono fun _ _ t t' ht => ?_)
    exact ih ht fun y hy => hstep y (List.mem_cons_of_mem x hy)

end Eval

/-! ## The same nodes with other pins -/

/-- The node with other ids for its pins. -/
def Node.repinned (ρ : PinId → PinId) (n : Node) : Node :=
  { n with inputs := n.inputs.map ρ, outputs := n.outputs.map ρ }

theorem Node.pinsOf_repinned (ρ : PinId → PinId) (n : Node) (d : Direction) :
    (n.repinned ρ).pinsOf d = (n.pinsOf d).map ρ := by
  cases d <;> rfl

namespace Graph

/-- In the second graph, the nodes have the pins that they have in the first one under other ids,
    and each pin is fed from the pin that corresponds to the one that feeds it in the first. -/
structure Repinned (ρ : PinId → PinId) (g g' : Graph) : Prop where
  indexed : g.Indexed
  indexed' : g'.Indexed
  nodes : g'.nodes = g.nodes.map (.repinned ρ)
  pins : ∀ {p pin}, g.pins.get? p = some pin → ∃ pin', g'.pins.get? (ρ p) = some pin' ∧
    pin'.name = pin.name ∧ pin'.node = pin.node ∧ pin'.type = pin.type
  listed : ∀ {k n}, g.nodes.get? k = some n → ∀ {d p}, p ∈ n.pinsOf d →
    ∃ pin, g.pins.get? p = some pin
  feeds : ∀ {p pin}, g.pins.get? p = some pin →
    g'.feedingPin? (ρ p) = (g.feedingPin? p).map ρ
  sources : ∀ {p q}, g.feedingPin? p = some q → ∃ pin, g.pins.get? q = some pin
  types : ∀ p, g'.typeOf? p = g.typeOf? p

variable {ρ : PinId → PinId} {g g' : Graph}

theorem Repinned.setBehavior (h : g.Repinned ρ g') (k : NodeId) (b : Option Behavior) :
    (setBehavior k b g).Repinned ρ (setBehavior k b g') where
  indexed := setBehavior_indexed h.indexed k b
  indexed' := setBehavior_indexed h.indexed' k b
  nodes := by
    refine Table.ext ?_
    simp only [FlowGraph.setBehavior, h.nodes, Table.modify, Table.map, List.map_map]
    refine List.map_congr_left fun e _ => ?_
    by_cases hk : e.1 = k
    · simp only [Function.comp_apply, if_pos hk]
      rfl
    · simp only [Function.comp_apply, if_neg hk]
  pins := h.pins
  listed {m n} hn {d p} hp := by
    simp only [FlowGraph.setBehavior, Table.get?_modify] at hn
    obtain ⟨n₀, hn₀, rfl⟩ := Option.map_eq_some_iff.mp hn
    refine h.listed hn₀ (d := d) ?_
    split at hp
    · cases d <;> exact hp
    · exact hp
  feeds := h.feeds
  sources := h.sources
  types := h.types

theorem Repinned.get?_node (h : g.Repinned ρ g') (k : NodeId) :
    g'.nodes.get? k = (g.nodes.get? k).map (.repinned ρ) := by
  rw [h.nodes, Table.get?_map]

theorem Repinned.isPure (h : g.Repinned ρ g') (k : NodeId) : g'.isPure k = g.isPure k := by
  rw [Graph.isPure, Graph.isPure, h.get?_node]
  cases g.nodes.get? k <;> rfl

/-- There is a property exactly if it has a type. -/
theorem contains_eq_typeOf? (g : Graph) (p : PropertyId) :
    g.properties.contains p = (g.typeOf? p).isSome := by
  rw [typeOf?, propertyValue?, Table.contains, Option.isSome_map, Option.isSome_map]

/-- The value pins are counted alike. -/
theorem Repinned.valuePin? (h : g.Repinned ρ g') (k : NodeId) (d : Direction) (i : Nat) :
    g'.valuePin? k d i = (g.valuePin? k d i).map ρ ∧
      ∀ p, g.valuePin? k d i = some p → ∃ pin, g.pins.get? p = some pin := by
  simp only [Graph.valuePin?, h.get?_node]
  cases hn : g.nodes.get? k with
  | none => exact ⟨rfl, fun _ hp => by cases hp⟩
  | some n =>
    have hsame : ((n.pinsOf d).map ρ).filter (fun id => (g'.pins.get? id).any (!·.isFlow)) =
        ((n.pinsOf d).filter fun id => (g.pins.get? id).any (!·.isFlow)).map ρ := by
      rw [List.filter_map]
      refine congrArg _ (List.filter_congr fun p hp => ?_)
      obtain ⟨pin, hpin⟩ := h.listed hn hp
      obtain ⟨pin', hpin', -, -, htype⟩ := h.pins hpin
      have hflow : pin'.isFlow = pin.isFlow := congrArg ValueType.isFlow htype
      simp only [Function.comp_apply, hpin, hpin', Option.any_some, hflow]
    simp only [Option.map_some, Option.bind_some, Node.pinsOf_repinned, hsame, List.getElem?_map,
      true_and]
    intro p hp
    exact h.listed hn (List.mem_of_mem_filter (List.mem_of_getElem? hp))

/-- The flow pins are the same. -/
theorem Repinned.flowPin? (h : g.Repinned ρ g') (k : NodeId) (d : Direction) :
    g'.flowPin? k d = (g.flowPin? k d).map ρ := by
  simp only [Graph.flowPin?, h.get?_node]
  cases hn : g.nodes.get? k with
  | none => rfl
  | some n =>
    simp only [Option.map_some, Option.bind_some, Node.pinsOf_repinned, List.find?_map]
    rw [← List.head?_filter, ← List.head?_filter]
    refine congrArg _ (congrArg _ (List.filter_congr fun p hp => ?_))
    obtain ⟨pin, hpin⟩ := h.listed hn hp
    obtain ⟨pin', hpin', -, -, htype⟩ := h.pins hpin
    simp only [Function.comp_apply, hpin, hpin', Option.any_some]
    exact congrArg ValueType.isFlow htype

end Graph

/-! ## Reading and writing -/

/-- The evaluators are the same, and the graphs differ from these two in contents only. -/
structure Session.Beside (g g' : Graph) (s s' : Session) : Prop where
  evaluator : s'.evaluator = s.evaluator
  framed : s.graph.frame = g.frame
  framed' : s'.graph.frame = g'.frame

variable {ρ : PinId → PinId} {g g' : Graph} {s s' : Session} {k : NodeId}

theorem Session.Beside.count (hs : s.Beside g g' s') (f : Evaluator → Evaluator) :
    Session.Beside g g' { s with evaluator := f s.evaluator }
      { s' with evaluator := f s'.evaluator } :=
  ⟨congrArg f hs.evaluator, hs.framed, hs.framed'⟩

/-- A pin and the one that corresponds to it hold values of one type. -/
theorem Session.Beside.pin (h : g.Repinned ρ g') (hs : s.Beside g g' s') {p : PinId}
    (hp : ∃ pin, g.pins.get? p = some pin) :
    ∃ pin pin', s.graph.pins.get? p = some pin ∧ s'.graph.pins.get? (ρ p) = some pin' ∧
      pin'.name = pin.name ∧ pin'.node = pin.node ∧ pin'.type = pin.type := by
  obtain ⟨pin₀, hpin₀⟩ := hp
  obtain ⟨pin₀', hpin₀', hname, hnode, htype⟩ := h.pins hpin₀
  obtain ⟨pin, hpin, hblank⟩ := Graph.pin_of_frame hs.framed.symm hpin₀
  obtain ⟨pin', hpin', hblank'⟩ := Graph.pin_of_frame hs.framed'.symm hpin₀'
  obtain ⟨-, hname₁, -, hnode₁, -, htype₁⟩ := Pin.blank_eq_blank hblank
  obtain ⟨-, hname₂, -, hnode₂, -, htype₂⟩ := Pin.blank_eq_blank hblank'
  exact ⟨pin, pin', hpin, hpin', by rw [← hname₂, hname, hname₁], by rw [← hnode₂, hnode, hnode₁],
    by rw [← htype₂, htype, htype₁]⟩

theorem Session.Beside.typeOf? (h : g.Repinned ρ g') (hs : s.Beside g g' s') (p : PropertyId) :
    s'.graph.typeOf? p = s.graph.typeOf? p := by
  rw [Graph.typeOf?_of_frame hs.framed, Graph.typeOf?_of_frame hs.framed', h.types]

section Bodies

variable (h : g.Repinned ρ g') (hs : s.Beside g g' s')
include h hs

theorem readInput_inStep {i : Nat} {Q : Value → Value → Session → Session → Prop}
    (hok : ∀ v v', v'.type = v.type → Q v v' s s') :
    InStep (readInput k i) (readInput k i) s s' Q := by
  refine inStep_bind (inStep_graph ?_)
  rw [Graph.valuePin?_of_frame hs.framed, Graph.valuePin?_of_frame hs.framed',
    (h.valuePin? k _ i).1]
  cases hp : g.valuePin? k .input i with
  | none => exact inStep_fail
  | some p =>
    obtain ⟨pin, pin', hpin, hpin', -, -, htype⟩ := hs.pin h ((h.valuePin? k _ i).2 p hp)
    simp only [Option.map_some, Option.bind_some, hpin, hpin']
    exact hok _ _ htype

theorem readInputAs_inStep {i : Nat} {type : ValueType}
    {Q : Value → Value → Session → Session → Prop}
    (hok : ∀ v v', v'.type = v.type → Q v v' s s') :
    InStep (readInputAs k i type) (readInputAs k i type) s s' Q := by
  refine inStep_bind (readInput_inStep h hs fun v v' htype => ?_)
  rw [htype]
  split
  · exact hok v v' htype
  · exact inStep_fail

theorem readFloat_inStep {i : Nat} {Q : Float32 → Float32 → Session → Session → Prop}
    (hok : ∀ x x', Q x x' s s') : InStep (readFloat k i) (readFloat k i) s s' Q := by
  refine inStep_bind (readInput_inStep h hs fun v v' htype => ?_)
  cases v <;> cases v' <;> first | exact hok _ _ | exact inStep_fail | cases htype

theorem propertyOf_inStep {property : Option PropertyId}
    {Q : Value → Value → Session → Session → Prop}
    (hok : ∀ v v', v'.type = v.type → Q v v' s s') :
    InStep (propertyOf k property) (propertyOf k property) s s' Q := by
  refine inStep_bind (inStep_graph ?_)
  cases property with
  | none => exact inStep_fail
  | some p =>
    have htypes := hs.typeOf? h p
    simp only [Graph.typeOf?] at htypes
    simp only [Option.bind_some]
    cases hv : s.graph.propertyValue? p <;> cases hv' : s'.graph.propertyValue? p <;>
      simp only [hv, hv', Option.map_some, Option.map_none, reduceCtorEq, Option.some.injEq]
        at htypes
    · exact inStep_fail
    · exact hok _ _ htypes

theorem setPin_inStep {p : PinId} (hp : ∃ pin, g.pins.get? p = some pin) {v v' : Value}
    (htype : v'.type = v.type) :
    InStep (attempt k (Graph.setPin p v)) (attempt k (Graph.setPin (ρ p) v')) s s'
      fun _ _ t t' => t.Beside g g' t' := by
  obtain ⟨pin, pin', hpin, hpin', -, -, hpins⟩ := hs.pin h hp
  have hframe := (Graph.setPin_frame (h.indexed.of_frame hs.framed) p v).trans hs.framed
  have hframe' := (Graph.setPin_frame (h.indexed'.of_frame hs.framed') (ρ p) v').trans hs.framed'
  unfold InStep attempt
  simp only [bind_apply, edit]
  rcases Graph.setPin_cases p v s.graph with ⟨cause, hg, hno⟩ | ⟨q, hq, hfits, hg⟩ <;>
    rcases Graph.setPin_cases (ρ p) v' s'.graph with ⟨cause', hg', hno'⟩ | ⟨q', hq', hfits', hg'⟩
  · rw [hg, hg']
    trivial
  · rw [hpin'] at hq'
    cases hq'
    exact absurd (htype.symm.trans (hfits'.trans hpins)) (hno pin hpin)
  · rw [hpin] at hq
    cases hq
    exact absurd (htype.trans (hfits.trans hpins.symm)) (hno' pin' hpin')
  · rw [hg] at hframe ⊢
    rw [hg'] at hframe' ⊢
    exact ⟨hs.evaluator, hframe, hframe'⟩

theorem setProperty_inStep {p : PropertyId} {v v' : Value} (htype : v'.type = v.type) :
    InStep (attempt k (Graph.setProperty p v)) (attempt k (Graph.setProperty p v')) s s'
      fun _ _ t t' => t.Beside g g' t' := by
  have hframe := (Graph.setProperty_frame (h.indexed.of_frame hs.framed) p v).trans hs.framed
  have hframe' :=
    (Graph.setProperty_frame (h.indexed'.of_frame hs.framed') p v').trans hs.framed'
  have htypes := hs.typeOf? h p
  simp only [Graph.typeOf?, Graph.propertyValue?] at htypes
  unfold InStep attempt
  simp only [bind_apply, edit]
  rcases Graph.setProperty_cases p v s.graph with ⟨cause, hg, hno⟩ | ⟨q, hq, hfits, h₁, -, hg⟩ <;>
    rcases Graph.setProperty_cases p v' s'.graph with
      ⟨cause', hg', hno'⟩ | ⟨q', hq', hfits', h₁', -, hg'⟩
  · rw [hg, hg']
    trivial
  · cases hq : s.graph.properties.get? p with
    | none => simp [hq, hq'] at htypes
    | some q =>
      simp only [hq, hq', Option.map_some, Option.some.injEq] at htypes
      exact absurd (htype.symm.trans (hfits'.trans htypes)) (hno q hq)
  · cases hq' : s'.graph.properties.get? p with
    | none => simp [hq, hq'] at htypes
    | some q' =>
      simp only [hq, hq', Option.map_some, Option.some.injEq] at htypes
      exact absurd (htype.trans (hfits.trans htypes.symm)) (hno' q' hq')
  · rw [hg] at hframe ⊢
    rw [hg'] at hframe' ⊢
    exact ⟨hs.evaluator, hframe, hframe'⟩

theorem writeOutput_inStep {i : Nat} {v v' : Value} (htype : v'.type = v.type) :
    InStep (writeOutput k i v) (writeOutput k i v') s s' fun _ _ t t' => t.Beside g g' t' := by
  refine inStep_bind (inStep_graph ?_)
  rw [Graph.valuePin?_of_frame hs.framed, Graph.valuePin?_of_frame hs.framed',
    (h.valuePin? k _ i).1]
  cases hp : g.valuePin? k .output i with
  | none => exact inStep_fail
  | some p => exact setPin_inStep h hs ((h.valuePin? k _ i).2 p hp) htype

end Bodies

/-! ## Bodies -/

section Scripts

variable (h : g.Repinned ρ g')
include h

theorem runAction_inStep (hs : s.Beside g g' s') {v v' : Value} (htype : v'.type = v.type)
    (action : Action) :
    InStep (runAction k v action) (runAction k v' action) s s'
      fun w w' t t' => w'.type = w.type ∧ t.Beside g g' t' := by
  cases action with
  | input i => exact readInput_inStep h hs fun w w' hw => ⟨hw, hs⟩
  | inputOf i type => exact readInputAs_inStep h hs fun w w' hw => ⟨hw, hs⟩
  | output i =>
    exact inStep_bind ((writeOutput_inStep h hs htype).mono fun _ _ _ _ ht => ⟨htype, ht⟩)
  | load w => exact ⟨rfl, hs⟩
  | readProperty p => exact propertyOf_inStep h hs fun w w' hw => ⟨hw, hs⟩
  | writeProperty p =>
    exact inStep_bind ((setProperty_inStep h hs htype).mono fun _ _ _ _ ht => ⟨htype, ht⟩)
  | fail message => exact inStep_fail
  | missing input => exact inStep_fail

theorem runActions_inStep (actions : List Action) :
    ∀ {v v' : Value} {s s' : Session}, v'.type = v.type → s.Beside g g' s' →
      InStep (runActions k v actions) (runActions k v' actions) s s'
        fun _ _ t t' => t.Beside g g' t' := by
  induction actions with
  | nil => exact fun _ hs => hs
  | cons action rest ih =>
    intro v v' s s' htype hs
    refine inStep_bind ((runAction_inStep h hs htype action).mono ?_)
    rintro w w' t t' ⟨hw, ht⟩
    exact inStep_bind (inStep_report (ih hw ht))

theorem body_inStep (hs : s.Beside g g' s') (b : Behavior) :
    InStep (b.body k) (b.body k) s s' fun _ _ t t' => t.Beside g g' t' := by
  cases b with
  | eventBegin => exact hs
  | logValue label =>
    refine inStep_bind (readFloat_inStep h hs fun x x' => ?_)
    refine inStep_bind (inStep_report ?_)
    exact writeOutput_inStep h hs rfl
  | floatConstant x => exact writeOutput_inStep h hs rfl
  | arithmetic op =>
    refine inStep_bind (readFloat_inStep h hs fun x x' => ?_)
    refine inStep_bind (readFloat_inStep h hs fun y y' => ?_)
    exact writeOutput_inStep h hs rfl
  | getVariable property =>
    refine inStep_bind (propertyOf_inStep h hs fun v v' htype => ?_)
    exact writeOutput_inStep h hs htype
  | setVariable property =>
    have hcontains : s'.graph.properties.contains = s.graph.properties.contains := by
      funext p
      rw [Graph.contains_eq_typeOf?, Graph.contains_eq_typeOf?, hs.typeOf? h]
    refine inStep_bind (InStep.mono (Q := fun id id' t t' => id' = id ∧ t.Beside g g' t') ?_ ?_)
    · refine inStep_bind (inStep_graph ?_)
      rw [hcontains]
      split
      · exact ⟨rfl, hs⟩
      · exact inStep_fail
    · rintro id _ t t' ⟨rfl, ht⟩
      refine inStep_bind (readInput_inStep h ht fun v v' htype => ?_)
      refine inStep_bind ((setProperty_inStep h ht htype).mono fun _ _ u u' hu => ?_)
      refine inStep_bind (propertyOf_inStep h hu fun w w' hw => ?_)
      exact writeOutput_inStep h hu hw
  | scripted script =>
    refine inStep_bind (inStep_graph (inStep_bind (inStep_report ?_)))
    exact runActions_inStep h script.actions rfl hs

end Scripts

theorem Session.Beside.back {n : Node} {b : Behavior} (h : g.Repinned ρ g')
    (hn : g.nodes.get? k = some n) (hb : n.behavior = some b) {t t' : Session}
    (ht : t.Beside (setBehavior k none g) (setBehavior k none g') t') :
    (t.back k b).Beside g g' (t'.back k b) := by
  have hn' : g'.nodes.get? k = some (n.repinned ρ) := by rw [h.get?_node, hn, Option.map_some]
  have hb' : (n.repinned ρ).behavior = some b := hb
  have hframe := setBehavior_frame ht.framed k (some b)
  have hframe' := setBehavior_frame ht.framed' k (some b)
  rw [← hb, setBehavior_setBehavior h.indexed hn, hb] at hframe
  rw [← hb', setBehavior_setBehavior h.indexed' hn', hb'] at hframe'
  exact ⟨ht.evaluator, hframe, hframe'⟩

theorem runNode_inStep (h : g.Repinned ρ g') (hs : s.Beside g g' s') :
    InStep (runNode k) (runNode k) s s' fun _ _ t t' => t.Beside g g' t' := by
  refine inStep_bind (inStep_graph ?_)
  rw [Graph.nodes_of_frame hs.framed, Graph.nodes_of_frame hs.framed', h.get?_node]
  cases hn : g.nodes.get? k with
  | none => exact inStep_fail
  | some n =>
    have hsame : (n.repinned ρ).behavior = n.behavior := rfl
    simp only [Option.map_some, hsame]
    cases hb : n.behavior with
    | none => exact inStep_bind (inStep_evaluator inStep_fail)
    | some b =>
      have hrunning : (s.running k).Beside (setBehavior k none g) (setBehavior k none g')
          (s'.running k) :=
        ⟨hs.evaluator, setBehavior_frame hs.framed k none, setBehavior_frame hs.framed' k none⟩
      refine inStep_bind (inStep_edit (inStep_andFinally ?_))
      exact (body_inStep (h.setBehavior k none) hrunning b).mono fun _ _ _ _ ht =>
        ht.back h hn hb

/-! ## Inputs and pulls -/

/-- Pulls stay in step. -/
def PullInStep (g g' : Graph) (pull : NodeId → Eval Unit) : Prop :=
  ∀ (k : NodeId) (s s' : Session), s.Beside g g' s' →
    InStep (pull k) (pull k) s s' fun _ _ t t' => t.Beside g g' t'

section Pulls

variable (h : g.Repinned ρ g')
include h

theorem copyPin_inStep (hs : s.Beside g g' s') {src i : PinId}
    (hsrc : ∃ q, g.pins.get? src = some q) (hi : ∃ pin, g.pins.get? i = some pin) :
    InStep (attempt k (Graph.copyPin src i)) (attempt k (Graph.copyPin (ρ src) (ρ i))) s s'
      fun _ _ t t' => t.Beside g g' t' := by
  obtain ⟨q, q', hq, hq', -, -, htype⟩ := hs.pin h hsrc
  have hset := setPin_inStep (k := k) h hs hi htype
  unfold InStep attempt at hset ⊢
  simp only [bind_apply, edit, Graph.copyPin_eq, hq, hq'] at hset ⊢
  exact hset

theorem refreshInput_inStep {pull : NodeId → Eval Unit} (hpull : PullInStep g g' pull)
    (hs : s.Beside g g' s') {i : PinId} (hi : ∃ pin, g.pins.get? i = some pin) :
    InStep (refreshInput pull k i) (refreshInput pull k (ρ i)) s s'
      fun _ _ t t' => t.Beside g g' t' := by
  obtain ⟨pin, pin', hpin, hpin', hname, -, htype⟩ := hs.pin h hi
  have hflow : pin'.isFlow = pin.isFlow := congrArg ValueType.isFlow htype
  obtain ⟨pin₀, hpin₀⟩ := hi
  refine inStep_bind (inStep_graph ?_)
  simp only [hpin, hpin', hflow, hname]
  split
  · exact hs
  · rw [Graph.feedingPin?_of_frame hs.framed, Graph.feedingPin?_of_frame hs.framed', h.feeds hpin₀]
    cases hsrc : g.feedingPin? i with
    | none => exact inStep_fail
    | some src =>
      have hknown := h.sources hsrc
      obtain ⟨q, q', hq, hq', -, hnode, -⟩ := hs.pin h hknown
      simp only [Option.map_some, hq, hq', hnode]
      have hpure : s'.graph.isPure q.node = s.graph.isPure q.node := by
        rw [Graph.isPure_of_frame hs.framed, Graph.isPure_of_frame hs.framed', h.isPure]
      rw [hpure]
      by_cases hp : s.graph.isPure q.node = true
      · simp only [if_pos hp]
        exact inStep_bind ((hpull q.node s s' hs).mono fun _ _ t t' ht =>
          copyPin_inStep h ht hknown ⟨pin₀, hpin₀⟩)
      · simp only [if_neg hp]
        exact copyPin_inStep h hs hknown ⟨pin₀, hpin₀⟩

theorem evaluateWith_inStep {pull : NodeId → Eval Unit} (hpull : PullInStep g g' pull)
    (hs : s.Beside g g' s') :
    InStep (evaluateWith pull k) (evaluateWith pull k) s s' fun _ _ t t' => t.Beside g g' t' := by
  refine inStep_bind (InStep.mono (Q := fun _ _ t t' => t.Beside g g' t') ?_ fun _ _ t t' ht =>
    runNode_inStep h ht)
  refine inStep_bind (inStep_graph ?_)
  rw [Graph.nodes_of_frame hs.framed, Graph.nodes_of_frame hs.framed', h.get?_node]
  cases hn : g.nodes.get? k with
  | none => exact inStep_fail
  | some n =>
    refine inStep_forM n.inputs hs fun i hi t t' ht => ?_
    exact refreshInput_inStep h hpull ht (h.listed hn (d := .input) hi)

theorem pull_inStep (depth : Nat) : PullInStep g g' (pull depth) := by
  induction depth with
  | zero => exact fun _ _ _ _ => trivial
  | succ depth ih =>
    intro k s s' hs
    refine inStep_bind (inStep_evaluator ?_)
    rw [hs.evaluator]
    split
    · exact inStep_fail
    · refine inStep_bind (inStep_updateEvaluator (inStep_andFinally ?_))
      exact (evaluateWith_inStep h ih (hs.count (beginPull k))).mono fun _ _ _ _ ht =>
        ht.count (endPull k)

/-- A node that can be evaluated in one of the graphs can be evaluated in the other. -/
theorem evaluateNode_inStep (hs : s.Beside g g' s') :
    InStep (evaluateNode k) (evaluateNode k) s s' fun _ _ t t' => t.Beside g g' t' := by
  have hdepth : pullDepth s'.graph = pullDepth s.graph := by
    have hsize : g'.nodes.size = g.nodes.size := by
      rw [h.nodes, Table.size_eq_length_keys, Table.size_eq_length_keys, Table.keys_map]
    rw [pullDepth, pullDepth, Graph.nodes_of_frame hs.framed, Graph.nodes_of_frame hs.framed',
      hsize]
  have heval := evaluateWith_inStep (k := k) h (pull_inStep h (pullDepth s.graph)) hs
  unfold InStep at heval ⊢
  simp only [evaluateNode, hdepth]
  exact heval

end Pulls

/-! ## Passes -/

/-- A walk that fails at its first node has visited nothing and kept an error. -/
theorem walk_of_stop {node : NodeId} {stop : Stop} (steps : Nat)
    (hanswer : (evaluateNode node s).answer = .error stop) :
    (walk (steps + 1) node s).session.evaluator.visited = s.evaluator.visited ∧
      (walk (steps + 1) node s).session.evaluator.lastError.isNone = false := by
  have hproper : stop.Proper := (evaluateNode_stops node s).error hanswer
  cases stop with
  | exhausted => exact hproper.elim
  | failed error =>
    obtain ⟨-, -, -, hvisited⟩ := Evaluator.record_eq_record
      ((keptByPulls_record s.evaluator.record).evaluateNode node s rfl)
    rw [walk_of_error hanswer]
    exact ⟨hvisited, rfl⟩

/-- Where the flow is the same, two walks visit the same nodes, and both fail or none. -/
theorem walk_inStep (h : g.Repinned ρ g') (steps : Nat) : ∀ node s s', s.Beside g g' s' →
    (∀ i m, g.flowNode? node i = some m → g'.flowSuccessor? m = g.flowSuccessor? m) →
    (walk steps node s').session.evaluator.visited =
        (walk steps node s).session.evaluator.visited ∧
      (walk steps node s').session.evaluator.lastError.isNone =
        (walk steps node s).session.evaluator.lastError.isNone := by
  induction steps with
  | zero =>
    intro node s s' hs _
    show s'.evaluator.visited = s.evaluator.visited ∧ _ = s.evaluator.lastError.isNone
    rw [← hs.evaluator]
    exact ⟨rfl, rfl⟩
  | succ steps ih =>
    intro node s s' hs hflow
    have heval := evaluateNode_inStep (k := node) h hs
    unfold InStep at heval
    cases ha : (evaluateNode node s).answer with
    | error stop =>
      cases ha' : (evaluateNode node s').answer with
      | ok _ => simp [ha, ha'] at heval
      | error stop' =>
        obtain ⟨hvisited, herror⟩ := walk_of_stop steps ha
        obtain ⟨hvisited', herror'⟩ := walk_of_stop steps ha'
        rw [hvisited, hvisited', herror, herror', hs.evaluator]
        exact ⟨rfl, rfl⟩
    | ok _ =>
      cases ha' : (evaluateNode node s').answer with
      | error stop' => simp [ha, ha'] at heval
      | ok _ =>
        simp only [ha, ha'] at heval
        have hnext : (visitNode node s).session.Beside g g' (visitNode node s').session := by
          rw [visitNode_of_ok ha, visitNode_of_ok ha']
          exact heval.count (Evaluator.visit node)
        rw [walk_of_ok ha rfl, walk_of_ok ha' rfl]
        generalize visitNode node s = ran at hnext ⊢
        generalize visitNode node s' = ran' at hnext ⊢
        rw [hnext.evaluator, Graph.flowSuccessor?_of_frame hnext.framed,
          Graph.flowSuccessor?_of_frame hnext.framed', hflow 0 node rfl]
        split
        · exact ⟨rfl, rfl⟩
        · cases hsucc : g.flowSuccessor? node with
          | none =>
            dsimp only
            rw [hnext.evaluator]
            exact ⟨rfl, rfl⟩
          | some next =>
            -- The flow from the next node is the flow from here, one step on.
            refine ih next _ _ hnext fun i m hm => hflow (i + 1) m ?_
            rw [Graph.flowNode?_next hsucc, hm]

/-- Passes from an entry from which the flow goes the same way have the same success and visit the
    same nodes. -/
theorem runPass_inStep (h : g.Repinned ρ g') (e : Evaluator) {entry : NodeId}
    (hflow : ∀ i m, g.flowNode? entry i = some m → g'.flowSuccessor? m = g.flowSuccessor? m) :
    (runPass entry ⟨e, g'⟩).answer = (runPass entry ⟨e, g⟩).answer ∧
      (runPass entry ⟨e, g'⟩).session.evaluator.visited =
        (runPass entry ⟨e, g⟩).session.evaluator.visited := by
  obtain ⟨hsession, hanswer⟩ := runPass_eq g e entry
  obtain ⟨hsession', hanswer'⟩ := runPass_eq g' e entry
  have hbeside : Session.Beside g g' ⟨e.cleared, g⟩ ⟨e.cleared, g'⟩ := ⟨rfl, rfl, rfl⟩
  obtain ⟨hvisited, herror⟩ := walk_inStep h e.maxFlowSteps entry _ _ hbeside hflow
  rw [hanswer, hanswer', hsession, hsession', hvisited, herror]
  exact ⟨rfl, rfl⟩

end FlowGraph
