import FlowGraph.Proofs.Announcements.Edits
import FlowGraph.Proofs.Evaluation.Bodies
import FlowGraph.Proofs.Evaluation.Branches

/-!
# What a step writes to properties

A step that writes to properties tells of each write, with the graph in which the property holds
the new value already, and leaves the properties with what was written to them last
(`Ran.Wrote`).  Writes of steps that follow each other are appended.

A body writes only if its behavior stores (`Behavior.stores`).  Where the pure nodes of a graph hold
behaviors that do not, refreshing inputs writes nothing, however deep the pulls go
(`pull_silent`).
-/

namespace FlowGraph

open Eval

/-- The value that was written last to a property. -/
def lastWritten (writes : List (PropertyId × Value)) (p : PropertyId) : Option Value :=
  writes.reverse.lookup p

@[simp] theorem lastWritten_nil (p : PropertyId) : lastWritten [] p = none := rfl

theorem lastWritten_singleton (p q : PropertyId) (v : Value) :
    lastWritten [(p, v)] q = if q = p then some v else none := by
  simp only [lastWritten, List.reverse_singleton, List.lookup_cons, List.lookup_nil]
  by_cases h : q = p
  · simp [h]
  · simp [h, beq_false_of_ne h]

theorem lastWritten_append (first later : List (PropertyId × Value)) (p : PropertyId) :
    lastWritten (first ++ later) p = (lastWritten later p).or (lastWritten first p) := by
  rw [lastWritten, List.reverse_append, List.lookup_append]
  rfl

/-- Since the graph was `g` these values were written, in this order: observers were told of each
    once the property held it, and each property holds what was written to it last, or what it held
    in `g`. -/
structure Ran.Wrote {α : Type} (ran : Ran α) (g : Graph) (writes : List (PropertyId × Value)) :
    Prop where
  told : heardStores (heard ran.reports) = writes.map fun w => (w.1, some w.2)
  held : ∀ p, ran.session.graph.propertyValue? p = (lastWritten writes p).or (g.propertyValue? p)

namespace Ran.Wrote

variable {α β γ : Type} {g : Graph} {writes first later : List (PropertyId × Value)}

/-- Nothing was written. -/
theorem none {ran : Ran α} (hes : heard ran.reports = [])
    (hvalues : ∀ p, ran.session.graph.propertyValue? p = g.propertyValue? p) : ran.Wrote g [] where
  told := by rw [hes]; rfl
  held := hvalues

/-- What was written first and what was written from there on. -/
theorem append {ran : Ran α} {rest : Ran β} (h : ran.Wrote g first)
    (h' : rest.Wrote ran.session.graph later) (answer : Except Stop γ) (e : Evaluator) :
    Ran.Wrote ⟨answer, ⟨e, rest.session.graph⟩, ran.reports ++ rest.reports⟩ g
      (first ++ later) where
  told := by rw [heard_append, heardStores_append, h.told, h'.told, List.map_append]
  held p := by rw [lastWritten_append, Option.or_assoc, ← h.held, h'.held]

/-- Neither the answer nor the evaluator matters. -/
theorem of_same {ran : Ran α} (h : ran.Wrote g writes) (answer : Except Stop β) (e : Evaluator) :
    Ran.Wrote ⟨answer, ⟨e, ran.session.graph⟩, ran.reports⟩ g writes :=
  ⟨h.told, h.held⟩

/-- A step and what comes after its success. -/
theorem bind_ok {m : Eval α} {f : α → Eval β} {s : Session} {a : α} (h : (m s).Wrote g first)
    (ha : (m s).answer = .ok a) (h' : ((f a) (m s).session).Wrote (m s).session.graph later) :
    ((m >>= f) s).Wrote g (first ++ later) := by
  rw [bind_apply, ha]
  exact h.append h' _ _

/-- A step that fails is all that is done. -/
theorem bind_error {m : Eval α} {f : α → Eval β} {s : Session} {stop : Stop}
    (h : (m s).Wrote g writes) (ha : (m s).answer = .error stop) : ((m >>= f) s).Wrote g writes := by
  rw [bind_apply, ha]
  exact h.of_same _ _

end Ran.Wrote

/-! ## Steps that write nothing -/

/-- Wherever `P` holds, the step writes nothing. -/
def Eval.Silent {α : Type} (P : Session → Prop) (m : Eval α) : Prop :=
  ∀ s, P s → (m s).Wrote s.graph []

namespace Eval.Silent

variable {α β : Type} {P : Session → Prop} {m : Eval α}

theorem of_same (hes : ∀ s, heard (m s).reports = [])
    (hvalues : ∀ s p, (m s).session.graph.propertyValue? p = s.graph.propertyValue? p) :
    Silent P m := fun s _ => .none (hes s) (hvalues s)

theorem pure (a : α) : Silent P (pure a : Eval α) := of_same (fun _ => rfl) fun _ _ => rfl

theorem fail (error : EvaluationError) : Silent P (fail error : Eval α) :=
  of_same (fun _ => rfl) fun _ _ => rfl

theorem exhaust : Silent P (exhaust : Eval α) := of_same (fun _ => rfl) fun _ _ => rfl

theorem graph : Silent P graph := of_same (fun _ => rfl) fun _ _ => rfl

theorem evaluator : Silent P evaluator := of_same (fun _ => rfl) fun _ _ => rfl

theorem updateEvaluator (f : Evaluator → Evaluator) : Silent P (updateEvaluator f) :=
  of_same (fun _ => rfl) fun _ _ => rfl

theorem report {r : Report} (h : r.heard? = none) : Silent P (report r) :=
  of_same (fun _ => List.filterMap_cons_none h) fun _ _ => rfl

theorem bind {f : α → Eval β} (hm : Silent P m) (hkept : Keeps P m) (hf : ∀ a, Silent P (f a)) :
    Silent P (m >>= f) := by
  intro s hs
  cases ha : (m s).answer with
  | ok a => exact (hm s hs).bind_ok ha (hf a _ (hkept s hs))
  | error stop => exact (hm s hs).bind_error ha

theorem forM {f : α → Eval Unit} (h : ∀ x, Silent P (f x)) (hkept : ∀ x, Keeps P (f x))
    (xs : List α) : Silent P (xs.forM f) := by
  induction xs with
  | nil => exact .pure ()
  | cons x xs ih => exact (h x).bind (hkept x) fun _ => ih

/-- An edit that is silent is silent when it is attempted. -/
theorem attempt {e : Edit (Except GraphError α)}
    (h : ∀ g, heard (e g).reports = [] ∧ ∀ p, (e g).graph.propertyValue? p = g.propertyValue? p)
    (node : NodeId) : Silent (fun _ => True) (attempt node e) := by
  have hedit : Silent (fun _ => True) (edit e) :=
    of_same (fun s => (h s.graph).1) fun s => (h s.graph).2
  refine hedit.bind (fun _ _ => True.intro) fun answer => ?_
  cases answer with
  | ok a => exact .pure a
  | error cause => exact .fail _

theorem mono {Q : Session → Prop} (hm : Silent P m) (h : ∀ s, Q s → P s) : Silent Q m :=
  fun s hs => hm s (h s hs)

/-- What is done in any case may touch neither reports nor properties. -/
theorem finish (hm : Silent P m) {f : Session → Session}
    (hf : ∀ s p, (f s).graph.propertyValue? p = s.graph.propertyValue? p) :
    Silent P (andFinally m f) := fun s hs =>
  ⟨(hm s hs).told, fun p => (hf _ p).trans ((hm s hs).held p)⟩

theorem copyPin (node : NodeId) (source target : PinId) :
    Silent P (FlowGraph.Eval.attempt node (Graph.copyPin source target)) :=
  (attempt (fun g => ⟨(Graph.copyPin_silent source target g).1,
    (Graph.copyPin_silent source target g).2.2⟩) node).mono fun _ _ => True.intro

end Eval.Silent

/-- A store that is not refused is the one write of its attempt. -/
theorem setProperty_wrote {q : PropertyId} {v : Value} {s : Session}
    (h : (Graph.setProperty q v s.graph).answer = .ok ()) (node : NodeId) :
    (attempt node (Graph.setProperty q v) s).Wrote s.graph [(q, v)] := by
  rcases Graph.setProperty_heard q v s.graph with ⟨⟨cause, hno⟩, -⟩ | ⟨-, hes, -, hvalues⟩
  · rw [h] at hno
    cases hno
  · have hedit : (edit (Graph.setProperty q v) s).Wrote s.graph [(q, v)] := by
      refine ⟨?_, fun p => ?_⟩
      · show heardStores (heard (Graph.setProperty q v s.graph).reports) = _
        rw [hes, heardStores_modified, hvalues, if_pos rfl]
        rfl
      · show (Graph.setProperty q v s.graph).graph.propertyValue? p = _
        rw [hvalues, lastWritten_singleton]
        split <;> rfl
    exact hedit.bind_ok (congrArg Except.ok h) (.none rfl fun _ => rfl)

/-! ## Bodies -/

/-- Whatever a body does besides storing is silent. -/
theorem bodyParts_silent (node : NodeId) : BodyParts node fun _ m => Silent (fun _ => True) m where
  pure := .pure
  bind hm hf := hm.bind (fun _ _ => True.intro) hf
  graph := .graph
  missing _ := .fail _
  failed _ := .fail _
  logs _ := .report rfl
  registers _ := .report rfl
  starts _ := .report rfl
  pins p v := .attempt (fun g => ⟨(Graph.setPin_silent p v g).1, (Graph.setPin_silent p v g).2.2⟩) node

theorem body_silent (node : NodeId) {b : Behavior} (hb : b.stores = false) :
    Silent (fun _ => True) (b.body node) :=
  (bodyParts_silent node).body b fun hstores => absurd (hb.symm.trans hstores) Bool.false_ne_true

section Running

variable {s : Session} {k : NodeId} {n : Node} {b : Behavior}

/-- A node runs its body without the behavior in the graph. -/
theorem runNode_eq (hn : s.graph.nodes.get? k = some n) (hb : n.behavior = some b) :
    runNode k s = ⟨(b.body k (s.running k)).answer, (b.body k (s.running k)).session.back k b,
      (b.body k (s.running k)).reports⟩ := by
  simp only [runNode, bind_apply, Eval.graph, hn, hb, edit, Edit.update, andFinally,
    List.nil_append]
  rfl

theorem runNode_wrote (hn : s.graph.nodes.get? k = some n) (hb : n.behavior = some b)
    {writes : List (PropertyId × Value)}
    (h : (b.body k (s.running k)).Wrote (s.running k).graph writes) :
    (runNode k s).Wrote s.graph writes := by
  rw [runNode_eq hn hb]
  exact ⟨h.told, h.held⟩

/-- Only a behavior that stores can write. -/
theorem runNode_silent (h : ∀ n b, s.graph.nodes.get? k = some n → n.behavior = some b →
    b.stores = false) : (runNode k s).Wrote s.graph [] := by
  cases hn : s.graph.nodes.get? k with
  | none =>
    have hrun : runNode k s = ⟨.error (.failed (.nodeNotFound k)), s, []⟩ := by
      simp [runNode, bind_apply, Eval.graph, hn, Eval.fail]
    rw [hrun]
    exact .none rfl fun _ => rfl
  | some n =>
    cases hb : n.behavior with
    | none =>
      have hrun : runNode k s =
          ⟨.error (.failed (.infiniteLoop k s.evaluator.evaluated)), s, []⟩ := by
        simp [runNode, bind_apply, Eval.graph, hn, hb, Eval.evaluator, Eval.fail]
      rw [hrun]
      exact .none rfl fun _ => rfl
    | some b => exact runNode_wrote hn hb (body_silent k (h n b hn hb) _ True.intro)

end Running

/-! ## Pulls -/

/-- The behaviors of pure nodes do not store. -/
def Graph.PureReads (g : Graph) : Prop :=
  ∀ k n b, g.nodes.get? k = some n → n.flow = false → n.behavior = some b → b.stores = false

/-- An input without a pure source is refreshed without a pull, which writes nothing. -/
theorem copyInput_silent {P : Session → Prop} (node : NodeId) (input : PinId) :
    Silent P (refreshInput (fun _ => pure ()) node input) := by
  refine Silent.graph.bind .graph fun g => ?_
  split
  · exact .pure ()
  · split
    · exact .pure ()
    · split
      · exact .fail _
      · split
        · exact .fail _
        · dsimp only
          split
          · exact (Silent.pure ()).bind (.pure ()) fun _ => .copyPin node _ input
          · exact .copyPin node _ input

section Pulls

variable {g : Graph} {depth : Nat}

theorem refreshInput_silent (hg : g.Indexed)
    (hpull : ∀ m, g.isPure m = true → Silent (Session.Framed g) (pull depth m)) (node : NodeId)
    (input : PinId) : Silent (Session.Framed g) (refreshInput (pull depth) node input) := by
  intro s hs
  cases hm : s.graph.pureSource? input with
  | none =>
    rw [refreshInput_of_none hm node (pull depth) fun _ => pure ()]
    exact copyInput_silent node input s hs
  | some m =>
    obtain ⟨src, -, hrefresh⟩ := refreshInput_of_some hm node
    obtain ⟨-, -, -, -, -, -, -, -, hpure⟩ := Graph.pureSource?_eq_some.mp hm
    rw [Graph.isPure_of_frame hs] at hpure
    rw [hrefresh]
    exact (hpull m hpure).bind ((keptByParts_framed hg).pull depth m)
      (fun _ => .copyPin node src input) s hs

theorem refreshInputsWith_silent (hg : g.Indexed)
    (hpull : ∀ m, g.isPure m = true → Silent (Session.Framed g) (pull depth m)) (node : NodeId) :
    Silent (Session.Framed g) (refreshInputsWith (pull depth) node) := by
  have hkept := keptByParts_framed hg
  refine Silent.graph.bind .graph fun g' => ?_
  split
  · exact .fail _
  · exact .forM (refreshInput_silent hg hpull node)
      (refreshInput_keeps _ (hkept.pull depth) hkept.copies node) _

/-- Pulled nodes never write. -/
theorem pull_silent (hg : g.Indexed) (hreads : g.PureReads) (depth : Nat) :
    ∀ m, g.isPure m = true → Silent (Session.Framed g) (pull depth m) := by
  have hkept := keptByParts_framed hg
  induction depth with
  | zero => exact fun _ _ => .exhaust
  | succ depth ih =>
    intro m hpure
    refine Silent.evaluator.bind .evaluator fun e => ?_
    split
    · exact .fail _
    · refine (Silent.updateEvaluator _).bind (fun _ hs => hs) fun _ => ?_
      refine Silent.finish ((refreshInputsWith_silent hg ih m).bind
        (refreshInputsWith_keeps _ (hkept.pull depth) hkept.copies m) fun _ s hs => ?_) fun _ _ => rfl
      refine runNode_silent fun n b hn hb => ?_
      rw [Graph.nodes_of_frame hs] at hn
      obtain ⟨n', hn', hflow⟩ := Graph.isPure_iff.mp hpure
      obtain rfl : n' = n := Option.some.inj (hn'.symm.trans hn)
      exact hreads m n' b hn hflow hb

theorem refreshInputs_silent (hg : g.Indexed) (hreads : g.PureReads) (node : NodeId) :
    Silent (Session.Framed g) (refreshInputs node) := fun s hs =>
  refreshInputsWith_silent hg (pull_silent hg hreads _) node s hs

end Pulls

end FlowGraph
