import FlowGraph.Proofs.Announcements.Edits
import FlowGraph.Proofs.Run

/-!
# Answers and refusals

What an operation answers (`Command.ask`), and that an operation which says no has done nothing:
the graph is the one before, and nobody was told anything (`refusal_changes_nothing`).  No operation
has to undo anything for that.  Each one looks at everything that could stop it before it makes its
first change; where it then calls another operation, that one cannot be refused any more.
-/

namespace FlowGraph

/-- What an operation answers. -/
inductive Answer where
  | done
  /-- The number of the entity that was made. -/
  | made (number : Nat)
  | refused (cause : GraphError)
  /-- Whether there was something to delete. -/
  | deleted (found : Bool)
  | evaluated (outcome : Except Stop Unit) (evaluator : Evaluator)
  | passed (outcome : Except Stop Bool) (evaluator : Evaluator)

namespace Answer

/-- The answer of an operation that may be refused. -/
def ofExcept {α : Type} (answer : α → Answer) : Except GraphError α → Answer
  | .ok a => answer a
  | .error cause => .refused cause

/-- The operation was refused, or found nothing to delete. -/
def isNo : Answer → Bool
  | refused _ | deleted false => true
  | _ => false

end Answer

/-- An evaluation as an edit that answers how it ended and what the evaluator counted. -/
def Eval.asked {α : Type} (m : Eval α) (e : Evaluator) : Edit (Except Stop α × Evaluator) :=
  fun g =>
    let ran := m ⟨e, g⟩
    ⟨(ran.answer, ran.session.evaluator), ran.session.graph, ran.reports⟩

namespace Command

open Edit

/-- Does the operation and gives its answer. -/
def ask : Command → Edit Answer
  | addNode behavior => (.made ·.number) <$> Graph.addNode behavior
  | createNode type => .ofExcept (.made ·.number) <$> Graph.createNode type
  | deleteNode node => .deleted <$> Graph.deleteNode node
  | renameNode node name => (fun _ => .done) <$> update (Graph.renameNode node name)
  | relayout node => .ofExcept (fun _ => .done) <$> Graph.relayout node
  | bindNode node property => .ofExcept (fun _ => .done) <$> Graph.bindNode node property
  | deletePin pin => .deleted <$> Graph.deletePin pin
  | setPin pin value => .ofExcept (fun _ => .done) <$> Graph.setPin pin value
  | createLink a b => .ofExcept (.made ·.number) <$> Graph.createLink a b
  | deleteLink link => .deleted <$> Graph.deleteLink link
  | createProperty name value parent =>
    .ofExcept (.made ·.number) <$> Graph.createProperty name value parent
  | setProperty property value =>
    .ofExcept (fun _ => .done) <$> Graph.setProperty property value
  | deleteProperty property => .deleted <$> Graph.deleteProperty property
  | rename name => (fun _ => .done) <$> update fun g => { g with name := name }
  | allocate => .made <$> Edit.allocate
  | refreshInputs evaluator node =>
    (fun r => .evaluated r.1 r.2) <$> (FlowGraph.refreshInputs node).asked evaluator
  | evaluateNode evaluator node =>
    (fun r => .evaluated r.1 r.2) <$> (FlowGraph.evaluateNode node).asked evaluator
  | runPass evaluator entry =>
    (fun r => .passed r.1 r.2) <$> (FlowGraph.runPass entry).asked evaluator

/-- Asking for the answer changes nothing about what the operation does. -/
theorem ask_graph (c : Command) (g : Graph) : (c.ask g).graph = (c.perform g).graph := by
  cases c <;> rfl

theorem ask_reports (c : Command) (g : Graph) : (c.ask g).reports = (c.perform g).reports := by
  cases c <;> simp [ask, perform] <;> rfl

end Command

/-! ## Edits that say no -/

namespace Edit

variable {α β : Type} {no : α → Prop}

/-- An answer of the kind `no` means that nothing happened. -/
def Clean (no : α → Prop) (e : Edit α) : Prop :=
  ∀ g, no (e g).answer → (e g).graph = g ∧ (e g).reports = []

theorem Clean.of_never {e : Edit α} (h : ∀ g, ¬ no (e g).answer) : Clean no e :=
  fun g hno => absurd hno (h g)

theorem Clean.map {e : Edit α} (h : Clean no e) {f : α → β} {no' : β → Prop}
    (hf : ∀ a, no' (f a) → no a) : Clean no' (f <$> e) := by
  intro g hno
  obtain ⟨hgraph, hreports⟩ := h g (hf _ hno)
  exact ⟨hgraph, by rw [map_reports, hreports]⟩

/-- The refusals of an edit change nothing. -/
abbrev Refuses (e : Edit (Except GraphError α)) : Prop := e.Clean fun r => r.isOk = false

/-- A deletion that finds nothing changes nothing. -/
abbrev Misses (e : Edit Bool) : Prop := e.Clean fun found => found = false

theorem Refuses.ask {e : Edit (Except GraphError α)} (h : Refuses e) {answer : α → Answer}
    (hyes : ∀ a, (answer a).isNo = false) :
    Clean (fun r => r.isNo = true) (Answer.ofExcept answer <$> e) := by
  refine h.map fun r hno => ?_
  cases r with
  | ok a => exact absurd (hyes a) (by rw [Answer.ofExcept] at hno; simp [hno])
  | error cause => rfl

theorem Misses.ask {e : Edit Bool} (h : Misses e) :
    Clean (fun r => r.isNo = true) (Answer.deleted <$> e) := by
  refine h.map fun found hno => ?_
  cases found with
  | true => cases hno
  | false => rfl

end Edit

namespace Graph

open Edit

variable {g : Graph}

theorem createNode_refuses (type : String) : Refuses (createNode type) := by
  intro g hno
  cases ht : g.registry.get? type with
  | none => simp [createNode, ht]
  | some t => simp [createNode, ht, Except.isOk, Except.toBool] at hno

theorem deleteNode_misses (id : NodeId) : Misses (deleteNode id) := by
  intro g hno
  cases hn : g.nodes.get? id with
  | none => simp [deleteNode, hn]
  | some n => simp [deleteNode, hn] at hno

theorem deletePin_misses (id : PinId) : Misses (deletePin id) := by
  intro g hno
  cases hp : g.pins.get? id with
  | none => simp [deletePin, hp]
  | some pin => simp [deletePin, hp] at hno

theorem deleteLink_misses (id : LinkId) : Misses (deleteLink id) := by
  intro g hno
  cases hl : g.links.get? id with
  | none => simp [deleteLink, hl]
  | some link => simp [deleteLink, hl] at hno

theorem deleteProperty_misses (id : PropertyId) : Misses (deleteProperty id) := by
  intro g hno
  by_cases hp : g.properties.contains id = true
  · simp [deleteProperty, hp] at hno
  · simp [deleteProperty, hp]

/-- A node that is there with its behavior gets its new layout. -/
theorem relayout_answer {id : NodeId} {n : Node} {b : Behavior} (hn : g.nodes.get? id = some n)
    (hb : n.behavior = some b) : (relayout id g).answer = .ok () := by
  simp [relayout, hn, hb]

theorem relayout_refuses (id : NodeId) : Refuses (relayout id) := by
  intro g hno
  cases hn : g.nodes.get? id with
  | none => simp [relayout, hn]
  | some n =>
    cases hb : n.behavior with
    | none => simp [relayout, hn, hb]
    | some b =>
      rw [relayout_answer hn hb] at hno
      cases hno

/-- The layout after a new binding cannot be refused: the node was found with a behavior, and it
    has one again. -/
theorem bindNode_answer {k : NodeId} {p : PropertyId} {n : Node} {b' : Behavior}
    (hn : g.nodes.get? k = some n) (hbind : bindNode k p g = relayout k (g.withBehavior k b')) :
    (bindNode k p g).answer = .ok () := by
  rw [hbind]
  refine relayout_answer (n := { n with behavior := some b' }) ?_ rfl
  simp [withBehavior, hn]

theorem bindNode_refuses (k : NodeId) (p : PropertyId) : Refuses (bindNode k p) := by
  intro g hno
  rcases bindNode_cases k p g with ⟨cause, hg⟩ | ⟨n, b, b', -, hn, -, -, hg⟩
  · rw [hg]
    exact ⟨rfl, rfl⟩
  · rw [bindNode_answer hn hg] at hno
    cases hno

theorem setPin_refuses (id : PinId) (v : Value) : Refuses (setPin id v) := by
  intro g hno
  rcases setPin_cases id v g with ⟨cause, hg, -⟩ | ⟨pin, -, -, hg⟩
  · rw [hg]
    exact ⟨rfl, rfl⟩
  · rw [hg] at hno
    cases hno

theorem createLink_refuses (a b : PinId) : Refuses (createLink a b) := by
  intro g hno
  rcases createLink_cases a b g with ⟨-, hg⟩ | ⟨p, q, -, -, -, hok, -⟩
  · exact hg
  · rw [hok] at hno
    cases hno

theorem createProperty_refuses (name : String) (v : Value) (parent : Option PropertyId) :
    Refuses (createProperty name v parent) := by
  intro g hno
  rcases createProperty_cases name v parent g with ⟨q, -, -, hg⟩ | ⟨-, hg⟩
  · rw [hg]
    exact ⟨rfl, rfl⟩
  · rw [hg] at hno
    cases hno

theorem setProperty_refuses (id : PropertyId) (v : Value) : Refuses (setProperty id v) := by
  intro g hno
  rcases setProperty_cases id v g with ⟨cause, hg, -⟩ | ⟨q, -, -, g', -, hg⟩
  · rw [hg]
    exact ⟨rfl, rfl⟩
  · rw [hg] at hno
    cases hno

theorem ask_clean (c : Command) : Clean (fun r => r.isNo = true) c.ask := by
  cases c with
  | createNode type => exact (createNode_refuses type).ask fun _ => rfl
  | deleteNode node => exact (deleteNode_misses node).ask
  | relayout node => exact (relayout_refuses node).ask fun _ => rfl
  | bindNode node p => exact (bindNode_refuses node p).ask fun _ => rfl
  | deletePin pin => exact (deletePin_misses pin).ask
  | setPin pin v => exact (setPin_refuses pin v).ask fun _ => rfl
  | createLink a b => exact (createLink_refuses a b).ask fun _ => rfl
  | deleteLink link => exact (deleteLink_misses link).ask
  | createProperty name v parent => exact (createProperty_refuses name v parent).ask fun _ => rfl
  | setProperty p v => exact (setProperty_refuses p v).ask fun _ => rfl
  | deleteProperty p => exact (deleteProperty_misses p).ask
  | _ => exact .of_never fun g hno => by cases hno

/-! ## What decides -/

/-- Whether two pins get linked is settled by the pins as they are before the old link of the input
    goes. -/
theorem createLink_isOk_iff {a b : PinId} :
    (createLink a b g).answer.isOk = true ↔ g.canConnect? a b = some (true, true) := by
  cases ha : g.pins.get? a with
  | none => simp [createLink, canConnect?, ha, Except.isOk, Except.toBool]
  | some p =>
    cases hb : g.pins.get? b with
    | none => simp [createLink, canConnect?, ha, hb, Except.isOk, Except.toBool]
    | some q =>
      have hcomm : q.canConnect p = p.canConnect q := q.canConnect_comm p
      by_cases hpq : p.canConnect q = true <;>
        simp [createLink, canConnect?, ha, hb, hcomm, hpq, Except.isOk, Except.toBool]

/-- Whether a node gets bound is settled by the property and the kind of the node, not by what
    becomes of its pins. -/
theorem bindNode_isOk_iff {k : NodeId} {p : PropertyId} :
    (bindNode k p g).answer.isOk = true ↔ g.properties.contains p = true ∧
      ∃ n b, g.nodes.get? k = some n ∧ n.behavior = some b ∧ (b.bind? p).isSome = true := by
  constructor
  · intro hok
    rcases bindNode_cases k p g with ⟨cause, hg⟩ | ⟨n, b, b', hp, hn, hb, hbind, -⟩
    · rw [hg] at hok
      cases hok
    · exact ⟨(Table.mem_keys_iff _ _).mp hp, n, b, hn, hb, by rw [hbind]; rfl⟩
  · rintro ⟨hp, n, b, hn, hb, hsome⟩
    obtain ⟨b', hbind⟩ := Option.isSome_iff_exists.mp hsome
    have hrelayout : bindNode k p g = relayout k (g.withBehavior k b') := by
      simp only [bindNode, current_bind, hp, hn, hb, hbind]
      rfl
    rw [bindNode_answer hn hrelayout]
    rfl

/-- An operation that says no leaves the graph as it was and reports nothing.  In particular a link
    is only evicted for one whose pins fit, and a binding is only changed where it may be. -/
theorem refusal_changes_nothing (g : Graph) :
    (∀ c : Command, (c.ask g).answer.isNo = true →
      (c.ask g).graph = g ∧ (c.ask g).reports = []) ∧
    (∀ a b, (createLink a b g).answer.isOk = true ↔ g.canConnect? a b = some (true, true)) ∧
    ∀ k p, (bindNode k p g).answer.isOk = true ↔ g.properties.contains p = true ∧
      ∃ n b, g.nodes.get? k = some n ∧ n.behavior = some b ∧ (b.bind? p).isSome = true :=
  ⟨fun c => ask_clean c g, fun _ _ => createLink_isOk_iff, fun _ _ => bindNode_isOk_iff⟩

/-- A constant linked to the input of a log node. -/
def fedLog : Graph :=
  (Command.performAll [.addNode (.floatConstant 1), .addNode (.logValue "sum"),
    .createLink ⟨2⟩ ⟨6⟩] (Graph.new "fed" .builtin)).graph

/-- The input keeps its link when a pin of another type is to be linked to it. -/
theorem refused_link_keeps_fedLog :
    ((Command.createLink ⟨5⟩ ⟨6⟩).ask fedLog).answer.isNo = true ∧
      (fedLog.pins.get? ⟨6⟩).map (·.links) = some [⟨8⟩] ∧
      ((Command.createLink ⟨5⟩ ⟨6⟩).ask fedLog).graph = fedLog ∧
      ((Command.createLink ⟨5⟩ ⟨6⟩).ask fedLog).reports = [] := by
  have hno : ((Command.createLink ⟨5⟩ ⟨6⟩).ask fedLog).answer.isNo = true := by decide +kernel
  exact ⟨hno, by decide +kernel, (refusal_changes_nothing fedLog).1 _ hno⟩

end Graph

end FlowGraph
