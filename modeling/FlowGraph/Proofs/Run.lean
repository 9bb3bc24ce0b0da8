import FlowGraph.Proofs.Document.Load
import FlowGraph.Proofs.Evaluation.Frame
import FlowGraph.Proofs.Graph.Allocation
import FlowGraph.Proofs.Graph.Layout

/-!
# Runs

A run applies operations to a graph one after the other, starting from an empty or a loaded graph;
evaluations count as operations, each with an evaluator of its own.  `Sound` holds all along a run
as long as the counter does not come to its end, which takes more new ids than there are numbers
above the highest id of a document (`Reaches`).  That the counter never goes back is read off the
accounts of the operations (`perform_booked`).
-/

namespace FlowGraph

/-- An evaluation as an edit of the graph it runs on. -/
def Eval.on {α : Type} (m : Eval α) (e : Evaluator) : Edit (Except Stop α) := fun g =>
  let ran := m ⟨e, g⟩
  ⟨ran.answer, ran.session.graph, ran.reports⟩

/-- An operation on a graph. -/
inductive Command where
  | addNode (behavior : Behavior)
  | createNode (type : String)
  | deleteNode (node : NodeId)
  | renameNode (node : NodeId) (name : String)
  | relayout (node : NodeId)
  | bindNode (node : NodeId) (property : PropertyId)
  | deletePin (pin : PinId)
  | setPin (pin : PinId) (value : Value)
  | createLink (a b : PinId)
  | deleteLink (link : LinkId)
  | createProperty (name : String) (value : Value) (parent : Option PropertyId)
  | setProperty (property : PropertyId) (value : Value)
  | deleteProperty (property : PropertyId)
  | rename (name : String)
  | allocate
  | refreshInputs (evaluator : Evaluator) (node : NodeId)
  | evaluateNode (evaluator : Evaluator) (node : NodeId)
  | runPass (evaluator : Evaluator) (entry : NodeId)

namespace Command

open Edit

/-- Does the operation; its answer is not looked at. -/
def perform : Command → Edit Unit
  | addNode behavior => discard (Graph.addNode behavior)
  | createNode type => discard (Graph.createNode type)
  | deleteNode node => discard (Graph.deleteNode node)
  | renameNode node name => update (Graph.renameNode node name)
  | relayout node => discard (Graph.relayout node)
  | bindNode node property => discard (Graph.bindNode node property)
  | deletePin pin => discard (Graph.deletePin pin)
  | setPin pin value => discard (Graph.setPin pin value)
  | createLink a b => discard (Graph.createLink a b)
  | deleteLink link => discard (Graph.deleteLink link)
  | createProperty name value parent => discard (Graph.createProperty name value parent)
  | setProperty property value => discard (Graph.setProperty property value)
  | deleteProperty property => discard (Graph.deleteProperty property)
  | rename name => update fun g => { g with name := name }
  | allocate => discard Edit.allocate
  | refreshInputs evaluator node => discard ((FlowGraph.refreshInputs node).on evaluator)
  | evaluateNode evaluator node => discard ((FlowGraph.evaluateNode node).on evaluator)
  | runPass evaluator entry => discard ((FlowGraph.runPass entry).on evaluator)

/-- Does the operations in order. -/
def performAll (commands : List Command) : Edit Unit := commands.forM perform

theorem performAll_append (before after : List Command) :
    performAll (before ++ after) = performAll before >>= fun _ => performAll after :=
  List.forM_append

end Command

namespace Graph

open Edit

/-- A graph a run may start from. -/
inductive Starts : Graph → Prop where
  | new (name : String) (registry : Registry) : Starts (Graph.new name registry)
  | loaded {registry : Registry} {d : GraphDocument} {g : Graph} {repairs : List Repair}
      (h : d.load registry = .ok (g, repairs)) : Starts g

/-- Some operations lead from one graph to the other and ask for fewer new ids than there are
    numbers above the highest id of a document. -/
structure Reaches (start g : Graph) : Prop where
  run : ∃ commands, (Command.performAll commands start).graph = g
  ids : g.nextId - start.nextId < 0x7fffffffffffffff

variable {g : Graph}

theorem Starts.sound (h : g.Starts) : g.Sound := by
  cases h with
  | new name registry => exact .new name registry
  | loaded h => exact (load_sound h).1

theorem Starts.nextId_le (h : g.Starts) : g.nextId ≤ maxDocumentId + 1 := by
  cases h with
  | new name registry => exact Nat.le_add_left 1 _
  | loaded h => exact (load_sound h).2

/-- There are numbers left as long as fewer new ones were asked for than there are above the highest
    id of a document. -/
theorem Starts.nextId_lt {start : Graph} (h : start.Starts)
    (hids : g.nextId - start.nextId < 0x7fffffffffffffff) : g.nextId < lastNumber := by
  have hstart := h.nextId_le
  simp only [maxDocumentId, lastNumber] at hstart ⊢
  omega

theorem Reaches.nextId_lt {start : Graph} (h : start.Reaches g) (hs : start.Starts) :
    g.nextId < lastNumber := hs.nextId_lt h.ids

/-- A run can go on. -/
theorem Reaches.performAll {start : Graph} (h : start.Reaches g) {commands : List Command}
    (hids : (Command.performAll commands g).graph.nextId - start.nextId < 0x7fffffffffffffff) :
    start.Reaches (Command.performAll commands g).graph where
  run := by
    obtain ⟨done, rfl⟩ := h.run
    exact ⟨done ++ commands, by rw [Command.performAll_append, bind_graph]⟩
  ids := hids

/-! ## The numbers of every operation -/

/-- An evaluation neither asks for a number nor adds anything. -/
theorem keptByParts_inventory (x : Nat × List NodeId × List PinId × List LinkId × List PropertyId) :
    KeptByParts fun s => s.graph.inventory = x :=
  keptByParts_view inventory (fun _ _ _ => by simp [inventory]) (fun _ _ _ => by simp [inventory])
    (fun _ _ _ => by simp [inventory, setBehavior]) x

theorem on_shrinks {α : Type} {m : Eval α} (h : ∀ x, m.Keeps fun s => s.graph.inventory = x)
    (e : Evaluator) : Edit.Shrinks (m.on e) := fun g => .of_inventory (h _ ⟨e, g⟩ rfl)

theorem perform_booked (c : Command) : Edit.Booked c.perform := by
  cases c with
  | addNode b => exact (addNode_booked b).discard
  | createNode type => exact (createNode_booked type).discard
  | deleteNode node => exact (deleteNode_shrinks node).booked.discard
  | renameNode node name => exact (changeNode_shrinks node _).booked
  | relayout node => exact (relayout_booked node).discard
  | bindNode node p => exact (bindNode_booked node p).discard
  | deletePin pin => exact (deletePin_shrinks pin).booked.discard
  | setPin pin v =>
    refine Edit.Booked.discard (Edit.Shrinks.booked fun g => .of_inventory ?_)
    rcases setPin_cases pin v g with ⟨_, hg, -⟩ | ⟨_, -, -, hg⟩ <;> simp [hg, inventory]
  | createLink a b => exact (createLink_booked a b).discard
  | deleteLink link => exact (deleteLink_shrinks link).booked.discard
  | createProperty name v parent => exact (createProperty_booked name v parent).discard
  | setProperty p v =>
    refine Edit.Booked.discard (Edit.Shrinks.booked fun g => .of_inventory ?_)
    rcases setProperty_cases p v g with ⟨_, hg, -⟩ | ⟨_, -, -, _, rfl, hg⟩ <;> simp [hg, inventory]
  | deleteProperty p => exact (deleteProperty_shrinks p).booked.discard
  | rename name => exact Edit.Shrinks.booked fun g => .of_inventory rfl
  | allocate => exact .allocating (fun _ _ => rfl) .counted
  | refreshInputs e node =>
    exact (on_shrinks (fun x => (keptByParts_inventory x).refreshInputs node) e).booked.discard
  | evaluateNode e node =>
    exact (on_shrinks (fun x => (keptByParts_inventory x).evaluateNode node) e).booked.discard
  | runPass e entry =>
    exact (on_shrinks (fun x => (keptByParts_inventory x).runPass entry) e).booked.discard

theorem perform_counts (c : Command) : Counts c.perform := (perform_booked c).counts

/-- What holds at the start and is kept by every operation holds all along a run. -/
theorem performAll_keeps {P : Graph → Prop}
    (hstep : ∀ c g, P g → (Command.perform c g).graph.nextId < lastNumber →
      P (Command.perform c g).graph)
    {start : Graph} (h : P start) {commands : List Command}
    (hlast : (Command.performAll commands start).graph.nextId < lastNumber) :
    P (Command.performAll commands start).graph :=
  forM_steps (Q := fun _ g => P g) perform_counts (fun _ c g hq => hstep c g hq) commands h hlast

/-! ## Soundness -/

theorem Sound.on {α : Type} (h : g.Sound) {m : Eval α} (hm : m.Keeps (Session.Framed g))
    (e : Evaluator) : (m.on e g).graph.Sound :=
  h.of_frame (hm ⟨e, g⟩ rfl)

/-- Every operation keeps a graph sound unless it runs the counter to its end. -/
theorem Sound.perform (h : g.Sound) (c : Command)
    (hlast : (c.perform g).graph.nextId < lastNumber) : (c.perform g).graph.Sound := by
  cases c with
  | addNode b => exact h.addNode hlast
  | createNode type => exact h.createNode hlast
  | deleteNode node => exact h.deleteNode node
  | renameNode node name => exact h.renameNode node name
  | relayout node => exact h.relayout hlast
  | bindNode node p => exact h.bindNode hlast
  | deletePin pin => exact h.deletePin pin
  | setPin pin v => exact h.of_frame (setPin_frame h.intact.indexed pin v)
  | createLink a b => exact h.createLink hlast
  | deleteLink link => exact h.deleteLink link
  | createProperty name v parent => exact h.createProperty hlast
  | setProperty p v => exact h.of_frame (setProperty_frame h.intact.indexed p v)
  | deleteProperty p => exact h.deleteProperty p
  | rename name =>
    exact ⟨h.intact.congr rfl rfl rfl rfl, ⟨h.numbered.distinct, h.numbered.below⟩,
      ⟨h.staffed.staff⟩, h.grouped.congr rfl⟩
  | allocate => exact h.counted hlast
  | refreshInputs e node =>
    exact h.on ((keptByParts_framed h.intact.indexed).refreshInputs node) e
  | evaluateNode e node =>
    exact h.on ((keptByParts_framed h.intact.indexed).evaluateNode node) e
  | runPass e entry => exact h.on ((keptByParts_framed h.intact.indexed).runPass entry) e

theorem Reaches.sound {start : Graph} (h : start.Reaches g) (hs : start.Starts) : g.Sound := by
  obtain ⟨commands, rfl⟩ := h.run
  exact performAll_keeps (fun c _ hg hlast => hg.perform c hlast) hs.sound (h.nextId_lt hs)

/-- Apart from those on properties, an operation takes pins away or gives one node those it
    declares. -/
theorem Sound.perform_repins (hs : g.Sound) (c : Command)
    (hlast : (c.perform g).graph.nextId < lastNumber) :
    Repins g (c.perform g).graph ∨
      (∃ name v parent, c = .createProperty name v parent) ∨ ∃ p, c = .deleteProperty p := by
  have hindexed := hs.intact.indexed
  have hframe : ∀ {g' : Graph}, g'.frame = g.frame → Repins g g' :=
    fun hf => .thins (thins_of_frame hf)
  cases c with
  | createProperty name v parent => exact .inr (.inl ⟨name, v, parent, rfl⟩)
  | deleteProperty p => exact .inr (.inr ⟨p, rfl⟩)
  | addNode b => exact .inl (.lays (hs.lays_addNode hlast))
  | createNode type => exact .inl (hs.repins_createNode hlast)
  | deleteNode node =>
    refine .inl (.thins fun k => ?_)
    show Thins k g (Graph.deleteNode node g).graph
    rw [deleteNode_graph hs.intact]
    exact thins_without k _ _ _
  | renameNode node name => exact .inl (.thins fun k => thins_renameNode k node name)
  | relayout node => exact .inl (hs.repins_relayout hlast)
  | bindNode node p => exact .inl (hs.repins_bindNode hlast)
  | deletePin pin =>
    refine .inl (.thins fun k => ?_)
    show Thins k g (Graph.deletePin pin g).graph
    rw [deletePin_graph hs.intact]
    exact thins_without k _ _ _
  | setPin pin v => exact .inl (hframe (setPin_frame hindexed pin v))
  | createLink a b => exact .inl (.thins fun k => hs.intact.thins_createLink k a b)
  | deleteLink link =>
    refine .inl (.thins fun k => ?_)
    show Thins k g (Graph.deleteLink link g).graph
    rw [deleteLink_graph hs.intact]
    exact thins_without k _ _ _
  | setProperty p v => exact .inl (hframe (setProperty_frame hindexed p v))
  | rename name =>
    exact .inl (.thins fun _ => ⟨fun hn => ⟨_, hn, rfl, fun _ => .refl _, fun _ _ _ => rfl⟩,
      fun _ => rfl⟩)
  | allocate => exact .inl (.thins fun k => thins_counted k)
  | refreshInputs e node =>
    exact .inl (hframe ((keptByParts_framed hindexed).refreshInputs node ⟨e, g⟩ rfl))
  | evaluateNode e node =>
    exact .inl (hframe ((keptByParts_framed hindexed).evaluateNode node ⟨e, g⟩ rfl))
  | runPass e entry =>
    exact .inl (hframe ((keptByParts_framed hindexed).runPass entry ⟨e, g⟩ rfl))

/-- Every operation but loading leaves the nodes with the pins they declare. -/
theorem Laid.perform (h : g.Laid) (hs : g.Sound) (c : Command)
    (hlast : (c.perform g).graph.nextId < lastNumber) : (c.perform g).graph.Laid := by
  rcases hs.perform_repins c hlast with hr | ⟨name, v, parent, rfl⟩ | ⟨p, rfl⟩
  · exact h.repins hr
  · exact h.createProperty hs name v parent
  · exact h.deleteProperty hs p

theorem Reaches.laid {name : String} {registry : Registry}
    (h : (Graph.new name registry).Reaches g) : g.Laid := by
  have hlast := h.nextId_lt (.new name registry)
  obtain ⟨commands, rfl⟩ := h.run
  refine (performAll_keeps (P := fun g => g.Sound ∧ g.Laid) ?_
    ⟨.new name registry, .new name registry⟩ hlast).2
  intro c g hg hl
  exact ⟨hg.1.perform c hl, hg.2.perform hg.1 c hl⟩

/-- In every state of every run all references lead somewhere and agree in both directions, and
    each pin lists each of its links once, in the order of the links. -/
theorem references_stay_intact {start : Graph} (hs : start.Starts) (h : start.Reaches g) :
    g.Intact ∧ ∀ {p pin}, g.pins.get? p = some pin → pin.links.Nodup := by
  have hintact := (h.sound hs).intact
  refine ⟨hintact, fun hp => ?_⟩
  rw [hintact.entered hp]
  exact nodup_linksAt hintact.links _

theorem references_stay_intact_chain :
    (Command.performAll
      [.addNode (.floatConstant 1), .addNode (.logValue "sum"), .createLink ⟨2⟩ ⟨6⟩, .relayout ⟨3⟩]
      (Graph.new "chain" .builtin)).graph.Intact :=
  (references_stay_intact (.new _ _) ⟨⟨_, rfl⟩, by decide +kernel⟩).1

end Graph

end FlowGraph
