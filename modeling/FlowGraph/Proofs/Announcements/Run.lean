import FlowGraph.Proofs.Announcements.Evaluation
import FlowGraph.Proofs.Run

/-!
# The announcements of every operation

Whatever is done to a graph that a run came to, the observers hear of each entity that goes, once
and in time, of each store, once and afterwards, and of nothing else (`announcements_exact`).
-/

namespace FlowGraph

/-- The operation makes these stores. -/
def Command.Stores : Command → Graph → List (PropertyId × Value) → Prop
  | .setProperty p v, g, stores =>
    stores = if (Graph.setProperty p v g).answer.isOk then [(p, v)] else []
  | .refreshInputs e node, g, stores => (FlowGraph.refreshInputs node).Stores ⟨e, g⟩ stores
  | .evaluateNode e node, g, stores => (FlowGraph.evaluateNode node).Stores ⟨e, g⟩ stores
  | .runPass e entry, g, stores => (FlowGraph.runPass entry).Stores ⟨e, g⟩ stores
  | _, _, stores => stores = []

namespace Graph

open Edit

variable {g : Graph}

theorem told_discard {α : Type} {e : Edit α} {stores : List (PropertyId × Value)}
    (h : g.Told (heard (e g).reports) stores (e g).graph) :
    g.Told (heard (discard e g).reports) stores (discard e g).graph := by
  rwa [discard_reports]

/-- Every operation is followed from announcement to announcement. -/
theorem perform_told (h : g.Sound) (c : Command)
    (hlast : (c.perform g).graph.nextId < lastNumber) :
    ∃ stores, c.Stores g stores ∧
      g.Told (heard (c.perform g).reports) stores (c.perform g).graph := by
  have heval : ∀ {α : Type} {m : Eval α}, m.Accounted → ∀ e : Evaluator, ∃ stores,
      m.Stores ⟨e, g⟩ stores ∧
        g.Told (heard (discard (m.on e) g).reports) stores (discard (m.on e) g).graph := by
    intro α m hm e
    obtain ⟨stores, hstores, htold⟩ := hm ⟨e, g⟩
    exact ⟨stores, hstores, told_discard htold⟩
  cases c with
  | addNode b => exact ⟨[], rfl, told_discard (addNode_told h hlast)⟩
  | createNode type => exact ⟨[], rfl, told_discard (createNode_told h hlast)⟩
  | deleteNode node => exact ⟨[], rfl, told_discard (deleteNode_told h node)⟩
  | renameNode node name => exact ⟨[], rfl, .quiet (quiet_withChange _ _)⟩
  | relayout node => exact ⟨[], rfl, told_discard (relayout_told h hlast)⟩
  | bindNode node p => exact ⟨[], rfl, told_discard (bindNode_told h hlast)⟩
  | deletePin pin => exact ⟨[], rfl, told_discard (deletePin_told h pin)⟩
  | setPin pin v => exact ⟨[], rfl, told_discard (setPin_told pin v g)⟩
  | createLink a b => exact ⟨[], rfl, told_discard (createLink_told h hlast)⟩
  | deleteLink link => exact ⟨[], rfl, told_discard (deleteLink_told h link)⟩
  | createProperty name v parent => exact ⟨[], rfl, told_discard (createProperty_told h hlast)⟩
  | setProperty p v =>
    rcases setProperty_told p v g with ⟨⟨cause, hno⟩, htold⟩ | ⟨hok, htold⟩
    · exact ⟨[], by rw [Command.Stores, hno]; rfl, told_discard htold⟩
    · exact ⟨[(p, v)], by rw [Command.Stores, hok]; rfl, told_discard htold⟩
  | deleteProperty p => exact ⟨[], rfl, told_discard (deleteProperty_told h p)⟩
  | rename name => exact ⟨[], rfl, .quiet (.of_inventory rfl fun _ => rfl)⟩
  | allocate => exact ⟨[], rfl, .quiet (quiet_counted hlast)⟩
  | refreshInputs e node => exact heval (refreshInputs_accounted node) e
  | evaluateNode e node => exact heval (evaluateNode_accounted node) e
  | runPass e entry => exact heval (runPass_accounted entry) e

/-- The announcements of every operation on every graph that a run comes to are exactly those of
    what it removes and of what it stores in properties. -/
theorem announcements_exact {start : Graph} (hs : start.Starts) (h : start.Reaches g) (c : Command)
    (hids : (c.perform g).graph.nextId - start.nextId < 0x7fffffffffffffff) :
    ∃ stores, c.Stores g stores ∧
      g.Exactly (heard (c.perform g).reports) stores (c.perform g).graph := by
  have hlast : (c.perform g).graph.nextId < lastNumber := by
    have hstart := hs.nextId_le
    simp only [maxDocumentId, lastNumber] at hstart ⊢
    omega
  have hsound := h.sound hs
  obtain ⟨stores, hstores, htold⟩ := perform_told hsound c hlast
  exact ⟨stores, hstores, htold.exactly hsound.numbered⟩

/-- A constant feeds a node that writes it to a property. -/
def writing : List Command :=
  [.createProperty "level" (.float 0) none, .addNode (.setVariable none), .bindNode ⟨2⟩ ⟨1⟩,
    .addNode (.floatConstant 5), .createLink ⟨10⟩ ⟨7⟩]

theorem writing_is_announced :
    ∃ g, (Command.performAll writing (Graph.new "writing" .builtin)).graph = g ∧
      (heard ((Command.evaluateNode {} ⟨2⟩).perform g).reports).map Prod.fst =
        [.propertyModified ⟨1⟩] ∧
      (∃ stores, (Command.evaluateNode {} ⟨2⟩).Stores g stores ∧
        g.Exactly (heard ((Command.evaluateNode {} ⟨2⟩).perform g).reports) stores
          ((Command.evaluateNode {} ⟨2⟩).perform g).graph) ∧
      (heard ((Command.deleteNode ⟨9⟩).perform g).reports).map Prod.fst =
        [.linkDeleted ⟨11⟩, .pinDeleted ⟨10⟩, .nodeDeleted ⟨9⟩] :=
  ⟨_, rfl, by decide +kernel,
    announcements_exact (.new "writing" .builtin) ⟨⟨writing, rfl⟩, by decide +kernel⟩ _
      (by decide +kernel),
    by decide +kernel⟩

end Graph

end FlowGraph
