import FlowGraph.Proofs.Numbering
import FlowGraph.Proofs.Twins.Edits
import FlowGraph.Proofs.Twins.Loading

/-!
# The two ends of a link have no order

A link is made by naming two pins, and it notes them in the order in which they were named.  That
order has no consequence.  Two runs that differ in nothing but the order in which they name the pins
of new links answer, change and report the same step by step (`link_orientation_has_no_effect`), also
where a step is to save the graph and to go on with what is loaded.
-/

namespace FlowGraph

open Edit FlowGraph.Graph

/-- A step of a run: an operation, or to save the graph and go on with what is loaded of it. -/
inductive Step where
  | command (c : Command)
  | reload (registry : Registry)

/-- What a step answers. -/
inductive Reply where
  | answered (answer : Answer)
  /-- The repairs that were made, or why the document was refused. -/
  | reloaded (outcome : Except DocumentError (List Repair))

namespace Reply

/-- Whether the step was refused.  An evaluation that fails is not a refusal. -/
def isRefused : Reply → Bool
  | answered (.refused _) | reloaded (.error _) => true
  | _ => false

/-- The same was answered, or both steps were refused.  Only the reason may name the two pins of a
    link in another order. -/
def Alike (r r' : Reply) : Prop := r = r' ∨ r.isRefused = true ∧ r'.isRefused = true

end Reply

namespace Step

/-- Takes the step.  If the document is refused the graph stays. -/
def take : Step → Edit Reply
  | command c => .answered <$> c.ask
  | reload registry => fun g =>
    match g.toDocument.load registry with
    | .ok (loaded, repairs) => ⟨.reloaded (.ok repairs), loaded, []⟩
    | .error cause => ⟨.reloaded (.error cause), g, []⟩

/-- The same step, except that the two pins of a new link may be named in the other order. -/
inductive Flips : Step → Step → Prop where
  | same (s : Step) : Flips s s
  | link (a b : PinId) : Flips (command (.createLink a b)) (command (.createLink b a))

end Step

/-- What the steps answer, leave and report, one after the other. -/
def history : List Step → Graph → List (Edited Reply)
  | [], _ => []
  | s :: rest, g => s.take g :: history rest (s.take g).graph

/-! ## One step -/

/-- No step repeats a key in a table. -/
theorem Step.take_indexed {g : Graph} (hg : g.Indexed) (s : Step) : (s.take g).graph.Indexed := by
  cases s with
  | command c =>
    obtain ⟨issued, hbooks⟩ := perform_booked c g
    show (c.ask g).graph.Indexed
    rw [c.ask_graph]
    exact hbooks.evolves.indexed hg
  | reload registry =>
    simp only [take]
    cases hl : g.toDocument.load registry with
    | error e => exact hg
    | ok done => exact (load_sound hl).1.intact.indexed

theorem Step.reload_alike {g g' : Graph} (ht : g.Turned g') (registry : Registry) :
    ((reload registry).take g).Alike Reply.Alike ((reload registry).take g') := by
  simp only [take]
  rcases load_turned ht registry with ⟨l, l', repairs, hl, hl', hturned⟩ | ⟨e, e', hl, hl'⟩
  · rw [hl, hl']
    exact ⟨.inl rfl, hturned, .nil⟩
  · rw [hl, hl']
    exact ⟨.inr ⟨rfl, rfl⟩, ht, .nil⟩

theorem Step.Flips.alike {s s' : Step} (h : s.Flips s') {g g' : Graph} (hg : g.Indexed)
    (ht : g.Turned g') : (s.take g).Alike Reply.Alike (s'.take g') := by
  cases h with
  | same s =>
    cases s with
    | command c => exact map_alike (ask_alike hg ht c) fun _ _ heq => .inl (congrArg _ heq)
    | reload registry => exact Step.reload_alike ht registry
  | link a b =>
    have hlink := createLink_mirrors_flipped a b g g' ht
    refine map_alike (r := fun r r' => Reply.Alike (.answered r) (.answered r'))
      (map_alike hlink ?_) fun _ _ h => h
    intro r r' h
    rcases h with rfl | ⟨hno, hno'⟩
    · exact .inl rfl
    · cases r with
      | ok _ => cases hno
      | error cause =>
        cases r' with
        | ok _ => cases hno'
        | error cause' => exact .inr ⟨rfl, rfl⟩

/-! ## Runs -/

/-- Runs on turned graphs stay alike. -/
theorem history_alike {steps steps' : List Step} (h : List.Forall₂ Step.Flips steps steps') :
    ∀ {g g' : Graph}, g.Indexed → g.Turned g' →
      List.Forall₂ (Edited.Alike Reply.Alike) (history steps g) (history steps' g') := by
  induction h with
  | nil => exact fun _ _ => .nil
  | @cons s _ _ _ hs _ ih =>
    intro g g' hg ht
    have halike := hs.alike hg ht
    exact .cons halike (ih (s.take_indexed hg) halike.graph)

/-- Two runs from the same graph that take the same steps, but may name the two pins of new links in
    another order, have the same history.  Step by step both answer the same or are both refused,
    make entities of the same numbers, evaluate with the same outcome and the same counts, and
    announce the same events in the same order, and their graphs never differ in more than the order
    of the ends of links. -/
theorem link_orientation_has_no_effect {start : Graph} (hs : start.Starts)
    {steps steps' : List Step} (h : List.Forall₂ Step.Flips steps steps') :
    List.Forall₂ (Edited.Alike Reply.Alike) (history steps start) (history steps' start) :=
  history_alike h hs.sound.intact.indexed (.refl start)

/-- Feeds a log node, then another constant in place of the first, saves and loads, and runs. -/
def feedTwice (first second : PinId × PinId) : List Step :=
  [.command (.addNode (.floatConstant 1)), .command (.addNode (.floatConstant 2)),
    .command (.addNode (.logValue "sum")), .command (.createLink first.1 first.2),
    .command (.createLink second.1 second.2), .reload .builtin, .command (.runPass {} ⟨5⟩)]

/-- The run that names the input first evicts the same link, and keeps its own order of ends. -/
theorem feedTwice_from_either_end :
    let run := history (feedTwice (⟨2⟩, ⟨8⟩) (⟨4⟩, ⟨8⟩)) (Graph.new "fed" .builtin)
    let run' := history (feedTwice (⟨2⟩, ⟨8⟩) (⟨8⟩, ⟨4⟩)) (Graph.new "fed" .builtin)
    (run.getLast?.map fun e => e.graph.links.values.map Link.ends) = some [[⟨4⟩, ⟨8⟩]] ∧
      (run'.getLast?.map fun e => e.graph.links.values.map Link.ends) = some [[⟨8⟩, ⟨4⟩]] ∧
      List.Forall₂ (Edited.Alike Reply.Alike) run run' := by
  refine ⟨by decide +kernel, by decide +kernel, link_orientation_has_no_effect (.new _ _) ?_⟩
  exact .cons (.same _) (.cons (.same _) (.cons (.same _) (.cons (.same _)
    (.cons (.link _ _) (.cons (.same _) (.cons (.same _) .nil))))))

end FlowGraph
