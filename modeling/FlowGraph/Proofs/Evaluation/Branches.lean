import FlowGraph.Proofs.Evaluation.Frame
import FlowGraph.Proofs.Evaluation.Sources

/-!
# Branches that are never taken

That a branch of the evaluation is never taken is said by an evaluation that does something else
there: `evaluateNodeVia` and `runPassVia` run the nodes in a way of their own.  If this way agrees
with `runNode` wherever an evaluation can get to, the evaluations agree, and what running a node
does anywhere else is of no consequence.
-/

namespace FlowGraph

open Eval

/-! ## Evaluation with other branches -/

section Via

variable (run : NodeId → Eval Unit)

/-- `evaluateWith`, where `run` runs the node. -/
def evaluateWithVia (pull : NodeId → Eval Unit) (node : NodeId) : Eval Unit := do
  refreshInputsWith pull node
  run node

/-- `pull`, where `run` runs the nodes. -/
def pullVia : Nat → NodeId → Eval Unit
  | 0, _ => exhaust
  | depth + 1, node => do
    let e ← evaluator
    if node ∈ e.inProgress then fail (.infiniteLoop node e.evaluated)
    else
      updateEvaluator (beginPull node)
      andFinally (evaluateWithVia run (pullVia depth) node) fun s =>
        { s with evaluator := endPull node s.evaluator }

/-- `refreshInputs`, where `run` runs the nodes. -/
def refreshInputsVia (node : NodeId) : Eval Unit := fun s =>
  refreshInputsWith (pullVia run (pullDepth s.graph)) node s

/-- `evaluateNode`, where `run` runs the nodes. -/
def evaluateNodeVia (node : NodeId) : Eval Unit := fun s =>
  evaluateWithVia run (pullVia run (pullDepth s.graph)) node s

/-- `walk`, where `run` runs the nodes. -/
def walkVia : Nat → NodeId → Eval Unit
  | 0, _ => return
  | steps + 1, node => do
    match ← settle node (evaluateNodeVia run node) with
    | .error error => updateEvaluator (.failWith error)
    | .ok () =>
      updateEvaluator (.visit node)
      let e ← evaluator
      if e.evaluated = e.maxFlowSteps then
        updateEvaluator (.failWith (.infiniteLoop node e.evaluated))
      else
        match (← graph).flowSuccessor? node with
        | some next => walkVia steps next
        | none => return

/-- `runPass`, where `run` runs the nodes. -/
def runPassVia (entry : NodeId) : Eval Bool := do
  updateEvaluator .cleared
  walkVia run (← evaluator).maxFlowSteps entry
  match (← evaluator).lastError with
  | none => return true
  | some error =>
    report (.logged (.passFailed entry error))
    return false

end Via

/-! ## Agreement -/

namespace Eval

variable {α β : Type} {P : Session → Prop}

/-- Wherever `P` holds, the two steps do the same. -/
def AgreeOn (P : Session → Prop) (m m' : Eval α) : Prop := ∀ s, P s → m s = m' s

theorem AgreeOn.refl (m : Eval α) : AgreeOn P m m := fun _ _ => rfl

theorem AgreeOn.bind {m m' : Eval α} {f f' : α → Eval β} (hm : AgreeOn P m m')
    (hkept : Keeps P m') (hf : ∀ a, AgreeOn P (f a) (f' a)) : AgreeOn P (m >>= f) (m' >>= f') := by
  intro s hs
  rw [bind_apply, bind_apply, hm s hs]
  cases (m' s).answer with
  | ok a =>
    dsimp only
    rw [hf a _ (hkept s hs)]
  | error stop => rfl

theorem AgreeOn.forM {f f' : α → Eval Unit} (hf : ∀ x, AgreeOn P (f x) (f' x))
    (hkept : ∀ x, Keeps P (f' x)) (xs : List α) : AgreeOn P (xs.forM f) (xs.forM f') := by
  induction xs with
  | nil => exact .refl _
  | cons x xs ih => exact (hf x).bind (hkept x) fun _ => ih

end Eval

section Agreement

variable {P : Session → Prop} {run : NodeId → Eval Unit}

/-- An input with a pure source is refreshed once that node is evaluated. -/
theorem refreshInput_of_some {s : Session} {i : PinId} {m : NodeId}
    (h : s.graph.pureSource? i = some m) (node : NodeId) :
    ∃ src, s.graph.feedingPin? i = some src ∧ ∀ pull, refreshInput pull node i s =
      (pull m >>= fun _ => attempt node (Graph.copyPin src i)) s := by
  obtain ⟨pin, src, q, hpin, hflow, hsrc, hq, rfl, hpure⟩ := Graph.pureSource?_eq_some.mp h
  exact ⟨src, hsrc, fun pull => by
    simp [refreshInput, bind_apply, Eval.graph, hpin, hflow, hsrc, hq, hpure]⟩

/-- An input without one is refreshed without a pull. -/
theorem refreshInput_of_none {s : Session} {i : PinId} (h : s.graph.pureSource? i = none)
    (node : NodeId) (pull pull' : NodeId → Eval Unit) :
    refreshInput pull node i s = refreshInput pull' node i s := by
  cases hpin : s.graph.pins.get? i with
  | none => simp [refreshInput, bind_apply, Eval.graph, hpin]
  | some pin =>
    cases hflow : pin.isFlow with
    | true => simp [refreshInput, bind_apply, Eval.graph, hpin, hflow]
    | false =>
      cases hsrc : s.graph.feedingPin? i with
      | none => simp [refreshInput, bind_apply, Eval.graph, hpin, hflow, hsrc]
      | some src =>
        cases hq : s.graph.pins.get? src with
        | none => simp [refreshInput, bind_apply, Eval.graph, hpin, hflow, hsrc, hq]
        | some q =>
          have hpure : s.graph.isPure q.node = false := by
            by_contra hpure
            rw [Bool.not_eq_false] at hpure
            rw [Graph.pureSource?_eq_some.mpr ⟨pin, src, q, hpin, hflow, hsrc, hq, rfl, hpure⟩] at h
            cases h
          simp [refreshInput, bind_apply, Eval.graph, hpin, hflow, hsrc, hq, hpure]

/-- Only pure nodes are pulled, so it is enough that the two ways of pulling agree on these. -/
theorem refreshInput_agree {pull pull' : NodeId → Eval Unit}
    (hpull : ∀ m, AgreeOn (fun s => P s ∧ s.graph.isPure m = true) (pull m) (pull' m))
    (node : NodeId) (input : PinId) :
    AgreeOn P (refreshInput pull node input) (refreshInput pull' node input) := by
  intro s hs
  cases hm : s.graph.pureSource? input with
  | none => exact refreshInput_of_none hm node pull pull'
  | some m =>
    obtain ⟨src, -, hrefresh⟩ := refreshInput_of_some hm node
    obtain ⟨-, -, -, -, -, -, -, -, hpure⟩ := Graph.pureSource?_eq_some.mp hm
    rw [hrefresh, hrefresh, bind_apply, bind_apply, hpull m s ⟨hs, hpure⟩]

theorem refreshInputsWith_agree
    (hcopy : ∀ a b s, P s → P { s with graph := (Graph.copyPin a b s.graph).graph })
    {pull pull' : NodeId → Eval Unit}
    (hpull : ∀ m, AgreeOn (fun s => P s ∧ s.graph.isPure m = true) (pull m) (pull' m))
    (hkept : ∀ m, Keeps P (pull' m)) (node : NodeId) :
    AgreeOn P (refreshInputsWith pull node) (refreshInputsWith pull' node) := by
  refine (AgreeOn.refl graph).bind .graph fun g => ?_
  split
  · exact .refl _
  · exact .forM (refreshInput_agree hpull node) (refreshInput_keeps pull' hkept hcopy node) _

/-- Two ways of running nodes that agree give evaluations that agree. -/
theorem evaluateWithVia_agree (hrun : ∀ m, AgreeOn P (run m) (runNode m)) (h : KeptByPulls P)
    {pull pull' : NodeId → Eval Unit} (hpull : ∀ m, AgreeOn P (pull m) (pull' m))
    (hkept : ∀ m, Keeps P (pull' m)) (node : NodeId) :
    AgreeOn P (evaluateWithVia run pull node) (evaluateWith pull' node) :=
  (refreshInputsWith_agree h.copies (fun m s hs => hpull m s hs.1) hkept node).bind
    (refreshInputsWith_keeps pull' hkept h.copies node) fun _ => hrun node

theorem pullVia_agree (hrun : ∀ m, AgreeOn P (run m) (runNode m)) (h : KeptByPulls P)
    (depth : Nat) : ∀ node, AgreeOn P (pullVia run depth node) (pull depth node) := by
  induction depth with
  | zero => exact fun _ => .refl _
  | succ depth ih =>
    intro node
    refine (AgreeOn.refl evaluator).bind .evaluator fun e => ?_
    split
    · exact .refl _
    · refine AgreeOn.bind (.refl _) (fun s hs => h.begins node s hs) fun _ s hs => ?_
      rw [andFinally, andFinally, evaluateWithVia_agree hrun h ih (h.pull depth) node s hs]

theorem evaluateNodeVia_agree (hrun : ∀ m, AgreeOn P (run m) (runNode m)) (h : KeptByPulls P)
    (node : NodeId) : AgreeOn P (evaluateNodeVia run node) (evaluateNode node) := fun s hs =>
  evaluateWithVia_agree hrun h (pullVia_agree hrun h _) (h.pull _) node s hs

theorem refreshInputsVia_agree (hrun : ∀ m, AgreeOn P (run m) (runNode m)) (h : KeptByPulls P)
    (node : NodeId) : AgreeOn P (refreshInputsVia run node) (refreshInputs node) := fun s hs =>
  refreshInputsWith_agree h.copies (fun m s hs => pullVia_agree hrun h _ m s hs.1) (h.pull _) node s
    hs

theorem walkVia_agree (hrun : ∀ m, AgreeOn P (run m) (runNode m)) (h : KeptByParts P)
    (steps : Nat) : ∀ node, AgreeOn P (walkVia run steps node) (walk steps node) := by
  induction steps with
  | zero => exact fun _ => .refl _
  | succ steps ih =>
    intro node
    have hsettle : AgreeOn P (settle node (evaluateNodeVia run node))
        (settle node (evaluateNode node)) := by
      intro s hs
      simp only [settle, evaluateNodeVia_agree hrun h.toKeptByPulls node s hs]
    refine hsettle.bind (fun s hs => h.evaluateNode node s hs) fun outcome => ?_
    cases outcome with
    | error error => exact .refl _
    | ok _ =>
      refine (AgreeOn.refl _).bind (fun s hs => h.counts s _ hs) fun _ => ?_
      refine (AgreeOn.refl evaluator).bind .evaluator fun e => ?_
      split
      · exact .refl _
      · refine (AgreeOn.refl graph).bind .graph fun g => ?_
        cases g.flowSuccessor? node with
        | none => exact .refl _
        | some next => exact ih next

theorem runPassVia_agree (hrun : ∀ m, AgreeOn P (run m) (runNode m)) (h : KeptByParts P)
    (entry : NodeId) : AgreeOn P (runPassVia run entry) (runPass entry) := by
  refine (AgreeOn.refl _).bind (fun s hs => h.counts s _ hs) fun _ => ?_
  refine (AgreeOn.refl evaluator).bind .evaluator fun e => ?_
  exact (walkVia_agree hrun h _ entry).bind (h.walk _ entry) fun _ => .refl _

end Agreement

end FlowGraph
