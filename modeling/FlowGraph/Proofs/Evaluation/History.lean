import FlowGraph.Proofs.Evaluation.Recursion
import FlowGraph.Proofs.Evaluation.Requests

/-!
# What an evaluator remembers

An evaluator is used for one request after the other, and what it keeps from one to the next are the
counters and the outcome of its last pass.  A pass clears them.  Refreshing inputs and evaluating a
node do not, but they never look at them either: whatever was there before, the same is done, and it
is there afterwards (`Blind`).  The one thing of the past that is told is the number of steps in a
failure for a loop.

This needs the list of nodes being resolved to be empty between two requests, however they end,
since a node that was left on it would be taken for a loop (`Request.keeps_idle`).
-/

namespace FlowGraph

open Eval

/-! ## A past -/

/-- The failure with another number of steps, if it is for a loop. -/
def EvaluationError.withSteps (steps : Nat) : EvaluationError → EvaluationError
  | infiniteLoop node _ => infiniteLoop node steps
  | error => error

def Stop.withSteps (steps : Nat) : Stop → Stop
  | failed error => failed (error.withSteps steps)
  | exhausted => exhausted

/-- The evaluator, had it begun with what `past` keeps of a pass. -/
def Evaluator.withPast (e past : Evaluator) : Evaluator :=
  { e with
    evaluated := past.evaluated
    pulled := past.pulled + e.pulled
    lastError := past.lastError
    visited := past.visited }

def Session.withPast (s : Session) (past : Evaluator) : Session :=
  { s with evaluator := s.evaluator.withPast past }

/-- The outcome, had the evaluator begun with the past: the graph and the reports are the same, and
    the answer is but for the steps of a loop. -/
def Ran.withPast {α : Type} (r : Ran α) (past : Evaluator) : Ran α where
  answer := r.answer.mapError (Stop.withSteps past.evaluated)
  session := r.session.withPast past
  reports := r.reports

/-- A success is one with any past. -/
theorem Ran.withPast_ok {α : Type} {r : Ran α} {a : α} (h : r.answer = .ok a)
    (past : Evaluator) : (r.withPast past).answer = .ok a := by
  simp only [Ran.withPast, h, Except.mapError]

/-- An evaluator that has done nothing yet and one with a past differ in the past only, if they have
    the same limit and neither is resolving anything. -/
theorem Evaluator.withPast_withLimit {e : Evaluator} (hlimit : 1 ≤ e.maxFlowSteps)
    (hidle : e.inProgress = []) : (Evaluator.withLimit e.maxFlowSteps).withPast e = e := by
  obtain ⟨limit, evaluated, pulled, lastError, visited, inProgress⟩ := e
  cases hidle
  simp [Evaluator.withLimit, Evaluator.withPast, Nat.max_eq_left hlimit]

namespace Eval

variable {α β : Type} {past : Evaluator}

/-- The step does not look at the past. -/
def Blind (past : Evaluator) (m : Eval α) : Prop :=
  ∀ s : Session, m (s.withPast past) = (m s).withPast past

theorem Blind.pure (a : α) : Blind past (pure a : Eval α) := fun _ => rfl

theorem Blind.fail {error : EvaluationError} (h : error.withSteps past.evaluated = error) :
    Blind past (fail error : Eval α) := by
  intro s
  simp [Eval.fail, Ran.withPast, Except.mapError, Stop.withSteps, h]

/-- A failure for a loop tells the steps of the past. -/
theorem Blind.loop (node : NodeId) :
    Blind past (do Eval.fail (.infiniteLoop node (← evaluator).evaluated) : Eval α) := fun _ => rfl

theorem Blind.exhaust : Blind past (exhaust : Eval α) := fun _ => rfl

theorem Blind.graph : Blind past graph := fun _ => rfl

theorem Blind.report (r : Report) : Blind past (report r) := fun _ => rfl

theorem Blind.edit (e : Edit α) : Blind past (edit e) := fun _ => rfl

theorem Blind.bind {m : Eval α} {f : α → Eval β} (hm : Blind past m)
    (hf : ∀ a, Blind past (f a)) : Blind past (m >>= f) := by
  intro s
  rw [bind_apply, hm s, bind_apply]
  simp only [Ran.withPast]
  cases (m s).answer with
  | error stop => rfl
  | ok a =>
    simp only [Except.mapError]
    rw [hf a (m s).session]
    rfl

theorem Blind.attempt (node : NodeId) (e : Edit (Except GraphError α)) :
    Blind past (attempt node e) := by
  refine (Blind.edit e).bind fun answer => ?_
  cases answer with
  | ok a => exact .pure a
  | error cause => exact .fail rfl

theorem Blind.andFinally {m : Eval α} {f : Session → Session} (hm : Blind past m)
    (hf : ∀ s : Session, f (s.withPast past) = (f s).withPast past) :
    Blind past (andFinally m f) := by
  intro s
  simp only [Eval.andFinally, hm s]
  exact congrArg (fun t => Ran.mk _ t _) (hf (m s).session)

theorem Blind.updateEvaluator {f : Evaluator → Evaluator}
    (hf : ∀ e : Evaluator, f (e.withPast past) = (f e).withPast past) :
    Blind past (updateEvaluator f) := by
  intro s
  simp only [Eval.updateEvaluator, Session.withPast, hf]
  rfl

theorem Blind.forM {f : α → Eval Unit} (hf : ∀ x, Blind past (f x)) (xs : List α) :
    Blind past (xs.forM f) := by
  induction xs with
  | nil => exact .pure ()
  | cons x xs ih => exact (hf x).bind fun _ => ih

end Eval

/-! ## Evaluations -/

section Evaluations

variable {past : Evaluator}

theorem bodyParts_blind (node : NodeId) : BodyParts node fun _ m => Blind past m where
  pure := .pure
  bind := .bind
  graph := .graph
  missing _ := .fail rfl
  failed _ := .fail rfl
  logs _ := .report _
  registers _ := .report _
  starts _ := .report _
  pins _ _ := .attempt node _

theorem runNode_blind (node : NodeId) : Blind past (runNode node) := by
  refine Blind.graph.bind fun g => ?_
  split
  · exact .fail rfl
  · split
    · exact .loop node
    · next b _ =>
      refine (Blind.edit _).bind fun _ => Blind.andFinally ?_ fun _ => rfl
      exact (bodyParts_blind node).body b fun _ p v => .attempt node _

theorem refreshInput_blind {pull : NodeId → Eval Unit} (hpull : ∀ m, Blind past (pull m))
    (node : NodeId) (input : PinId) : Blind past (refreshInput pull node input) := by
  refine Blind.graph.bind fun g => ?_
  split
  · exact .pure ()
  · split
    · exact .pure ()
    · split
      · exact .fail rfl
      · split
        · exact .fail rfl
        · dsimp only
          split
          · exact (hpull _).bind fun _ => .attempt node _
          · exact .attempt node _

theorem refreshInputsWith_blind {pull : NodeId → Eval Unit} (hpull : ∀ m, Blind past (pull m))
    (node : NodeId) : Blind past (refreshInputsWith pull node) := by
  refine Blind.graph.bind fun g => ?_
  split
  · exact .fail rfl
  · exact .forM (refreshInput_blind hpull node) _

theorem evaluateWith_blind {pull : NodeId → Eval Unit} (hpull : ∀ m, Blind past (pull m))
    (node : NodeId) : Blind past (evaluateWith pull node) :=
  (refreshInputsWith_blind hpull node).bind fun _ => runNode_blind node

theorem pull_blind (depth : Nat) : ∀ node, Blind past (pull depth node) := by
  induction depth with
  | zero => exact fun _ => .exhaust
  | succ depth ih =>
    intro node s
    have hresolving : (s.withPast past).evaluator.inProgress = s.evaluator.inProgress := rfl
    simp only [pull, bind_apply, evaluator, hresolving, List.nil_append]
    by_cases hm : node ∈ s.evaluator.inProgress
    · simp only [if_pos hm]
      rfl
    · simp only [if_neg hm]
      have hinner : Blind past (updateEvaluator (beginPull node) >>= fun _ =>
          andFinally (evaluateWith (pull depth) node) fun s =>
            { s with evaluator := endPull node s.evaluator }) :=
        (Blind.updateEvaluator fun _ => rfl).bind fun _ =>
          (evaluateWith_blind ih node).andFinally fun _ => rfl
      exact hinner s

theorem refreshInputs_blind (node : NodeId) : Blind past (refreshInputs node) := fun s =>
  refreshInputsWith_blind (pull_blind (pullDepth s.graph)) node s

theorem evaluateNode_blind (node : NodeId) : Blind past (evaluateNode node) := fun s =>
  evaluateWith_blind (pull_blind (pullDepth s.graph)) node s

end Evaluations

/-! ## Between requests -/

/-- Nothing is being resolved, and the evaluator has the limit. -/
def Session.Idle (limit : Nat) (s : Session) : Prop :=
  s.Resolving [] ∧ s.evaluator.maxFlowSteps = limit

theorem keptByPulls_limit (limit : Nat) :
    KeptByPulls fun s => s.evaluator.maxFlowSteps = limit where
  copies _ _ _ h := h
  bodies := runNode_keeps ⟨fun _ _ _ h => h, fun _ _ _ h => h⟩ fun _ _ _ h => h
  begins _ _ h := h
  ends _ _ h := h

theorem runPass_keeps_idle (limit : Nat) (entry : NodeId) :
    Keeps (Session.Idle limit) (runPass entry) := by
  have hevaluate : ∀ node, Keeps (Session.Idle limit) (evaluateNode node) := fun node =>
    (evaluateNode_keeps_resolving node []).and ((keptByPulls_limit limit).evaluateNode node)
  refine Keeps.bind (fun _ hs => ⟨rfl, hs.2⟩) fun _ => Keeps.evaluator.bind fun e => ?_
  refine Keeps.bind (walk_keeps hevaluate (fun _ _ hs => hs) (fun _ _ hs => hs) _ entry) fun _ => ?_
  refine Keeps.evaluator.bind fun e => ?_
  split
  · exact .pure _
  · exact (Keeps.report _).bind fun _ => .pure _

/-- Whatever is asked for and however it ends, nothing is being resolved afterwards. -/
theorem Request.keeps_idle (limit : Nat) (q : Request) : Keeps (Session.Idle limit) q.serve := by
  cases q with
  | refreshInputs node =>
    exact (refreshInputs_keeps_resolving node []).and ((keptByPulls_limit limit).refreshInputs node)
  | evaluateNode node =>
    exact (evaluateNode_keeps_resolving node []).and ((keptByPulls_limit limit).evaluateNode node)
  | runPass entry => exact (runPass_keeps_idle limit entry).bind fun _ => .pure ()

namespace Evaluator

/-- An evaluator as it is made, with the usual step limit or a given one. -/
inductive IsNew : Evaluator → Prop where
  | usual : IsNew {}
  | withLimit (limit : Nat) : IsNew (.withLimit limit)

theorem IsNew.one_le_limit {e : Evaluator} (h : e.IsNew) : 1 ≤ e.maxFlowSteps := by
  cases h with
  | usual => decide
  | withLimit limit => exact Nat.le_max_right limit 1

/-- The evaluator after it did what was asked of it, on one graph after the other. -/
def after (e : Evaluator) (history : List (Request × Graph)) : Evaluator :=
  history.foldl (fun e asked => (asked.1.serve ⟨e, asked.2⟩).session.evaluator) e

theorem after_idle {e : Evaluator} {limit : Nat} (hidle : e.inProgress = [])
    (hlimit : e.maxFlowSteps = limit) (history : List (Request × Graph)) :
    (e.after history).inProgress = [] ∧ (e.after history).maxFlowSteps = limit := by
  induction history generalizing e with
  | nil => exact ⟨hidle, hlimit⟩
  | cons asked history ih =>
    obtain ⟨q, g⟩ := asked
    obtain ⟨hidle', hlimit'⟩ := q.keeps_idle limit ⟨e, g⟩ ⟨hidle, hlimit⟩
    exact ih hidle' hlimit'

end Evaluator

/-- An evaluator that was made and then asked for this and that, on whatever graphs and with
    whatever outcomes, is not resolving anything.  So a pass is the same with it as with a new
    evaluator that has its limit.  Evaluating a node and refreshing its inputs are the same as well,
    but for what it still keeps of its last pass: a failure for a loop tells the steps of this pass,
    and its counters go on from there. -/
theorem evaluator_carries_no_history {e : Evaluator} (he : e.IsNew)
    (history : List (Request × Graph)) :
    let used := e.after history
    let fresh := Evaluator.withLimit used.maxFlowSteps
    used.inProgress = [] ∧ used.maxFlowSteps = e.maxFlowSteps ∧
    ∀ g node,
      runPass node ⟨used, g⟩ = runPass node ⟨fresh, g⟩ ∧
      evaluateNode node ⟨used, g⟩ = (evaluateNode node ⟨fresh, g⟩).withPast used ∧
      refreshInputs node ⟨used, g⟩ = (refreshInputs node ⟨fresh, g⟩).withPast used := by
  intro used fresh
  have hnothing : e.inProgress = [] := by cases he <;> rfl
  obtain ⟨hidle, hlimit⟩ := Evaluator.after_idle hnothing rfl history
  have hone : 1 ≤ used.maxFlowSteps := hlimit ▸ he.one_le_limit
  have hpast : fresh.withPast used = used := Evaluator.withPast_withLimit hone hidle
  refine ⟨hidle, hlimit, fun g node => ⟨?_, ?_, ?_⟩⟩
  · have hsteps : fresh.maxFlowSteps = used.maxFlowSteps := Nat.max_eq_left hone
    have hcleared : fresh.cleared = used.cleared := congrArg (Evaluator.mk · 0 0 none [] []) hsteps
    rw [runPass_eq_passOf, runPass_eq_passOf, hsteps, hcleared]
  · have hblind : Blind used (evaluateNode node) := evaluateNode_blind node
    have hsame := hblind ⟨fresh, g⟩
    rwa [Session.withPast, hpast] at hsame
  · have hblind : Blind used (refreshInputs node) := refreshInputs_blind node
    have hsame := hblind ⟨fresh, g⟩
    rwa [Session.withPast, hpast] at hsame

/-- A sum that is its own first and second input. -/
def Graph.ring : Graph :=
  (Command.performAll [.addNode (.arithmetic .add), .createLink ⟨4⟩ ⟨2⟩, .createLink ⟨4⟩ ⟨3⟩]
    (Graph.new "ring" .builtin)).graph

/-- An evaluator that ran into the ring, once in a pass and once besides, evaluates the log node of
    `greeting`. -/
theorem ring_leaves_no_trace :
    let used := (Evaluator.withLimit 3).after [(.runPass ⟨1⟩, .ring), (.evaluateNode ⟨1⟩, .ring)]
    used.pulled = 2 ∧ used.lastError.map (·.code) = some .infiniteLoop ∧ used.inProgress = [] ∧
      evaluateNode ⟨5⟩ ⟨used, .greeting⟩ =
        (evaluateNode ⟨5⟩ ⟨.withLimit 3, .greeting⟩).withPast used ∧
      (evaluateNode ⟨5⟩ ⟨used, .greeting⟩).answer = .ok () := by
  intro used
  obtain ⟨hidle, hlimit, hsame⟩ := evaluator_carries_no_history (.withLimit 3)
    [(.runPass ⟨1⟩, .ring), (.evaluateNode ⟨1⟩, .ring)]
  obtain ⟨-, heval, -⟩ := hsame .greeting ⟨5⟩
  rw [hlimit] at heval
  have hfresh : (evaluateNode ⟨5⟩ ⟨.withLimit 3, .greeting⟩).answer = .ok () :=
    eq_ok_of_isOk (by decide +kernel)
  refine ⟨by decide +kernel, by decide +kernel, hidle, heval, ?_⟩
  exact (congrArg Ran.answer heval).trans (Ran.withPast_ok hfresh _)

end FlowGraph
