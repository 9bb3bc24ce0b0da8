import FlowGraph.Proofs.Evaluation.Branches
import FlowGraph.Proofs.Evaluation.Rounds

/-!
# The recursion of pulls

Evaluating a node pulls the pure nodes that feed it, which pull those that feed them, along links
that may form cycles.  What ends the recursion is the list of nodes being resolved, and that works
because the list is the stack of the pulls that are under way (`Session.Nests`): a pull that passes
the guard is for a node that is not on it yet.

The stack is not part of the model, so it is looked at from outside.  `watchedPull` is the recursion
with its stack as an argument and with a look at the session at the beginning of each pull and once
more when it has passed the guard; `early` is done if the session is not as it should be, or if the
recursion is deeper than it may be.  This makes no difference, whatever `early` is
(`watchedPull_agree`), and nothing else is known of the graph: links and pins may be of any kind.
-/

namespace FlowGraph

open Eval

namespace Eval

variable {α : Type}

/-- Does `early` instead where the condition does not hold. -/
def watch (ok : Session → Prop) [DecidablePred ok] (early m : Eval α) : Eval α := fun s =>
  if ok s then m s else early s

theorem AgreeOn.watch {P ok : Session → Prop} [DecidablePred ok] {m m' : Eval α}
    (h : AgreeOn P m m') (early : Eval α) (hok : ∀ s, P s → ok s) :
    AgreeOn P (watch ok early m) m' := by
  intro s hs
  rw [Eval.watch, if_pos (hok s hs)]
  exact h s hs

end Eval

/-- The session is in the middle of pulls for the nodes of `stack`, innermost first, that all passed
    the guard since `start`: these nodes are apart, they exist and were not being resolved before,
    and just they are being resolved besides those that were. -/
structure Session.Nests (start : Session) (stack : List NodeId) (s : Session) : Prop where
  nodes : s.graph.nodes.keys = start.graph.nodes.keys
  resolving : s.evaluator.inProgress = stack ++ start.evaluator.inProgress
  distinct : stack.Nodup
  new : ∀ m ∈ stack, m ∈ s.graph.nodes.keys ∧ m ∉ start.evaluator.inProgress
  few : stack.length ≤ s.graph.nodes.size

instance (start : Session) (stack : List NodeId) : DecidablePred (start.Nests stack) := fun s =>
  decidable_of_iff (s.graph.nodes.keys = start.graph.nodes.keys ∧
      s.evaluator.inProgress = stack ++ start.evaluator.inProgress ∧ stack.Nodup ∧
      (∀ m ∈ stack, m ∈ s.graph.nodes.keys ∧ m ∉ start.evaluator.inProgress) ∧
      stack.length ≤ s.graph.nodes.size)
    ⟨fun ⟨h, h', h'', h₃, h₄⟩ => ⟨h, h', h'', h₃, h₄⟩,
      fun h => ⟨h.nodes, h.resolving, h.distinct, h.new, h.few⟩⟩

/-- `pull` with a look at the pulls under way: `early` is done where they are not as they should be
    or too deep. -/
def watchedPull (start : Session) (early : Eval Unit) : Nat → List NodeId → NodeId → Eval Unit
  | 0, _, _ => early
  | depth + 1, stack, node => watch (start.Nests stack) early do
    let e ← evaluator
    if node ∈ e.inProgress then fail (.infiniteLoop node e.evaluated)
    else
      updateEvaluator (beginPull node)
      andFinally (watch (start.Nests (node :: stack)) early
          (evaluateWith (watchedPull start early depth (node :: stack)) node))
        fun s => { s with evaluator := endPull node s.evaluator }

variable {start : Session} {keys busy stack : List NodeId}

/-! ## The stack -/

theorem pull_keeps_pulling (depth : Nat) (busy : List NodeId) (m : NodeId) :
    Keeps (Session.Pulling keys busy) (pull depth m) :=
  ((keptByParts_nodes keys).pull depth m).and (pull_keeps_resolving depth busy m)

theorem copies_keep_pulling (a b : PinId) (s : Session) (hs : s.Pulling keys busy) :
    Session.Pulling keys busy { s with graph := (Graph.copyPin a b s.graph).graph } :=
  ⟨(keptByParts_nodes keys).copies a b s hs.1, hs.2⟩

/-- Evaluating a node pulls pure nodes only, and no matter what the pulls did. -/
theorem evaluateWith_agree {pull' : NodeId → Eval Unit} {depth : Nat}
    (hpull : ∀ m, AgreeOn (fun s => s.Pulling keys busy ∧ s.graph.isPure m = true) (pull' m)
      (pull depth m)) (node : NodeId) :
    AgreeOn (Session.Pulling keys busy) (evaluateWith pull' node)
      (evaluateWith (pull depth) node) :=
  (refreshInputsWith_agree copies_keep_pulling hpull (pull_keeps_pulling depth busy) node).bind
    (refreshInputsWith_keeps _ (pull_keeps_pulling depth busy) copies_keep_pulling node)
    fun _ => .refl _

/-- The nodes of the stack are apart and existed at the start, when they were not being resolved. -/
def Session.Fresh (start : Session) (stack : List NodeId) : Prop :=
  stack.Nodup ∧ ∀ m ∈ stack, m ∈ start.graph.nodes.keys ∧ m ∉ start.evaluator.inProgress

theorem Session.Fresh.nests (h : start.Fresh stack) {s : Session}
    (hs : s.Pulling start.graph.nodes.keys (stack ++ start.evaluator.inProgress)) :
    start.Nests stack s where
  nodes := hs.1
  resolving := hs.2
  distinct := h.1
  new m hm := hs.1 ▸ h.2 m hm
  few := by
    rw [Table.size_eq_length_keys, hs.1]
    exact h.1.length_le_of_subset fun m hm => (h.2 m hm).1

theorem Session.Fresh.cons (h : start.Fresh stack) {m : NodeId} (hm : m ∈ start.graph.nodes.keys)
    (hnew : m ∉ stack ++ start.evaluator.inProgress) : start.Fresh (m :: stack) := by
  obtain ⟨hstack, hbusy⟩ : m ∉ stack ∧ m ∉ start.evaluator.inProgress := by simpa using hnew
  refine ⟨List.nodup_cons.mpr ⟨hstack, h.1⟩, fun k hk => ?_⟩
  rcases List.mem_cons.mp hk with rfl | hk
  · exact ⟨hm, hbusy⟩
  · exact h.2 k hk

/-- Where there are fewer nodes left than either recursion may go deep, the one that is watched goes
    as the one that is not. -/
theorem watchedPull_agree (early : Eval Unit) (depth : Nat) :
    ∀ {depth' : Nat} {stack : List NodeId}, start.Fresh stack →
      (start.graph.nodes.keys.filter (· ∉ stack ++ start.evaluator.inProgress)).length < depth →
      (start.graph.nodes.keys.filter (· ∉ stack ++ start.evaluator.inProgress)).length < depth' →
      ∀ m, AgreeOn (fun s => s.Pulling start.graph.nodes.keys (stack ++ start.evaluator.inProgress) ∧
          s.graph.isPure m = true)
        (watchedPull start early depth stack m) (pull depth' m) := by
  induction depth with
  | zero => exact fun _ hroom => absurd hroom (Nat.not_lt_zero _)
  | succ depth ih =>
    intro depth' stack hfresh hroom hroom' m
    obtain ⟨depth', rfl⟩ := Nat.exists_eq_succ_of_ne_zero (Nat.ne_zero_of_lt hroom')
    refine AgreeOn.watch ?_ early fun s hs => hfresh.nests hs.1
    rintro s ⟨hs, hpure⟩
    have hprogress : s.evaluator.inProgress = stack ++ start.evaluator.inProgress := hs.2
    simp only [pull, bind_apply, evaluator, hprogress]
    by_cases hin : m ∈ stack ++ start.evaluator.inProgress
    · simp only [if_pos hin]
    · have hm : m ∈ start.graph.nodes.keys := by
        obtain ⟨n, hn, -⟩ := Graph.isPure_iff.mp hpure
        exact hs.1 ▸ Table.mem_keys_of_get? hn
      have hfewer := length_filter_not_mem_cons hm hin
      have hagree := evaluateWith_agree
        (ih (hfresh.cons hm hin) (Nat.lt_of_lt_of_le hfewer (Nat.le_of_lt_succ hroom))
          (Nat.lt_of_lt_of_le hfewer (Nat.le_of_lt_succ hroom'))) m
      have hbegun : Session.Pulling start.graph.nodes.keys ((m :: stack) ++ start.evaluator.inProgress)
          ⟨beginPull m s.evaluator, s.graph⟩ := ⟨hs.1, congrArg (m :: ·) hprogress⟩
      have hinner := hagree.watch early (fun _ => (hfresh.cons hm hin).nests) _ hbegun
      simp only [if_neg hin, bind_apply, updateEvaluator, andFinally, hinner]

/-- There are fewer nodes than the depth that is used allows for. -/
theorem fewer_than_pullDepth (g : Graph) (busy : List NodeId) (more : Nat) :
    (g.nodes.keys.filter (· ∉ busy)).length < pullDepth g + more := by
  have hle := List.length_filter_le (decide <| · ∉ busy) g.nodes.keys
  rw [← Table.size_eq_length_keys] at hle
  rw [pullDepth]
  omega

section Evaluations

variable (s : Session) (early : Eval Unit) (more more' : Nat) (node : NodeId)

theorem watchedPull_agree_pull (m : NodeId) :
    AgreeOn (fun t => t.Pulling s.graph.nodes.keys s.evaluator.inProgress ∧ t.graph.isPure m = true)
      (watchedPull s early (pullDepth s.graph + more) [] m) (pull (pullDepth s.graph + more') m) :=
  watchedPull_agree early _ ⟨List.nodup_nil, nofun⟩ (fewer_than_pullDepth _ _ more)
    (fewer_than_pullDepth _ _ more') m

theorem evaluateWith_watchedPull :
    evaluateWith (watchedPull s early (pullDepth s.graph + more) []) node s =
      evaluateWith (pull (pullDepth s.graph + more')) node s :=
  evaluateWith_agree (watchedPull_agree_pull s early more more') node s ⟨rfl, rfl⟩

theorem refreshInputsWith_watchedPull :
    refreshInputsWith (watchedPull s early (pullDepth s.graph + more) []) node s =
      refreshInputsWith (pull (pullDepth s.graph + more')) node s :=
  refreshInputsWith_agree copies_keep_pulling (watchedPull_agree_pull s early more more')
    (pull_keeps_pulling _ _) node s ⟨rfl, rfl⟩

theorem refreshInputs_keeps_resolving (busy : List NodeId) :
    Keeps (Session.Resolving busy) (refreshInputs node) := fun s hs =>
  refreshInputsWith_keeps _ (pull_keeps_resolving (pullDepth s.graph) busy) (fun _ _ _ h => h) node s
    hs

theorem evaluateNode_keeps_resolving (busy : List NodeId) :
    Keeps (Session.Resolving busy) (evaluateNode node) :=
  (refreshInputs_keeps_resolving node busy).bind fun _ => runNode_keeps_resolving busy node

end Evaluations

/-- A step that can only stop properly comes to an end: it succeeds or fails. -/
theorem outcome_of_stops {m : Eval Unit} (h : StopsOnly Stop.Proper m) (s : Session) :
    ∃ outcome : Except EvaluationError Unit, (m s).answer = outcome.mapError .failed := by
  cases hanswer : (m s).answer with
  | ok _ => exact ⟨.ok (), rfl⟩
  | error stop =>
    have hproper : stop.Proper := (h s).error hanswer
    cases stop with
    | failed error => exact ⟨.error error, rfl⟩
    | exhausted => exact hproper.elim

/-- Evaluating a node or refreshing its inputs comes to an end on every graph, whatever was being
    resolved before: it succeeds or fails, and then the same nodes are being resolved again.  The
    recursion goes no deeper than one pull more than there are nodes, however deep it may go, and at
    every moment the nodes being resolved are the stack of its pulls and those from before.  A pass
    goes through its loop to the end and evaluates no more nodes than it may take steps. -/
theorem evaluation_terminates (g : Graph) (e : Evaluator) (node : NodeId) :
    let s : Session := ⟨e, g⟩
    (∃ outcome : Except EvaluationError Unit,
      (evaluateNode node s).answer = outcome.mapError .failed) ∧
    (∃ outcome : Except EvaluationError Unit,
      (refreshInputs node s).answer = outcome.mapError .failed) ∧
    (evaluateNode node s).session.evaluator.inProgress = e.inProgress ∧
    (refreshInputs node s).session.evaluator.inProgress = e.inProgress ∧
    (∀ more, evaluateWith (pull (g.nodes.size + 1 + more)) node s = evaluateNode node s ∧
      refreshInputsWith (pull (g.nodes.size + 1 + more)) node s = refreshInputs node s) ∧
    (∀ early more,
      evaluateWith (watchedPull s early (g.nodes.size + 1 + more) []) node s =
        evaluateNode node s ∧
      refreshInputsWith (watchedPull s early (g.nodes.size + 1 + more) []) node s =
        refreshInputs node s) ∧
    ∃ nodes ran, Rounds node ⟨e.cleared, g⟩ nodes ran ∧ nodes.length ≤ e.maxFlowSteps ∧
      runPass node s = passOf node ran := by
  intro s
  refine ⟨outcome_of_stops (evaluateNode_stops node) s, outcome_of_stops (refreshInputs_stops node) s,
    evaluateNode_keeps_resolving node _ s rfl, refreshInputs_keeps_resolving node _ s rfl,
    fun more => ⟨?_, ?_⟩, fun early more => ⟨?_, ?_⟩, runPass_rounds g e node⟩
  · exact (evaluateWith_watchedPull s exhaust 0 more node).symm.trans
      (evaluateWith_watchedPull s exhaust 0 0 node)
  · exact (refreshInputsWith_watchedPull s exhaust 0 more node).symm.trans
      (refreshInputsWith_watchedPull s exhaust 0 0 node)
  · exact evaluateWith_watchedPull s early more 0 node
  · exact refreshInputsWith_watchedPull s early more 0 node

end FlowGraph
