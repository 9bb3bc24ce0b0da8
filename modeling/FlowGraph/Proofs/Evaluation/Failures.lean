import FlowGraph.Proofs.Evaluation.Frame
import FlowGraph.Proofs.Evaluation.Sources

/-!
# How an evaluation may stop

A body stops in the name of its own node, and all that a graph ever refuses to it is the access to
a value (`body_stops`).  What the evaluation of a node may stop with is told by its parts: the
bodies, the copies along links, and the inputs without a source (`StopsWithin`).

The recursion of pulls is never cut short.  A pull that passes the guard takes one of the existing
nodes that were not being resolved, so there are fewer of these one level down
(`pull_ends_proper`); this holds of every graph and whatever the evaluator was resolving before.
-/

namespace FlowGraph

open Eval

/-! ## Bodies -/

/-- The graph only refused the access to a value. -/
def GraphError.isAccess : GraphError → Bool
  | .unknownPin _ | .unknownProperty _ | .value _ => true
  | _ => false

namespace Graph

theorem isAccess_setPin {id : PinId} {v : Value} {g : Graph} {cause : GraphError}
    (h : (setPin id v g).answer = .error cause) : cause.isAccess = true := by
  simp only [setPin, Edit.current_bind] at h
  cases hp : g.pins.get? id with
  | none =>
    rw [hp] at h
    cases h
    rfl
  | some pin =>
    simp only [hp] at h
    cases hv : pin.value.copy v with
    | error mismatch =>
      rw [hv] at h
      cases h
      rfl
    | ok w =>
      rw [hv] at h
      cases h

theorem isAccess_copyPin {source target : PinId} {g : Graph} {cause : GraphError}
    (h : (copyPin source target g).answer = .error cause) : cause.isAccess = true := by
  rw [copyPin_eq] at h
  split at h
  · cases h
    rfl
  · exact isAccess_setPin h

theorem isAccess_setProperty {id : PropertyId} {v : Value} {g : Graph} {cause : GraphError}
    (h : (setProperty id v g).answer = .error cause) : cause.isAccess = true := by
  simp only [setProperty, Edit.current_bind] at h
  cases hp : g.properties.get? id with
  | none =>
    rw [hp] at h
    cases h
    rfl
  | some property =>
    simp only [hp] at h
    cases hv : property.value.copy v with
    | error mismatch =>
      rw [hv] at h
      cases h
      rfl
    | ok w =>
      rw [hv] at h
      cases h

end Graph

namespace Eval

variable {α β : Type} {E : Stop → Prop}

/-- Wherever the step starts, it answers or stops in one of the given ways. -/
def StopsOnly (E : Stop → Prop) (m : Eval α) : Prop :=
  ∀ s, m.Ends s (fun _ _ => True) fun stop _ => E stop

theorem StopsOnly.pure (a : α) : StopsOnly E (pure a : Eval α) := fun _ => True.intro

theorem StopsOnly.graph : StopsOnly E graph := fun _ => True.intro

theorem StopsOnly.report (r : Report) : StopsOnly E (report r) := fun _ => True.intro

theorem StopsOnly.fail {error : EvaluationError} (h : E (.failed error)) :
    StopsOnly E (fail error : Eval α) := fun _ => h

theorem StopsOnly.bind {m : Eval α} {f : α → Eval β} (hm : StopsOnly E m)
    (hf : ∀ a, StopsOnly E (f a)) : StopsOnly E (m >>= f) := fun s =>
  ends_bind.mpr ((hm s).mono (fun a t _ => hf a t) fun _ _ he => he)

theorem StopsOnly.attempt {node : NodeId} {e : Edit (Except GraphError α)}
    (h : ∀ g cause, (e g).answer = .error cause → E (.failed (.graph node cause))) :
    StopsOnly E (attempt node e) := by
  refine fun s => ends_attempt.mpr ?_
  cases ha : (e s.graph).answer with
  | ok a => exact True.intro
  | error cause => exact h _ cause ha

end Eval

/-- A stop of the body of a node: the node failed, and what the graph refused, if it did, was the
    access to a value. -/
def Stop.OfBody (node : NodeId) : Stop → Prop
  | .failed (.missingInput m _) => m = node
  | .failed (.failed m _) => m = node
  | .failed (.graph m cause) => m = node ∧ cause.isAccess = true
  | _ => False

theorem bodyParts_stops (node : NodeId) :
    BodyParts node fun _ m => StopsOnly (Stop.OfBody node) m where
  pure := .pure
  bind := .bind
  graph := .graph
  missing _ := .fail rfl
  failed _ := .fail rfl
  logs _ := .report _
  registers _ := .report _
  starts _ := .report _
  pins _ _ := .attempt fun _ _ h => ⟨rfl, Graph.isAccess_setPin h⟩

/-- A body stops in the name of its node. -/
theorem body_stops (node : NodeId) (b : Behavior) : StopsOnly (Stop.OfBody node) (b.body node) :=
  (bodyParts_stops node).body b fun _ _ _ =>
    .attempt fun _ _ h => ⟨rfl, Graph.isAccess_setProperty h⟩

variable {E : Stop → Prop} {node : NodeId}

/-- Running a node stops as its body does, unless the node is not there or has no behavior. -/
theorem runNode_stops (habsent : E (.failed (.nodeNotFound node)))
    (hvacant : ∀ steps, E (.failed (.infiniteLoop node steps)))
    (hbody : ∀ stop : Stop, stop.OfBody node → E stop) : StopsOnly E (runNode node) := by
  intro s
  simp only [runNode, ends_bind, ends_graph]
  split
  · exact habsent
  · split
    · exact hvacant _
    · next b _ =>
      exact (body_stops node b _).mono (fun _ _ _ => True.intro) fun stop _ he => hbody stop he

/-! ## Evaluating a node -/

/-- What the parts of an evaluation may stop with while `P` holds of the session. -/
structure StopsWithin (P : Session → Prop) (E : Stop → Prop) : Prop where
  missing : ∀ node input, E (.failed (.missingInput node input))
  absent : ∀ node, E (.failed (.nodeNotFound node))
  copies : ∀ node i src s t, P s → s.graph.feedingPin? i = some src → P t →
    (attempt node (Graph.copyPin src i)).Ends t (fun _ u => P u) fun stop _ => E stop
  bodies : ∀ node s, P s → (runNode node).Ends s (fun _ t => P t) fun stop _ => E stop

namespace StopsWithin

variable {P : Session → Prop} {E : Stop → Prop} {pull : NodeId → Eval Unit} {s : Session}

theorem refreshInput (h : StopsWithin P E)
    (hpull : ∀ m t, P t → t.graph.isPure m = true →
      (pull m).Ends t (fun _ u => P u) fun stop _ => E stop)
    (hs : P s) (node : NodeId) (input : PinId) :
    (refreshInput pull node input).Ends s (fun _ t => P t) fun stop _ => E stop := by
  simp only [FlowGraph.refreshInput, ends_bind, ends_graph]
  split
  · exact hs
  · next pin hpin =>
    split
    · exact hs
    · split
      · exact h.missing node pin.name
      · next src hsrc =>
        split
        · exact h.missing node pin.name
        · next q hq =>
          split
          · next hpure =>
            rw [ends_bind]
            refine (hpull q.node s hs hpure).mono (fun _ t ht => ?_) fun _ _ he => he
            exact h.copies node input src s t hs hsrc ht
          · exact h.copies node input src s s hs hsrc hs

theorem refreshInputsWith (h : StopsWithin P E)
    (hpull : ∀ m t, P t → t.graph.isPure m = true →
      (pull m).Ends t (fun _ u => P u) fun stop _ => E stop)
    (hs : P s) (node : NodeId) :
    (refreshInputsWith pull node).Ends s (fun _ t => P t) fun stop _ => E stop := by
  simp only [FlowGraph.refreshInputsWith, ends_bind, ends_graph]
  split
  · exact h.absent node
  · exact ends_forM (I := fun _ t => P t) _ hs fun _ i t _ ht => h.refreshInput hpull ht node i

theorem evaluateWith (h : StopsWithin P E)
    (hpull : ∀ m t, P t → t.graph.isPure m = true →
      (pull m).Ends t (fun _ u => P u) fun stop _ => E stop)
    (hs : P s) (node : NodeId) :
    (evaluateWith pull node).Ends s (fun _ t => P t) fun stop _ => E stop := by
  rw [FlowGraph.evaluateWith, ends_bind]
  exact (h.refreshInputsWith hpull hs node).mono (fun _ t ht => h.bodies node t ht)
    fun _ _ he => he

/-- Pulls stop as what they evaluate, or they are refused or cut short. -/
theorem pull_ends (h : StopsWithin P E)
    (hloop : ∀ node steps, E (.failed (.infiniteLoop node steps)))
    (hdeep : E .exhausted)
    (hbegins : ∀ node s, P s → P { s with evaluator := beginPull node s.evaluator })
    (hends : ∀ node s, P s → P { s with evaluator := endPull node s.evaluator }) (depth : Nat) :
    ∀ m s, P s → (FlowGraph.pull depth m).Ends s (fun _ t => P t) fun stop _ => E stop := by
  induction depth with
  | zero => exact fun _ _ _ => hdeep
  | succ depth ih =>
    intro m s hs
    simp only [FlowGraph.pull, ends_bind, ends_evaluator]
    split
    · exact hloop m _
    · simp only [ends_updateEvaluator, ends_bind, ends_andFinally]
      exact (h.evaluateWith (fun k t ht _ => ih k t ht) (hbegins m s hs) m).mono
        (fun _ t ht => hends m t ht) fun _ _ he => he

end StopsWithin

/-! ## The depth of pulls -/

/-- A failure, in which the graph refused no more than the access to a value. -/
def Stop.Proper : Stop → Prop
  | .failed (.graph _ cause) => cause.isAccess = true
  | .failed _ => True
  | .exhausted => False

theorem Stop.OfBody.proper {stop : Stop} (h : stop.OfBody node) : stop.Proper := by
  cases stop with
  | exhausted => exact h
  | failed error =>
    cases error with
    | graph m cause => exact h.2
    | _ => exact True.intro

/-- The graph of the session has the given nodes, and those of `busy` are being resolved. -/
def Session.Pulling (keys busy : List NodeId) (s : Session) : Prop :=
  s.graph.nodes.keys = keys ∧ s.Resolving busy

variable {keys busy : List NodeId}

theorem stopsWithin_pulling : StopsWithin (Session.Pulling keys busy) Stop.Proper where
  missing _ _ := True.intro
  absent _ := True.intro
  copies node i src _ t _ _ ht := by
    have hkept : Keeps (Session.Pulling keys busy) (attempt node (Graph.copyPin src i)) :=
      .attempt node fun s hs => ⟨(keptByParts_nodes keys).copies src i s hs.1, hs.2⟩
    have hstops : StopsOnly Stop.Proper (attempt node (Graph.copyPin src i)) :=
      .attempt fun _ _ h => Graph.isAccess_copyPin h
    exact ((hstops t).and_keeps hkept ht).mono (fun _ _ hq => hq.2) fun _ _ he => he.1
  bodies node s hs := by
    have hkept : Keeps (Session.Pulling keys busy) (runNode node) :=
      ((keptByParts_nodes keys).bodies node).and (runNode_keeps_resolving busy node)
    have hstops : StopsOnly Stop.Proper (runNode node) :=
      runNode_stops True.intro (fun _ => True.intro) fun _ => Stop.OfBody.proper
    exact ((hstops s).and_keeps hkept hs).mono (fun _ _ hq => hq.2) fun _ _ he => he.1

/-- With one more node being resolved there are fewer that are not. -/
theorem length_filter_not_mem_cons {m : NodeId} (hm : m ∈ keys) (hin : m ∉ busy) :
    (keys.filter (· ∉ m :: busy)).length < (keys.filter (· ∉ busy)).length := by
  have hsplit : keys.filter (· ∉ m :: busy) = (keys.filter (· ∉ busy)).filter (· ≠ m) := by
    rw [List.filter_filter]
    exact List.filter_congr fun k _ => by simp
  rw [hsplit, List.length_filter_lt_length_iff_exists]
  exact ⟨m, List.mem_filter.mpr ⟨hm, by simpa using hin⟩, by simp⟩

/-- A pull does not come to the end of its depth as long as there are fewer nodes left that are not
    being resolved: the node it takes is one of them. -/
theorem pull_ends_proper (depth : Nat) :
    ∀ {busy : List NodeId}, (keys.filter (· ∉ busy)).length < depth → ∀ m s,
      s.Pulling keys busy → s.graph.isPure m = true →
      (pull depth m).Ends s (fun _ t => t.Pulling keys busy) fun stop _ => stop.Proper := by
  induction depth with
  | zero => exact fun hroom => absurd hroom (Nat.not_lt_zero _)
  | succ depth ih =>
    intro busy hroom m s hs hpure
    have hkept : Keeps (Session.Pulling keys busy) (pull (depth + 1) m) :=
      ((keptByParts_nodes keys).pull (depth + 1) m).and (pull_keeps_resolving (depth + 1) busy m)
    suffices hends : (pull (depth + 1) m).Ends s (fun _ _ => True) fun stop _ => stop.Proper from
      (hends.and_keeps hkept hs).mono (fun _ _ hq => hq.2) fun _ _ he => he.1
    have hprogress : s.evaluator.inProgress = busy := hs.2
    simp only [pull, ends_bind, ends_evaluator, hprogress]
    by_cases hin : m ∈ busy
    · simp only [hin, if_true, ends_fail]
      exact True.intro
    · simp only [hin, if_false, ends_updateEvaluator, ends_bind, ends_andFinally]
      have hm : m ∈ keys := by
        obtain ⟨n, hn, -⟩ := Graph.isPure_iff.mp hpure
        exact hs.1 ▸ Table.mem_keys_of_get? hn
      have hfewer := length_filter_not_mem_cons hm hin
      have hpull := @ih (m :: busy) (Nat.lt_of_lt_of_le hfewer (Nat.le_of_lt_succ hroom))
      have hbegun : Session.Pulling keys (m :: busy) ⟨beginPull m s.evaluator, s.graph⟩ :=
        ⟨hs.1, congrArg (m :: ·) hprogress⟩
      exact (stopsWithin_pulling.evaluateWith hpull hbegun m).mono (fun _ _ _ => True.intro)
        fun _ _ he => he

/-- Wherever an evaluation starts, its pulls come to an end by themselves. -/
theorem pullDepth_suffices (s : Session) :
    ∀ m t, t.Pulling s.graph.nodes.keys s.evaluator.inProgress → t.graph.isPure m = true →
      (pull (pullDepth s.graph) m).Ends t
        (fun _ u => u.Pulling s.graph.nodes.keys s.evaluator.inProgress) fun stop _ => stop.Proper := by
  refine pull_ends_proper _ ?_
  rw [pullDepth, Table.size_eq_length_keys]
  exact Nat.lt_succ_of_le (List.length_filter_le _ _)

theorem refreshInputs_stops (node : NodeId) : StopsOnly Stop.Proper (refreshInputs node) := by
  refine fun s => Ends.congr (m := refreshInputsWith (pull (pullDepth s.graph)) node) rfl ?_
  exact (stopsWithin_pulling.refreshInputsWith (pullDepth_suffices s) ⟨rfl, rfl⟩ node).mono
    (fun _ _ _ => True.intro) fun _ _ he => he

theorem evaluateNode_stops (node : NodeId) : StopsOnly Stop.Proper (evaluateNode node) := by
  refine fun s => Ends.congr (m := evaluateWith (pull (pullDepth s.graph)) node) rfl ?_
  exact (stopsWithin_pulling.evaluateWith (pullDepth_suffices s) ⟨rfl, rfl⟩ node).mono
    (fun _ _ _ => True.intro) fun _ _ he => he

end FlowGraph
