import FlowGraph.Proofs.Evaluation.Pass

/-!
# The rounds of a pass

A pass is a loop: each round evaluates a node, counts it and asks for the next one.  `Rounds` is the
loop without any bound on its rounds, so a pass comes to an end exactly if it has rounds at all.
`walk` has them, and no more than it may take (`walk_rounds`): the count that it checks itself ends
the loop in time.

The reports of the rounds are kept here too.  What a pass did is then told by `Rounds.course`: it
visited some nodes one after the other, and that was all, or one more node failed.
-/

namespace FlowGraph

open Eval

/-- The loop of a pass from a node on: the nodes that are evaluated, and what comes of it. -/
inductive Rounds : NodeId → Session → List NodeId → Ran Unit → Prop where
  /-- No step is left. -/
  | spent {node : NodeId} {s : Session} (h : s.evaluator.maxFlowSteps ≤ s.evaluator.evaluated) :
      Rounds node s [] ⟨.ok (), s, []⟩
  /-- The node fails. -/
  | failed {node : NodeId} {s : Session} {error : EvaluationError}
      (hleft : s.evaluator.evaluated < s.evaluator.maxFlowSteps)
      (h : (evaluateNode node s).answer = .error (.failed error)) :
      Rounds node s [node]
        ⟨.ok (), ⟨(evaluateNode node s).session.evaluator.failWith error,
          (evaluateNode node s).session.graph⟩, (evaluateNode node s).reports⟩
  /-- The step was the last. -/
  | stopped {node : NodeId} {s : Session} {t : Ran Unit}
      (hleft : s.evaluator.evaluated < s.evaluator.maxFlowSteps) (ht : visitNode node s = t)
      (h : t.answer = .ok ()) (hfull : t.session.evaluator.evaluated = t.session.evaluator.maxFlowSteps) :
      Rounds node s [node]
        ⟨.ok (), ⟨t.session.evaluator.failWith (.infiniteLoop node t.session.evaluator.evaluated),
          t.session.graph⟩, t.reports⟩
  /-- The flow ends. -/
  | arrived {node : NodeId} {s : Session} {t : Ran Unit}
      (hleft : s.evaluator.evaluated < s.evaluator.maxFlowSteps) (ht : visitNode node s = t)
      (h : t.answer = .ok ())
      (hmore : t.session.evaluator.evaluated ≠ t.session.evaluator.maxFlowSteps)
      (hend : t.session.graph.flowSuccessor? node = none) : Rounds node s [node] t
  /-- The flow goes on. -/
  | next {node next : NodeId} {s : Session} {nodes : List NodeId} {t ran : Ran Unit}
      (hleft : s.evaluator.evaluated < s.evaluator.maxFlowSteps) (ht : visitNode node s = t)
      (h : t.answer = .ok ())
      (hmore : t.session.evaluator.evaluated ≠ t.session.evaluator.maxFlowSteps)
      (hnext : t.session.graph.flowSuccessor? node = some next)
      (hrest : Rounds next t.session nodes ran) :
      Rounds node s (node :: nodes) ⟨ran.answer, ran.session, t.reports ++ ran.reports⟩

/-- The walk that counts the steps that are left is the loop that checks its own count, and it is
    over when none is left. -/
theorem walk_rounds (steps : Nat) : ∀ node s,
    s.evaluator.evaluated + steps = s.evaluator.maxFlowSteps →
    ∃ nodes, Rounds node s nodes (walk steps node s) ∧ nodes.length ≤ steps := by
  induction steps with
  | zero => exact fun _ _ hsteps => ⟨[], .spent (Nat.le_of_eq hsteps.symm), Nat.le_refl 0⟩
  | succ steps ih =>
    intro node s hsteps
    have hleft : s.evaluator.evaluated < s.evaluator.maxFlowSteps := by omega
    cases hanswer : (evaluateNode node s).answer with
    | error stop =>
      have hproper : stop.Proper := (evaluateNode_stops node s).error hanswer
      cases stop with
      | exhausted => exact hproper.elim
      | failed error =>
        refine ⟨[node], ?_, Nat.succ_le_succ (Nat.zero_le steps)⟩
        rw [walk_of_error hanswer]
        exact .failed hleft hanswer
    | ok _ =>
      have hok : (visitNode node s).answer = .ok () := by rw [visitNode_of_ok hanswer]
      obtain ⟨hmax, hcount, -⟩ := Evaluator.record_eq_record ((visitNode_record node s).ok hok)
      generalize ht : visitNode node s = t at hok hmax hcount
      simp only [Evaluator.visit] at hmax hcount
      rw [walk_of_ok hanswer ht]
      split
      · next hfull => exact ⟨[node], .stopped hleft ht hok hfull, Nat.succ_le_succ (Nat.zero_le _)⟩
      · next hmore =>
        cases hnext : t.session.graph.flowSuccessor? node with
        | none => exact ⟨[node], .arrived hleft ht hok hmore hnext, Nat.succ_le_succ (Nat.zero_le _)⟩
        | some next =>
          obtain ⟨nodes, hrest, hle⟩ := ih next t.session (by omega)
          exact ⟨node :: nodes, .next hleft ht hok hmore hnext hrest, Nat.succ_le_succ hle⟩

/-! ## What a pass did -/

/-- What the rounds from a node come to, after visits that came to `done`: that is all, or the node
    that comes next in the flow fails. -/
inductive RoundsEnd (node : NodeId) (s : Session) (visited : List NodeId) (done : Ran Unit) :
    List NodeId → Ran Unit → Prop where
  | through {e : Evaluator}
      (he : e = done.session.evaluator ∨
        ∃ last steps, e = done.session.evaluator.failWith (.infiniteLoop last steps)) :
      RoundsEnd node s visited done visited ⟨.ok (), ⟨e, done.session.graph⟩, done.reports⟩
  | broken {m : NodeId} {error : EvaluationError}
      (hnode : ∀ g : Graph, g.Indexed → s.Framed g → g.flowNode? node visited.length = some m)
      (herror : (evaluateNode m done.session).answer = .error (.failed error)) :
      RoundsEnd node s visited done (visited ++ [m])
        ⟨.ok (), ⟨(evaluateNode m done.session).session.evaluator.failWith error,
          (evaluateNode m done.session).session.graph⟩,
          done.reports ++ (evaluateNode m done.session).reports⟩

theorem visitAll_cons_of_ok {node : NodeId} {s : Session} {t : Ran Unit}
    (ht : visitNode node s = t) (h : t.answer = .ok ()) (nodes : List NodeId) :
    visitAll (node :: nodes) s = ⟨(visitAll nodes t.session).answer,
      (visitAll nodes t.session).session, t.reports ++ (visitAll nodes t.session).reports⟩ := by
  show (visitNode node >>= fun _ => visitAll nodes) s = _
  rw [bind_apply, ht, h]

theorem visitAll_singleton_of_ok {node : NodeId} {s : Session} {t : Ran Unit}
    (ht : visitNode node s = t) (h : t.answer = .ok ()) : visitAll [node] s = t := by
  obtain ⟨answer, session, reports⟩ := t
  cases h
  rw [visitAll_cons_of_ok ht rfl]
  simp [visitAll]

/-- The rounds are visits to the first nodes that are evaluated, and perhaps one more node that
    fails. -/
theorem Rounds.course {node : NodeId} {s : Session} {nodes : List NodeId} {ran : Ran Unit}
    (h : Rounds node s nodes ran) :
    ∃ visited, (visitAll visited s).answer = .ok () ∧
      RoundsEnd node s visited (visitAll visited s) nodes ran := by
  induction h with
  | spent => exact ⟨[], rfl, .through (.inl rfl)⟩
  | failed _ h => exact ⟨[], rfl, .broken (fun _ _ _ => rfl) h⟩
  | @stopped node s t _ ht h =>
    have hvisits := visitAll_singleton_of_ok ht h
    refine ⟨[node], hvisits ▸ h, ?_⟩
    rw [hvisits]
    exact .through (.inr ⟨_, _, rfl⟩)
  | @arrived node s t _ ht h =>
    have hvisits := visitAll_singleton_of_ok ht h
    refine ⟨[node], hvisits ▸ h, ?_⟩
    obtain ⟨answer, session, reports⟩ := t
    cases h
    rw [hvisits]
    exact .through (.inl rfl)
  | @next node next s nodes t ran _ ht h _ hnext _ ih =>
    obtain ⟨visited, hok, hend⟩ := ih
    refine ⟨node :: visited, ?_, ?_⟩
    · rw [visitAll_cons_of_ok ht h]
      exact hok
    · rw [visitAll_cons_of_ok ht h]
      cases hend with
      | through he => exact .through he
      | broken hnode herror =>
        rw [← List.append_assoc]
        refine .broken (fun g hg hs => ?_) herror
        have hframed : t.session.Framed g :=
          ht ▸ visitNode_keeps (keptByParts_framed hg) node s hs
        rw [Graph.flowSuccessor?_of_frame hframed] at hnext
        exact (Graph.flowNode?_next hnext _).trans (hnode g hg hframed)

/-- The end of the rounds adds no visit. -/
theorem RoundsEnd.visited_eq {node : NodeId} {s : Session} {visited nodes : List NodeId}
    {done ran : Ran Unit} (h : RoundsEnd node s visited done nodes ran) :
    ran.session.evaluator.visited = done.session.evaluator.visited := by
  cases h with
  | through he => rcases he with rfl | ⟨last, steps, rfl⟩ <;> rfl
  | @broken m error =>
    obtain ⟨-, -, -, hvisited⟩ := Evaluator.record_eq_record
      ((keptByPulls_record done.session.evaluator.record).evaluateNode m done.session rfl)
    exact hvisited

/-- A pass is the loop of a cleared evaluator. -/
theorem runPass_rounds (g : Graph) (e : Evaluator) (entry : NodeId) :
    ∃ nodes ran, Rounds entry ⟨e.cleared, g⟩ nodes ran ∧ nodes.length ≤ e.maxFlowSteps ∧
      runPass entry ⟨e, g⟩ = passOf entry ran := by
  obtain ⟨nodes, hrounds, hle⟩ := walk_rounds e.maxFlowSteps entry ⟨e.cleared, g⟩ (Nat.zero_add _)
  exact ⟨nodes, _, hrounds, hle, runPass_eq_passOf g e entry⟩

/-- The nodes that visits succeed for are on the record. -/
theorem visited_visitAll {g : Graph} {e : Evaluator} {nodes : List NodeId}
    (h : (visitAll nodes ⟨e.cleared, g⟩).answer = .ok ()) :
    (visitAll nodes ⟨e.cleared, g⟩).session.evaluator.visited = nodes := by
  obtain ⟨-, -, -, hvisited⟩ := Evaluator.record_eq_record ((visitAll_record nodes _).ok h)
  exact hvisited

/-- A pass that succeeds is the visits to its nodes and nothing besides. -/
theorem visitAll_of_runPass {g : Graph} {e : Evaluator} {entry : NodeId}
    (h : (runPass entry ⟨e, g⟩).answer = .ok true) :
    visitAll (runPass entry ⟨e, g⟩).session.evaluator.visited ⟨e.cleared, g⟩ =
      ⟨.ok (), (runPass entry ⟨e, g⟩).session, (runPass entry ⟨e, g⟩).reports⟩ := by
  obtain ⟨nodes, ran, hrounds, -, hpass⟩ := runPass_rounds g e entry
  rw [hpass] at h ⊢
  have hnone : ran.session.evaluator.lastError = none := by simpa [passOf] using h
  obtain ⟨visited, hok, hend⟩ := hrounds.course
  have hvisited := visited_visitAll hok
  cases hend with
  | broken => cases hnone
  | through he =>
    rcases he with rfl | ⟨last, steps, rfl⟩
    · simp only [passOf, hvisited]
      rw [hnone, ← hok]
      simp
    · cases hnone

end FlowGraph
