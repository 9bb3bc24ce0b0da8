import FlowGraph.Proofs.Evaluation.Failures
import FlowGraph.Proofs.Numbering

/-!
# The way of a pass

Which node follows another in the flow is a matter of the frame of a graph.  So a pass goes the way
that the flow had when it started, although it asks for each next node only after the bodies before
it have run.  It stops where the flow ends, at a node that fails, or after as many nodes as it may
visit, whichever comes first.

A pass that arrives has visited no node twice: from a node that comes again the flow would repeat
itself and have no end.
-/

namespace FlowGraph

open Eval

/-! ## The flow of a graph -/

namespace Graph

variable {g g' : Graph}

theorem flowSuccessor?_frame (g : Graph) (k : NodeId) :
    g.frame.flowSuccessor? k = g.flowSuccessor? k := by
  have htest : ∀ p, ((g.pins.map .blank).get? p).any (·.isFlow) =
      (g.pins.get? p).any (·.isFlow) := by
    intro p
    rw [Table.get?_map]
    cases g.pins.get? p with
    | none => rfl
    | some pin => exact Pin.isFlow_blank pin
  have hpin : g.frame.flowPin? k .output = g.flowPin? k .output := by
    simp only [flowPin?, frame, htest]
  unfold flowSuccessor?
  rw [hpin]
  simp only [frame, Table.get?_map, Option.bind_eq_bind, Option.bind_map]
  rfl

theorem flowSuccessor?_of_frame (hf : g'.frame = g.frame) (k : NodeId) :
    g'.flowSuccessor? k = g.flowSuccessor? k := by
  rw [← flowSuccessor?_frame g', hf, flowSuccessor?_frame]

/-- The node that the flow comes to after some steps from the entry. -/
def flowNode? (g : Graph) (entry : NodeId) : Nat → Option NodeId
  | 0 => some entry
  | i + 1 => (g.flowNode? entry i).bind g.flowSuccessor?

theorem flowNode?_next {entry next : NodeId} (h : g.flowSuccessor? entry = some next) (i : Nat) :
    g.flowNode? entry (i + 1) = g.flowNode? next i := by
  induction i with
  | zero => exact h
  | succ i ih => rw [flowNode?, ih, flowNode?]

/-- From equal nodes the flow goes the same way. -/
theorem flowNode?_add {entry : NodeId} {i j : Nat} (h : g.flowNode? entry i = g.flowNode? entry j)
    (n : Nat) : g.flowNode? entry (i + n) = g.flowNode? entry (j + n) := by
  induction n with
  | zero => exact h
  | succ n ih => rw [← Nat.add_assoc, ← Nat.add_assoc, flowNode?, flowNode?, ih]

/-- The nodes are the first that the flow comes to from the entry, in order. -/
def Follows (g : Graph) (entry : NodeId) (nodes : List NodeId) : Prop :=
  ∀ i < nodes.length, nodes[i]? = g.flowNode? entry i

theorem Follows.nil {entry : NodeId} : g.Follows entry [] :=
  fun i hi => absurd hi (Nat.not_lt_zero i)

theorem Follows.singleton {entry : NodeId} : g.Follows entry [entry] := by
  intro i hi
  obtain rfl : i = 0 := Nat.lt_one_iff.mp hi
  rfl

theorem Follows.cons {entry next : NodeId} {nodes : List NodeId}
    (hnext : g.flowSuccessor? entry = some next) (h : g.Follows next nodes) :
    g.Follows entry (entry :: nodes) := by
  intro i hi
  cases i with
  | zero => rfl
  | succ i =>
    rw [flowNode?_next hnext, List.getElem?_cons_succ]
    exact h i (Nat.lt_of_succ_lt_succ hi)

/-- The last of the nodes is as many steps from the entry as there are nodes before it. -/
theorem Follows.last {entry last : NodeId} {nodes : List NodeId} (h : g.Follows entry nodes)
    (hlast : nodes.getLast? = some last) :
    1 ≤ nodes.length ∧ g.flowNode? entry (nodes.length - 1) = some last := by
  have hpos : 1 ≤ nodes.length := List.length_pos_iff.mpr fun hnil => by
    rw [hnil] at hlast
    cases hlast
  rw [← h _ (Nat.sub_lt hpos Nat.one_pos), ← List.getLast?_eq_getElem?]
  exact ⟨hpos, hlast⟩

/-- A flow that comes to an end visits no node twice. -/
theorem Follows.nodup {entry : NodeId} {visited : List NodeId} (hvisited : g.Follows entry visited)
    (hend : g.flowNode? entry visited.length = none) : visited.Nodup := by
  rw [List.nodup_iff_getElem?_ne_getElem?]
  intro i j hij hj heq
  rw [hvisited i (Nat.lt_trans hij hj), hvisited j hj] at heq
  -- What is as far behind node `i` as the end is behind node `j` is the end too, and comes earlier.
  have hlater := flowNode?_add heq (visited.length - j)
  rw [Nat.add_sub_cancel' (Nat.le_of_lt hj), hend] at hlater
  have hearlier : i + (visited.length - j) < visited.length := by omega
  rw [← hvisited _ hearlier, List.getElem?_eq_none_iff] at hlater
  omega

end Graph

/-! ## Visits -/

/-- An evaluator without its account of pulls. -/
def Evaluator.record (e : Evaluator) : Evaluator := { e with pulled := 0, inProgress := [] }

theorem Evaluator.record_eq_record {e e' : Evaluator} (h : e.record = e'.record) :
    e.maxFlowSteps = e'.maxFlowSteps ∧ e.evaluated = e'.evaluated ∧ e.lastError = e'.lastError ∧
      e.visited = e'.visited := by
  simpa [record] using h

/-- Counts several flow nodes as done. -/
def Evaluator.visitAll (nodes : List NodeId) (e : Evaluator) : Evaluator :=
  { e with visited := e.visited ++ nodes, evaluated := e.evaluated + nodes.length }

/-- Evaluating a node has no part in the record of a pass. -/
theorem keptByPulls_record (r : Evaluator) : KeptByPulls fun s => s.evaluator.record = r where
  copies _ _ _ h := h
  bodies := runNode_keeps ⟨fun _ _ _ h => h, fun _ _ _ h => h⟩ fun _ _ _ h => h
  begins _ _ h := h
  ends _ _ h := h

/-- Evaluates a node and counts it. -/
def visitNode (node : NodeId) : Eval Unit := do
  evaluateNode node
  updateEvaluator (.visit node)

theorem visitNode_of_ok {node : NodeId} {s : Session}
    (h : (evaluateNode node s).answer = .ok ()) :
    visitNode node s = ⟨.ok (), ⟨(evaluateNode node s).session.evaluator.visit node,
      (evaluateNode node s).session.graph⟩, (evaluateNode node s).reports⟩ := by
  simp [visitNode, bind_apply, h, updateEvaluator]

/-- Visits nodes one after the other, up to the first that fails. -/
def visitAll (nodes : List NodeId) : Eval Unit := nodes.forM visitNode

theorem visitNode_keeps {P : Session → Prop} (h : KeptByParts P) (node : NodeId) :
    Keeps P (visitNode node) :=
  (h.evaluateNode node).bind fun _ s hs => h.counts s _ hs

theorem visitAll_keeps {P : Session → Prop} (h : KeptByParts P) (nodes : List NodeId) :
    Keeps P (visitAll nodes) :=
  .forM (visitNode_keeps h) nodes

/-- A visit to a node comes before the visits to the nodes behind it. -/
theorem visitAll_cons_ends {node : NodeId} {nodes : List NodeId} {s : Session}
    {Q : Unit → Session → Prop} {E : Stop → Session → Prop}
    (hvisit : (visitNode node s).answer = .ok ())
    (h : (visitAll nodes).Ends (visitNode node s).session Q E) :
    (visitAll (node :: nodes)).Ends s Q E :=
  ends_bind.mpr (.of_ok hvisit h)

theorem visitNode_record (node : NodeId) (s : Session) :
    (visitNode node).Ends s (fun _ t => t.evaluator.record = (s.evaluator.visit node).record)
      fun _ _ => True := by
  refine ends_bind.mpr (((keptByPulls_record s.evaluator.record).evaluateNode node).ends rfl |>.mono
    (fun _ t ht => ?_) fun _ _ _ => True.intro)
  exact congrArg (Evaluator.visit node) ht

theorem visitAll_record (nodes : List NodeId) (s : Session) :
    (visitAll nodes).Ends s (fun _ t => t.evaluator.record = (s.evaluator.visitAll nodes).record)
      fun _ _ => True := by
  refine ends_forM (I := fun done t => t.evaluator.record = (s.evaluator.visitAll done).record)
    nodes ?_ fun done node t _ ht => ?_
  · simp [Evaluator.visitAll]
  · refine (visitNode_record node t).mono (fun _ u hu => ?_) fun _ _ _ => True.intro
    have hvisit := congrArg (Evaluator.visit node) ht
    rw [hu]
    refine Eq.trans hvisit ?_
    simp [Evaluator.visitAll, Evaluator.visit, Evaluator.record, Nat.add_assoc]

/-! ## Walks -/

section Walk

variable {g : Graph} {steps : Nat} {node : NodeId} {s t : Session}

/-- A walk whose first node fails is over with the failure kept. -/
theorem walk_of_error {error : EvaluationError}
    (h : (evaluateNode node s).answer = .error (.failed error)) :
    walk (steps + 1) node s = ⟨.ok (), ⟨(evaluateNode node s).session.evaluator.failWith error,
      (evaluateNode node s).session.graph⟩, (evaluateNode node s).reports⟩ := by
  simp [walk, bind_apply, settle, Ran.outcome, h, updateEvaluator]

/-- A walk that has visited a node stops, goes on with the next one or has arrived. -/
theorem walk_of_ok {ran : Ran Unit} (h : (evaluateNode node s).answer = .ok ())
    (hran : visitNode node s = ran) :
    walk (steps + 1) node s =
      if ran.session.evaluator.evaluated = ran.session.evaluator.maxFlowSteps then
        ⟨.ok (), ⟨ran.session.evaluator.failWith (.infiniteLoop node ran.session.evaluator.evaluated),
          ran.session.graph⟩, ran.reports⟩
      else
        match ran.session.graph.flowSuccessor? node with
        | some next =>
          ⟨(walk steps next ran.session).answer, (walk steps next ran.session).session,
            ran.reports ++ (walk steps next ran.session).reports⟩
        | none => ran := by
  obtain rfl := hran.symm.trans (visitNode_of_ok h)
  simp only [walk, bind_apply, settle, Ran.outcome, h, updateEvaluator, evaluator, List.nil_append]
  split
  · simp [updateEvaluator]
  · simp only [bind_apply, Eval.graph, List.nil_append]
    cases (evaluateNode node s).session.graph.flowSuccessor? node <;> simp

/-- How a walk ends, with the session `t` it had after its visits to `nodes`. -/
inductive WalkEnd (g : Graph) (steps : Nat) (node : NodeId) (nodes : List NodeId) (t : Session) :
    Session → Prop where
  | arrived {last : NodeId} (hlast : nodes.getLast? = some last)
      (hend : g.flowSuccessor? last = none) (hless : nodes.length < steps) :
      WalkEnd g steps node nodes t t
  | broken {m : NodeId} {error : EvaluationError}
      (hnode : g.flowNode? node nodes.length = some m) (hless : nodes.length < steps)
      (herror : (evaluateNode m t).answer = .error (.failed error)) :
      WalkEnd g steps node nodes t
        ⟨(evaluateNode m t).session.evaluator.failWith error, (evaluateNode m t).session.graph⟩
  | stopped {last : NodeId} (hlast : nodes.getLast? = some last) (hfull : nodes.length = steps) :
      WalkEnd g steps node nodes t
        { t with evaluator := t.evaluator.failWith (.infiniteLoop last t.evaluator.evaluated) }

theorem WalkEnd.cons {next : NodeId} {nodes : List NodeId} {u : Session}
    (hnext : g.flowSuccessor? node = some next) (h : WalkEnd g steps next nodes t u) :
    WalkEnd g (steps + 1) node (node :: nodes) t u := by
  cases h with
  | arrived hlast hend hless =>
    exact .arrived (by simp [List.getLast?_cons, hlast]) hend (Nat.succ_lt_succ hless)
  | broken hnode hless herror =>
    exact .broken ((Graph.flowNode?_next hnext _).trans hnode) (Nat.succ_lt_succ hless) herror
  | stopped hlast hfull =>
    exact .stopped (by simp [List.getLast?_cons, hlast]) (congrArg (· + 1) hfull)

theorem WalkEnd.length_le {nodes : List NodeId} {u : Session}
    (h : WalkEnd g steps node nodes t u) : nodes.length ≤ steps := by
  cases h with
  | arrived _ _ hless => exact Nat.le_of_lt hless
  | broken _ hless _ => exact Nat.le_of_lt hless
  | stopped _ hfull => exact Nat.le_of_eq hfull

/-- The end of a walk adds no visit. -/
theorem WalkEnd.visits {nodes : List NodeId} {u : Session} (h : WalkEnd g steps node nodes t u) :
    u.evaluator.visited = t.evaluator.visited ∧ u.evaluator.evaluated = t.evaluator.evaluated := by
  cases h with
  | arrived => exact ⟨rfl, rfl⟩
  | @broken m _ =>
    obtain ⟨-, hcount, -, hvisited⟩ := Evaluator.record_eq_record
      ((keptByPulls_record t.evaluator.record).evaluateNode m t rfl)
    exact ⟨hvisited, hcount⟩
  | stopped => exact ⟨rfl, rfl⟩

/-- A walk visits the nodes of the flow in order, as far as they can be evaluated, until there is
    no next one or no step is left. -/
theorem walk_ends (hg : g.Indexed) (steps : Nat) : ∀ node s, s.Framed g → 1 ≤ steps →
    s.evaluator.evaluated + steps = s.evaluator.maxFlowSteps →
    ∃ nodes, g.Follows node nodes ∧ (visitAll nodes).Ends s
      (fun _ t => WalkEnd g steps node nodes t (walk steps node s).session) fun _ _ => False := by
  induction steps with
  | zero => exact fun _ _ _ hpos => absurd hpos (Nat.not_succ_le_zero 0)
  | succ steps ih =>
    intro node s hs _ hsteps
    cases hanswer : (evaluateNode node s).answer with
    | error stop =>
      have hproper : stop.Proper := (evaluateNode_stops node s).error hanswer
      cases stop with
      | exhausted => exact hproper.elim
      | failed error =>
        refine ⟨[], .nil, ?_⟩
        show WalkEnd g (steps + 1) node [] s (walk (steps + 1) node s).session
        rw [walk_of_error hanswer]
        exact .broken rfl (Nat.succ_pos steps) hanswer
    | ok _ =>
      have hvisit : (visitNode node s).answer = .ok () := by
        rw [visitNode_of_ok hanswer]
      have hframed : (visitNode node s).session.Framed g :=
        visitNode_keeps (keptByParts_framed hg) node s hs
      obtain ⟨hmax, hcount, -⟩ := Evaluator.record_eq_record ((visitNode_record node s).ok hvisit)
      simp only [Evaluator.visit] at hmax hcount
      have hwalk := @walk_of_ok steps _ _ _ hanswer rfl
      split at hwalk
      · next hfull =>
        refine ⟨[node], .singleton, visitAll_cons_ends hvisit ?_⟩
        show WalkEnd g (steps + 1) node [node] _ (walk (steps + 1) node s).session
        rw [hwalk]
        exact .stopped rfl (by simp; omega)
      · next hmore =>
        have hpos : 1 ≤ steps := by omega
        rw [Graph.flowSuccessor?_of_frame hframed] at hwalk
        cases hnext : g.flowSuccessor? node with
        | some next =>
          simp only [hnext] at hwalk
          obtain ⟨nodes, hnodes, hends⟩ := ih next _ hframed hpos (by omega)
          refine ⟨node :: nodes, hnodes.cons hnext, visitAll_cons_ends hvisit ?_⟩
          rw [hwalk]
          exact hends.mono (fun _ _ h => h.cons hnext) fun _ _ h => h
        | none =>
          simp only [hnext] at hwalk
          refine ⟨[node], .singleton, visitAll_cons_ends hvisit ?_⟩
          show WalkEnd g (steps + 1) node [node] _ (walk (steps + 1) node s).session
          rw [hwalk]
          exact .arrived rfl hnext (Nat.succ_lt_succ hpos)

end Walk

/-! ## Passes -/

/-- Whatever ends a walk, it answers. -/
theorem walk_answer (steps : Nat) : ∀ node s, (walk steps node s).answer = .ok () := by
  induction steps with
  | zero => exact fun _ _ => rfl
  | succ steps ih =>
    intro node s
    simp only [walk, bind_apply, settle]
    cases (evaluateNode node s).outcome node with
    | error error => rfl
    | ok _ =>
      simp only [bind_apply, updateEvaluator, evaluator]
      split
      · rfl
      · simp only [bind_apply, Eval.graph]
        cases (evaluateNode node s).session.graph.flowSuccessor? node with
        | some next => exact ih next _
        | none => rfl

variable {g : Graph} {e : Evaluator} {entry : NodeId}

/-- What a pass makes of its walk: it answers whether a failure was kept, and logs it. -/
def passOf (entry : NodeId) (ran : Ran Unit) : Ran Bool :=
  ⟨.ok ran.session.evaluator.lastError.isNone, ran.session,
    ran.reports ++ (ran.session.evaluator.lastError.map fun error =>
      Report.logged (.passFailed entry error)).toList⟩

theorem runPass_eq_passOf (g : Graph) (e : Evaluator) (entry : NodeId) :
    runPass entry ⟨e, g⟩ = passOf entry (walk e.maxFlowSteps entry ⟨e.cleared, g⟩) := by
  have hlimit : e.cleared.maxFlowSteps = e.maxFlowSteps := rfl
  simp only [runPass, passOf, bind_apply, updateEvaluator, evaluator, hlimit, walk_answer]
  cases (walk e.maxFlowSteps entry ⟨e.cleared, g⟩).session.evaluator.lastError <;>
    simp [report, bind_apply]

/-- A pass is a walk with the evaluator cleared, and it is successful if no error was kept. -/
theorem runPass_eq (g : Graph) (e : Evaluator) (entry : NodeId) :
    (runPass entry ⟨e, g⟩).session = (walk e.maxFlowSteps entry ⟨e.cleared, g⟩).session ∧
      (runPass entry ⟨e, g⟩).answer =
        .ok (walk e.maxFlowSteps entry ⟨e.cleared, g⟩).session.evaluator.lastError.isNone := by
  rw [runPass_eq_passOf]
  exact ⟨rfl, rfl⟩

/-- What a pass keeps as an error is the failure of a node, or it took as many steps as it may. -/
theorem lastError_runPass (hg : g.Indexed) {error : EvaluationError}
    (h : (runPass entry ⟨e, g⟩).session.evaluator.lastError = some error) :
    (∃ node steps, error = .infiniteLoop node steps) ∨
      ∃ node s, s.Framed g ∧ (evaluateNode node s).answer = .error (.failed error) := by
  rw [(runPass_eq g e entry).1] at h
  cases hlimit : e.maxFlowSteps with
  | zero =>
    rw [hlimit] at h
    cases h
  | succ steps =>
    obtain ⟨nodes, -, hends⟩ := walk_ends hg e.maxFlowSteps entry ⟨e.cleared, g⟩ rfl
      (hlimit ▸ Nat.succ_pos steps) (Nat.zero_add _)
    cases hvisits : (visitAll nodes ⟨e.cleared, g⟩).answer with
    | error stop => exact (hends.error hvisits).elim
    | ok _ =>
      have hend := hends.ok hvisits
      have hframed : (visitAll nodes ⟨e.cleared, g⟩).session.Framed g :=
        visitAll_keeps (keptByParts_framed hg) nodes _ rfl
      obtain ⟨-, -, hnone, -⟩ :=
        Evaluator.record_eq_record ((visitAll_record nodes ⟨e.cleared, g⟩).ok hvisits)
      generalize (walk e.maxFlowSteps entry ⟨e.cleared, g⟩).session = u at h hend
      cases hend with
      | arrived =>
        rw [hnone] at h
        cases h
      | broken hnode hless herror =>
        cases h
        exact .inr ⟨_, _, hframed, herror⟩
      | stopped =>
        cases h
        exact .inl ⟨_, _, rfl⟩

/-- `walk` with a look at the count before each step: `early` is done if there should be no step
    left. -/
def checkedWalk (early : Eval Unit) : Nat → NodeId → Eval Unit
  | 0, _ => early
  | steps + 1, node => do
    let e ← evaluator
    if e.maxFlowSteps ≤ e.evaluated then early
    else
      match ← settle node (evaluateNode node) with
      | .error error => updateEvaluator (.failWith error)
      | .ok () =>
        updateEvaluator (.visit node)
        let e ← evaluator
        if e.evaluated = e.maxFlowSteps then
          updateEvaluator (.failWith (.infiniteLoop node e.evaluated))
        else
          match (← graph).flowSuccessor? node with
          | some next => checkedWalk early steps next
          | none => return

theorem checkedWalk_eq (early : Eval Unit) (steps : Nat) : ∀ node s, 1 ≤ steps →
    s.evaluator.evaluated + steps = s.evaluator.maxFlowSteps →
    checkedWalk early steps node s = walk steps node s := by
  induction steps with
  | zero => exact fun _ _ hpos => absurd hpos (Nat.not_succ_le_zero 0)
  | succ steps ih =>
    intro node s _ hsteps
    have hleft : ¬ s.evaluator.maxFlowSteps ≤ s.evaluator.evaluated := by omega
    obtain ⟨hmax, hcount, -⟩ := Evaluator.record_eq_record
      ((keptByPulls_record s.evaluator.record).evaluateNode node s rfl)
    simp only [checkedWalk, walk, bind_apply, settle, evaluator, if_neg hleft]
    cases (evaluateNode node s).outcome node with
    | error error => rfl
    | ok _ =>
      simp only [bind_apply, updateEvaluator, evaluator, Evaluator.visit]
      split
      · rfl
      · simp only [bind_apply, Eval.graph]
        cases (evaluateNode node s).session.graph.flowSuccessor? node with
        | none => rfl
        | some next =>
          dsimp only
          rw [ih next _ (by omega) (by simp only; omega)]
          rfl

/-- The ways in which a pass ends. -/
inductive PassEnd where
  /-- There is no next node. -/
  | arrived
  /-- The next node failed. -/
  | broken
  /-- As many nodes were visited as may be. -/
  | stopped
deriving DecidableEq, Repr

/-- A pass over the graph from the entry that has this result ended in this way. -/
def PassEnd.Holds (g : Graph) (e : Evaluator) (entry : NodeId) (ran : Ran Bool) : PassEnd → Prop
  | arrived =>
    let done := ran.session.evaluator
    ran.answer = .ok true ∧ done.lastError = none ∧
      1 ≤ done.evaluated ∧ done.evaluated < e.maxFlowSteps ∧
      (∃ last, g.flowNode? entry (done.evaluated - 1) = some last ∧
        g.flowSuccessor? last = none) ∧
      done.visited.Nodup
  | broken =>
    let done := ran.session.evaluator
    ran.answer = .ok false ∧ done.evaluated < e.maxFlowSteps ∧
      ∃ node error, g.flowNode? entry done.evaluated = some node ∧
        (evaluateNode node (visitAll done.visited ⟨e.cleared, g⟩).session).answer =
          .error (.failed error) ∧
        done.lastError = some error
  | stopped =>
    let done := ran.session.evaluator
    ran.answer = .ok false ∧ done.evaluated = e.maxFlowSteps ∧
      ∃ last, g.flowNode? entry (done.evaluated - 1) = some last ∧
        done.lastError = some (.infiniteLoop last done.evaluated)

/-- A pass has one of the three ends only. -/
theorem PassEnd.Holds.unique {ran : Ran Bool} {how how' : PassEnd} (h : how.Holds g e entry ran)
    (h' : how'.Holds g e entry ran) : how = how' := by
  cases how <;> cases how'
  case arrived.arrived | broken.broken | stopped.stopped => rfl
  case arrived.broken | arrived.stopped | broken.arrived | stopped.arrived =>
    cases h.1.symm.trans h'.1
  case broken.stopped => exact absurd h'.2.1 (Nat.ne_of_lt h.2.1)
  case stopped.broken => exact absurd h.2.1 (Nat.ne_of_lt h'.2.1)

/-- The end of the walk is the end of the pass. -/
theorem WalkEnd.passEnd {nodes : List NodeId} {t : Session} {ran : Ran Bool}
    (hnodes : g.Follows entry nodes)
    (ht : t = (visitAll nodes ⟨e.cleared, g⟩).session) (hnone : t.evaluator.lastError = none)
    (hvisited : ran.session.evaluator.visited = nodes)
    (hcount : ran.session.evaluator.evaluated = nodes.length)
    (hanswer : ran.answer = .ok ran.session.evaluator.lastError.isNone)
    (hend : WalkEnd g e.maxFlowSteps entry nodes t ran.session) :
    ∃ how : PassEnd, how.Holds g e entry ran := by
  obtain ⟨answer, session, reports⟩ := ran
  dsimp only at hvisited hcount hanswer hend
  cases hend with
  | @arrived last hlast hnext hless =>
    obtain ⟨hpos, hlast⟩ := hnodes.last hlast
    rw [hnone] at hanswer
    refine ⟨.arrived, ?_⟩
    simp only [PassEnd.Holds, hcount, hvisited]
    refine ⟨hanswer, hnone, hpos, hless, ⟨last, hlast, hnext⟩, hnodes.nodup ?_⟩
    rw [← Nat.sub_add_cancel hpos, Graph.flowNode?, hlast]
    exact hnext
  | @broken node error hnode hless herror =>
    dsimp only at hcount hvisited
    refine ⟨.broken, ?_⟩
    simp only [PassEnd.Holds, hcount, hvisited, ← ht]
    exact ⟨hanswer, hless, node, error, hnode, herror, rfl⟩
  | @stopped last hlast hfull =>
    obtain ⟨-, hlast⟩ := hnodes.last hlast
    have hcount : t.evaluator.evaluated = nodes.length := hcount
    refine ⟨.stopped, ?_⟩
    simp only [PassEnd.Holds, Evaluator.failWith, hcount]
    exact ⟨hanswer, hfull, last, hlast, rfl⟩

/-- A pass visits the nodes of the flow from the entry on, as the flow was at the start, each after
    the one before it was evaluated with success.  It ends in exactly one of three ways, and never
    because it finds the steps used up before it comes to a node.  Every graph of a run will do
    (`Graph.Starts.indexed_performAll`). -/
theorem runPass_follows_flow (hg : g.Indexed) (hlimit : 1 ≤ e.maxFlowSteps) (entry : NodeId) :
    let ran := runPass entry ⟨e, g⟩
    let done := ran.session.evaluator
    done.visited.length = done.evaluated ∧ done.evaluated ≤ e.maxFlowSteps ∧
      (∀ i < done.evaluated, done.visited[i]? = g.flowNode? entry i) ∧
      (visitAll done.visited ⟨e.cleared, g⟩).answer = .ok () ∧
      (∃! how : PassEnd, how.Holds g e entry ran) ∧
      ∀ early, checkedWalk early e.maxFlowSteps entry ⟨e.cleared, g⟩ =
        walk e.maxFlowSteps entry ⟨e.cleared, g⟩ := by
  intro ran done
  have hchecked : ∀ early, checkedWalk early e.maxFlowSteps entry ⟨e.cleared, g⟩ =
      walk e.maxFlowSteps entry ⟨e.cleared, g⟩ := fun early =>
    checkedWalk_eq early _ entry ⟨e.cleared, g⟩ hlimit (Nat.zero_add _)
  obtain ⟨hsession, hanswer⟩ := runPass_eq g e entry
  obtain ⟨nodes, hnodes, hends⟩ :=
    walk_ends hg e.maxFlowSteps entry ⟨e.cleared, g⟩ rfl hlimit (Nat.zero_add _)
  cases hvisits : (visitAll nodes ⟨e.cleared, g⟩).answer with
  | error stop => exact (hends.error hvisits).elim
  | ok _ =>
    have hend := hends.ok hvisits
    obtain ⟨-, hcount, hnone, hvisited⟩ :=
      Evaluator.record_eq_record ((visitAll_record nodes ⟨e.cleared, g⟩).ok hvisits)
    obtain ⟨hvisited', hcount'⟩ := hend.visits
    rw [← hsession] at hvisited' hcount' hend hanswer
    have hvisited : done.visited = nodes := hvisited'.trans hvisited
    have hcount : done.evaluated = nodes.length :=
      (hcount'.trans hcount).trans (Nat.zero_add _)
    obtain ⟨how, hhow⟩ := hend.passEnd hnodes rfl hnone hvisited hcount hanswer
    rw [hvisited, hcount]
    exact ⟨rfl, hend.length_le, hnodes, hvisits, ⟨how, hhow, fun _ h => h.unique hhow⟩, hchecked⟩

/-- An entry point from which the flow goes to a node that logs a constant. -/
def Graph.greeting : Graph :=
  (Command.performAll
    [.addNode .eventBegin, .addNode (.floatConstant 1), .addNode (.logValue "one"),
      .createLink ⟨4⟩ ⟨8⟩, .createLink ⟨2⟩ ⟨6⟩]
    (Graph.new "greeting" .builtin)).graph

theorem greeting_arrives : PassEnd.arrived.Holds .greeting {} ⟨1⟩ (runPass ⟨1⟩ ⟨{}, .greeting⟩) := by
  have hindexed : Graph.greeting.Indexed := (Graph.Starts.new _ _).indexed_performAll _
  obtain ⟨-, -, -, -, ⟨how, hhow, -⟩, -⟩ :=
    runPass_follows_flow (e := {}) hindexed (by decide) ⟨1⟩
  have htrue : (runPass ⟨1⟩ ⟨{}, .greeting⟩).answer.toOption = some true := by decide +kernel
  cases how with
  | arrived => exact hhow
  | broken =>
    rw [hhow.1] at htrue
    cases htrue
  | stopped =>
    rw [hhow.1] at htrue
    cases htrue

end FlowGraph
