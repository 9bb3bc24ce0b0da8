import FlowGraph.Proofs.Evaluation.Branches
import FlowGraph.Proofs.Evaluation.Rounds
import FlowGraph.Proofs.Evaluation.Success

/-!
# Evaluations unrolled

Where an evaluation succeeds, its recursion can be written out.  The pulls for a node form a tree,
since each input is pulled for anew, and `Graph.chores` goes through it in order: what is done is a
list of chores that depends on nothing but the wiring of the graph.  `evaluateWith_unrolls` says
that a success is these chores done one after the other, with the same result in every part; the
guard of the pulls, their depth and all ways to fail are gone.

So what a successful evaluation does can be counted on a list (`Graph.pulls`).  The list is finite
although nodes are written down again for each way in which they are needed: a success leaves no
room for a chain of dependencies as long as the recursion may go deep (`Graph.Shallow`).
-/

namespace FlowGraph

open Eval

/-- One thing that an evaluation does. -/
inductive Chore where
  /-- Notes that a pull begins. -/
  | enter (node : NodeId)
  | refresh (node : NodeId) (input : PinId)
  | run (node : NodeId)
  /-- Notes that a pull has ended. -/
  | leave (node : NodeId)
  | visit (node : NodeId)
deriving DecidableEq, Repr

namespace Chore

/-- Does the chore and nothing else: an input gets what its source holds. -/
def perform : Chore → Eval Unit
  | enter node => updateEvaluator (beginPull node)
  | refresh node input => refreshInput (fun _ => pure ()) node input
  | run node => runNode node
  | leave node => updateEvaluator (endPull node)
  | visit node => updateEvaluator (.visit node)

/-- Does the chores in order, up to the first that fails. -/
def performAll (chores : List Chore) : Eval Unit := chores.forM perform

/-- The node whose body the chore runs. -/
def ran? : Chore → Option NodeId
  | run node => some node
  | _ => none

/-- The node whose pull ends with the chore. -/
def left? : Chore → Option NodeId
  | leave node => some node
  | _ => none

theorem performAll_append (before after : List Chore) :
    performAll (before ++ after) = performAll before >>= fun _ => performAll after :=
  List.forM_append

theorem performAll_singleton (c : Chore) : performAll [c] = c.perform := by
  funext s
  show (c.perform >>= fun _ => pure ()) s = c.perform s
  rw [bind_pure_unit]

end Chore

namespace Graph

variable {g : Graph}

def inputsOf (g : Graph) (node : NodeId) : List PinId := (g.nodes.get? node).elim [] Node.inputs

/-- The pure nodes that feed the value inputs of a node, one for each input, in order. -/
def pureSources (g : Graph) (node : NodeId) : List NodeId :=
  (g.inputsOf node).filterMap g.pureSource?

/-- What there is to do to evaluate a node with pulls that are so deep. -/
def chores (g : Graph) : Nat → NodeId → List Chore
  | 0, node => [.run node]
  | depth + 1, node =>
    (g.inputsOf node).flatMap (fun input =>
      ((g.pureSource? input).elim [] fun m => .enter m :: chores g depth m ++ [.leave m]) ++
        [.refresh node input]) ++ [.run node]

/-- The nodes that are pulled for a node, in the order in which the pulls end. -/
def pulls (g : Graph) : Nat → NodeId → List NodeId
  | 0, _ => []
  | depth + 1, node => (g.pureSources node).flatMap fun m => pulls g depth m ++ [m]

/-- Every chain of dependencies from the node is shorter. -/
def Shallow (g : Graph) : Nat → NodeId → Prop
  | 0, _ => False
  | depth + 1, node => ∀ m ∈ g.pureSources node, Shallow g depth m

theorem mem_pureSources {k m : NodeId} : m ∈ g.pureSources k ↔ g.DependsOn k m := by
  simp only [pureSources, inputsOf, List.mem_filterMap, pureSource?_eq_some, DependsOn]
  cases g.nodes.get? k <;> simp

end Graph

/-! ## Steps that succeed -/

/-- If the step succeeds, it comes to the chores. -/
def Unrolls (m : Eval Unit) (chores : List Chore) (s : Session) : Prop :=
  (m s).answer = .ok () → Chore.performAll chores s = m s

theorem Unrolls.bind {m m' : Eval Unit} {cs cs' : List Chore} {s : Session} (hm : Unrolls m cs s)
    (hm' : (m s).answer = .ok () → Unrolls m' cs' (m s).session) :
    Unrolls (m >>= fun _ => m') (cs ++ cs') s := by
  intro h
  obtain ⟨hfirst, hrest⟩ := ok_of_bind_ok h
  rw [Chore.performAll_append, bind_apply, bind_apply, hm hfirst, hm' hfirst hrest]

theorem Unrolls.chore (c : Chore) (s : Session) : Unrolls c.perform [c] s := fun _ => by
  rw [Chore.performAll_singleton]

/-- Only the success of a step counts. -/
theorem Unrolls.congr {m m' : Eval Unit} {cs : List Chore} {s : Session} (h : m' s = m s)
    (hm : Unrolls m cs s) : Unrolls m' cs s := by
  unfold Unrolls at hm ⊢
  rwa [h]

/-- What is done in any case is done after a success. -/
theorem andFinally_of_ok {m : Eval Unit} {f : Evaluator → Evaluator} {s : Session}
    (h : (m s).answer = .ok ()) :
    andFinally m (fun t => { t with evaluator := f t.evaluator }) s =
      (m >>= fun _ => updateEvaluator f) s := by
  rw [bind_apply, h]
  simp [andFinally, updateEvaluator, h]

/-! ## Evaluations that succeed -/

section Unrolling

variable {g : Graph} {depth : Nat} {s : Session}

/-- What a pull comes to, so deep in the recursion. -/
structure PullUnrolls (g : Graph) (depth : Nat) (m : NodeId) (s : Session) : Prop where
  shallow : (pull depth m s).answer = .ok () → g.Shallow depth m
  unrolls : Unrolls (pull depth m) (.enter m :: g.chores depth m ++ [.leave m]) s

theorem refreshInput_unrolls (hg : g.Indexed) (hpull : ∀ m s, s.Framed g → PullUnrolls g depth m s)
    (hs : s.Framed g) (k : NodeId) (i : PinId) :
    ((refreshInput (pull depth) k i s).answer = .ok () →
      ∀ m, g.pureSource? i = some m → g.Shallow depth m) ∧
    Unrolls (refreshInput (pull depth) k i) (((g.pureSource? i).elim []
      fun m => .enter m :: g.chores depth m ++ [.leave m]) ++ [.refresh k i]) s := by
  have hsource := Graph.pureSource?_of_frame hs i
  cases hm : g.pureSource? i with
  | none =>
    rw [hm] at hsource
    exact ⟨nofun, (Unrolls.chore (.refresh k i) s).congr (refreshInput_of_none hsource k _ _)⟩
  | some m =>
    rw [hm] at hsource
    obtain ⟨src, hsrc, hrefresh⟩ := refreshInput_of_some hsource k
    -- After the pull the input still has the same source.
    have hcopy : ∀ t : Session, t.Framed g →
        (Chore.refresh k i).perform t = attempt k (Graph.copyPin src i) t := by
      intro t ht
      have hframe := Eq.trans ht hs.symm
      obtain ⟨src', hsrc', hrefresh'⟩ :=
        refreshInput_of_some ((Graph.pureSource?_of_frame hframe i).trans hsource) k
      rw [Graph.feedingPin?_of_frame hframe, hsrc] at hsrc'
      cases hsrc'
      exact hrefresh' fun _ => pure ()
    refine ⟨fun h m' hm' => ?_, Unrolls.congr (hrefresh _) (Unrolls.bind (hpull m s hs).unrolls ?_)⟩
    · cases hm'
      rw [hrefresh] at h
      exact (hpull m s hs).shallow (ok_of_bind_ok h).1
    · intro _
      have hframed : (pull depth m s).session.Framed g := (keptByParts_framed hg).pull depth m s hs
      exact (Unrolls.chore (.refresh k i) _).congr (hcopy _ hframed).symm

/-- Evaluating a node unrolls if the pulls do, and leaves room for one more dependency. -/
theorem evaluateWith_unrolls (hg : g.Indexed)
    (hpull : ∀ m s, s.Framed g → PullUnrolls g depth m s) (hs : s.Framed g) (k : NodeId) :
    ((evaluateWith (pull depth) k s).answer = .ok () → g.Shallow (depth + 1) k) ∧
    Unrolls (evaluateWith (pull depth) k) (g.chores (depth + 1) k) s := by
  -- Along the inputs.
  have hloop : ∀ (inputs : List PinId) (s : Session), s.Framed g →
      ((inputs.forM (refreshInput (pull depth) k) s).answer = .ok () →
        ∀ i ∈ inputs, ∀ m, g.pureSource? i = some m → g.Shallow depth m) ∧
      Unrolls (inputs.forM (refreshInput (pull depth) k)) (inputs.flatMap fun i =>
        ((g.pureSource? i).elim [] fun m => .enter m :: g.chores depth m ++ [.leave m]) ++
          [.refresh k i]) s := by
    intro inputs
    induction inputs with
    | nil => exact fun _ _ => ⟨fun _ i hi => absurd hi List.not_mem_nil, fun _ => rfl⟩
    | cons i inputs ih =>
      intro s hs
      have hframed : (refreshInput (pull depth) k i s).session.Framed g :=
        refreshInput_keeps _ ((keptByParts_framed hg).pull depth) (keptByParts_framed hg).copies k i
          s hs
      have hfirst := refreshInput_unrolls hg hpull hs k i
      refine ⟨fun h j hj m hm => ?_, Unrolls.bind hfirst.2 fun _ => (ih _ hframed).2⟩
      obtain ⟨hok, hrest⟩ := ok_of_bind_ok h
      rcases List.mem_cons.mp hj with rfl | hj
      · exact hfirst.1 hok m hm
      · exact (ih _ hframed).1 hrest j hj m hm
  have hinputs : (refreshInputsWith (pull depth) k s).answer = .ok () →
      refreshInputsWith (pull depth) k s = (g.inputsOf k).forM (refreshInput (pull depth) k) s := by
    simp only [refreshInputsWith, bind_apply, Eval.graph, Graph.inputsOf, Graph.nodes_of_frame hs]
    cases g.nodes.get? k with
    | none =>
      intro h
      cases h
    | some n => exact fun _ => by simp
  have hrefreshed : Unrolls (refreshInputsWith (pull depth) k) _ s := fun h =>
    (Unrolls.congr (hinputs h) (hloop (g.inputsOf k) s hs).2) h
  refine ⟨fun h m hm => ?_, Unrolls.bind hrefreshed fun _ => .chore (.run k) _⟩
  obtain ⟨hok, -⟩ := ok_of_bind_ok h
  obtain ⟨i, hi, hm⟩ := List.mem_filterMap.mp hm
  exact (hloop (g.inputsOf k) s hs).1 (hinputs hok ▸ hok) i hi m hm

theorem pull_unrolls (hg : g.Indexed) (depth : Nat) :
    ∀ m s, s.Framed g → PullUnrolls g depth m s := by
  induction depth with
  | zero => exact fun _ _ _ => ⟨nofun, nofun⟩
  | succ depth ih =>
    intro m s hs
    have hinner := @evaluateWith_unrolls _ _ ⟨beginPull m s.evaluator, s.graph⟩ hg ih hs m
    -- A success has passed the guard, and the body has not failed.
    have hpull : (pull (depth + 1) m s).answer = .ok () →
        (evaluateWith (pull depth) m ⟨beginPull m s.evaluator, s.graph⟩).answer = .ok () ∧
        pull (depth + 1) m s = (updateEvaluator (beginPull m) >>= fun _ =>
          (evaluateWith (pull depth) m >>= fun _ => updateEvaluator (endPull m))) s := by
      intro h
      have hnew : m ∉ s.evaluator.inProgress := fun hm => by
        simp [pull, bind_apply, evaluator, hm, Eval.fail] at h
      have heq : pull (depth + 1) m s = (updateEvaluator (beginPull m) >>= fun _ =>
          andFinally (evaluateWith (pull depth) m) fun s =>
            { s with evaluator := endPull m s.evaluator }) s := by
        simp [pull, bind_apply, evaluator, hnew]
      rw [heq] at h
      have hbody : (evaluateWith (pull depth) m ⟨beginPull m s.evaluator, s.graph⟩).answer =
          .ok () := (ok_of_bind_ok h).2
      have hfinally := andFinally_of_ok (f := endPull m) hbody
      exact ⟨hbody, by simp only [heq, bind_apply, updateEvaluator, hfinally]⟩
    refine ⟨fun h => hinner.1 (hpull h).1, fun h => ?_⟩
    have hunrolled : Unrolls (updateEvaluator (beginPull m) >>= fun _ =>
        (evaluateWith (pull depth) m >>= fun _ => updateEvaluator (endPull m)))
        ([.enter m] ++ (g.chores (depth + 1) m ++ [.leave m])) s :=
      (Unrolls.chore (.enter m) s).bind fun _ => hinner.2.bind fun _ => .chore (.leave m) _
    exact hunrolled.congr (hpull h).2 h

end Unrolling

/-! ## Visits that succeed -/

/-- What there is to do to visit a node.  The depth is that of `evaluateNode`. -/
def Graph.visitChores (g : Graph) (node : NodeId) : List Chore :=
  g.chores (pullDepth g + 1) node ++ [.visit node]

/-- No node that is needed for the node depends on a chain that is longer than there are nodes. -/
def Graph.Grounded (g : Graph) (node : NodeId) : Prop := g.Shallow (pullDepth g + 1) node

/-- Visits that succeed are a list of chores that is known before they begin. -/
theorem visitAll_unrolls {g : Graph} (hg : g.Indexed) (nodes : List NodeId) :
    ∀ s, s.Framed g → ((visitAll nodes s).answer = .ok () → ∀ k ∈ nodes, g.Grounded k) ∧
      Unrolls (visitAll nodes) (nodes.flatMap g.visitChores) s := by
  induction nodes with
  | nil => exact fun _ _ => ⟨nofun, fun _ => rfl⟩
  | cons k nodes ih =>
    intro s hs
    have hdepth : pullDepth s.graph = pullDepth g := by rw [pullDepth, Graph.nodes_of_frame hs, pullDepth]
    have heval : evaluateNode k s = evaluateWith (pull (pullDepth g)) k s := by
      rw [evaluateNode, hdepth]
    have hnode := evaluateWith_unrolls hg (pull_unrolls hg (pullDepth g)) hs k
    have hvisit : Unrolls (visitNode k) (g.visitChores k) s :=
      (hnode.2.congr heval).bind fun _ => .chore (.visit k) _
    have hrest := ih _ (visitNode_keeps (keptByParts_framed hg) k s hs)
    refine ⟨fun h j hj => ?_, hvisit.bind fun _ => hrest.2⟩
    obtain ⟨hok, hmore⟩ := ok_of_bind_ok h
    rcases List.mem_cons.mp hj with rfl | hj
    · exact hnode.1 (heval ▸ (ok_of_bind_ok hok).1)
    · exact hrest.1 hmore j hj

end FlowGraph
