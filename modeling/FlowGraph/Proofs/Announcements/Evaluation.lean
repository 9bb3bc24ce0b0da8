import FlowGraph.Proofs.Announcements.Edits
import FlowGraph.Proofs.Evaluation.Parts

/-!
# What an evaluation announces

An evaluation writes to pins and properties and announces the properties.  Which stores it makes is
read off the way it is put together (`Eval.Stores`), without looking at its reports; the two
accounts agree, store for store (`Eval.Accounted`).  A store that is refused is on neither.
-/

namespace FlowGraph

open Eval

/-- The step makes these stores: properties that were written, with what was written to them.  A
    step that leaves the values of the properties alone on every graph makes none. -/
inductive Eval.Stores : {α : Type} → Eval α → Session → List (PropertyId × Value) → Prop where
  | none {α : Type} {m : Eval α} {s : Session}
      (h : ∀ s p, (m s).session.graph.propertyValue? p = s.graph.propertyValue? p) : Stores m s []
  | accepted {p : PropertyId} {v : Value} {s : Session}
      (h : (Graph.setProperty p v s.graph).answer = .ok ()) :
      Stores (edit (Graph.setProperty p v)) s [(p, v)]
  | refused {p : PropertyId} {v : Value} {s : Session} {cause : GraphError}
      (h : (Graph.setProperty p v s.graph).answer = .error cause) :
      Stores (edit (Graph.setProperty p v)) s []
  | bind {α β : Type} {m : Eval α} {f : α → Eval β} {s : Session} {a : α}
      {first later : List (PropertyId × Value)} (hm : Stores m s first)
      (ha : (m s).answer = .ok a) (hf : Stores (f a) (m s).session later) :
      Stores (m >>= f) s (first ++ later)
  | stop {α β : Type} {m : Eval α} {f : α → Eval β} {s : Session} {stop : Stop}
      {stores : List (PropertyId × Value)} (hm : Stores m s stores)
      (ha : (m s).answer = .error stop) : Stores (m >>= f) s stores
  | finish {α : Type} {m : Eval α} {f : Session → Session} {s : Session}
      {stores : List (PropertyId × Value)} (hm : Stores m s stores)
      (hf : ∀ s p, (f s).graph.propertyValue? p = s.graph.propertyValue? p) :
      Stores (andFinally m f) s stores
  | settle {node : NodeId} {m : Eval Unit} {s : Session} {stores : List (PropertyId × Value)}
      (hm : Stores m s stores) : Stores (settle node m) s stores
  | reading {α : Type} {m : Session → Eval α} {s : Session} {stores : List (PropertyId × Value)}
      (hm : Stores (m s) s stores) : Stores (fun s => m s s) s stores

/-- The announcements of the step are those of its stores. -/
def Eval.Accounted {α : Type} (m : Eval α) : Prop :=
  ∀ s, ∃ stores, m.Stores s stores ∧
    s.graph.Told (heard (m s).reports) stores (m s).session.graph

namespace Eval.Accounted

variable {α β : Type} {m : Eval α}

/-- A step that neither writes to a property nor announces anything. -/
theorem silent (hes : ∀ s, heard (m s).reports = [])
    (hsame : ∀ s, (m s).session.graph.inventory = s.graph.inventory)
    (hvalues : ∀ s p, (m s).session.graph.propertyValue? p = s.graph.propertyValue? p) :
    m.Accounted := by
  intro s
  refine ⟨[], .none hvalues, ?_⟩
  rw [hes]
  exact .quiet (.of_inventory (hsame s) (hvalues s))

theorem pure (a : α) : (pure a : Eval α).Accounted :=
  silent (fun _ => rfl) (fun _ => rfl) fun _ _ => rfl

theorem fail (error : EvaluationError) : (fail error : Eval α).Accounted :=
  silent (fun _ => rfl) (fun _ => rfl) fun _ _ => rfl

theorem exhaust : (exhaust : Eval α).Accounted :=
  silent (fun _ => rfl) (fun _ => rfl) fun _ _ => rfl

theorem graph : Eval.graph.Accounted := silent (fun _ => rfl) (fun _ => rfl) fun _ _ => rfl

theorem evaluator : Eval.evaluator.Accounted :=
  silent (fun _ => rfl) (fun _ => rfl) fun _ _ => rfl

theorem updateEvaluator (f : Evaluator → Evaluator) : (updateEvaluator f).Accounted :=
  silent (fun _ => rfl) (fun _ => rfl) fun _ _ => rfl

theorem report {r : Report} (h : r.heard? = none) : (report r).Accounted :=
  silent (fun _ => List.filterMap_cons_none h) (fun _ => rfl) fun _ _ => rfl

theorem bind {f : α → Eval β} (hm : m.Accounted) (hf : ∀ a, (f a).Accounted) :
    (m >>= f).Accounted := by
  intro s
  obtain ⟨first, hstores, htold⟩ := hm s
  rw [bind_apply]
  cases ha : (m s).answer with
  | ok a =>
    obtain ⟨later, hstores', htold'⟩ := hf a (m s).session
    refine ⟨first ++ later, .bind hstores ha hstores', ?_⟩
    rw [heard_append]
    exact htold.trans htold'
  | error stop => exact ⟨first, .stop hstores ha, htold⟩

theorem forM {f : α → Eval Unit} (h : ∀ x, (f x).Accounted) (xs : List α) :
    (xs.forM f).Accounted := by
  induction xs with
  | nil => exact .pure ()
  | cons x xs ih => exact (h x).bind fun _ => ih

theorem finish (hm : m.Accounted) {f : Session → Session}
    (hsame : ∀ s, (f s).graph.inventory = s.graph.inventory)
    (hvalues : ∀ s p, (f s).graph.propertyValue? p = s.graph.propertyValue? p) :
    (andFinally m f).Accounted := by
  intro s
  obtain ⟨stores, hstores, htold⟩ := hm s
  refine ⟨stores, .finish hstores hvalues, ?_⟩
  have hend := Graph.Quiet.of_inventory (hsame (m s).session) (hvalues (m s).session)
  have hwhole := htold.trans (.quiet hend)
  rwa [List.append_nil, List.append_nil] at hwhole

theorem settle {m : Eval Unit} (hm : m.Accounted) (node : NodeId) :
    (FlowGraph.settle node m).Accounted := fun s => by
  obtain ⟨stores, hstores, hrest⟩ := hm s
  exact ⟨stores, .settle hstores, hrest⟩

theorem reading {m : Session → Eval α} (hm : ∀ s, (m s).Accounted) :
    Accounted fun s => m s s := fun s => by
  obtain ⟨stores, hstores, hrest⟩ := hm s s
  exact ⟨stores, .reading hstores, hrest⟩

theorem attempt {e : Edit (Except GraphError α)} (he : (edit e).Accounted) (node : NodeId) :
    (attempt node e).Accounted := by
  refine he.bind fun answer => ?_
  cases answer with
  | ok a => exact .pure a
  | error cause => exact .fail _

/-! ## Writing -/

theorem setPin (id : PinId) (v : Value) : (edit (Graph.setPin id v)).Accounted :=
  silent (fun s => (Graph.setPin_silent id v s.graph).1)
    (fun s => (Graph.setPin_silent id v s.graph).2.1)
    fun s => (Graph.setPin_silent id v s.graph).2.2

theorem copyPin (source target : PinId) : (edit (Graph.copyPin source target)).Accounted :=
  silent (fun s => (Graph.copyPin_silent source target s.graph).1)
    (fun s => (Graph.copyPin_silent source target s.graph).2.1)
    fun s => (Graph.copyPin_silent source target s.graph).2.2

theorem setProperty (p : PropertyId) (v : Value) :
    (edit (Graph.setProperty p v)).Accounted := by
  intro s
  rcases Graph.setProperty_told p v s.graph with ⟨⟨cause, hno⟩, htold⟩ | ⟨hok, htold⟩
  · exact ⟨[], .refused hno, htold⟩
  · exact ⟨[(p, v)], .accepted hok, htold⟩

end Eval.Accounted

/-! ## Bodies -/

theorem bodyParts_accounted (node : NodeId) : BodyParts node fun _ m => m.Accounted where
  pure := .pure
  bind := .bind
  graph := .graph
  missing _ := .fail _
  failed _ := .fail _
  logs _ := .report rfl
  registers _ := .report rfl
  starts _ := .report rfl
  pins p v := (Accounted.setPin p v).attempt node

theorem body_accounted (node : NodeId) (b : Behavior) : (b.body node).Accounted :=
  (bodyParts_accounted node).body b fun _ p v => (Accounted.setProperty p v).attempt node

theorem runNode_accounted (node : NodeId) : (runNode node).Accounted := by
  have hset : ∀ b (g : Graph), (setBehavior node b g).inventory = g.inventory := fun b g => by
    simp [Graph.inventory, setBehavior]
  refine Accounted.graph.bind fun g => ?_
  split
  · exact .fail _
  · split
    · exact Accounted.evaluator.bind fun _ => .fail _
    · have haway : (edit (Edit.update (setBehavior node none))).Accounted :=
        .silent (fun _ => rfl) (fun s => hset none s.graph) fun _ _ => rfl
      refine haway.bind fun _ => (body_accounted node _).finish (fun s => ?_) fun _ _ => rfl
      exact hset _ s.graph

/-! ## Evaluation -/

section Pulls

variable {pull : NodeId → Eval Unit}

theorem refreshInput_accounted (hpull : ∀ m, (pull m).Accounted) (node : NodeId) (input : PinId) :
    (refreshInput pull node input).Accounted := by
  refine Accounted.graph.bind fun g => ?_
  split
  · exact .pure ()
  · split
    · exact .pure ()
    · split
      · exact .fail _
      · split
        · exact .fail _
        · dsimp only
          split
          · exact (hpull _).bind fun _ => (Accounted.copyPin _ input).attempt node
          · exact (Accounted.copyPin _ input).attempt node

theorem refreshInputsWith_accounted (hpull : ∀ m, (pull m).Accounted) (node : NodeId) :
    (refreshInputsWith pull node).Accounted := by
  refine Accounted.graph.bind fun g => ?_
  split
  · exact .fail _
  · exact .forM (refreshInput_accounted hpull node) _

theorem evaluateWith_accounted (hpull : ∀ m, (pull m).Accounted) (node : NodeId) :
    (evaluateWith pull node).Accounted :=
  (refreshInputsWith_accounted hpull node).bind fun _ => runNode_accounted node

end Pulls

theorem pull_accounted (depth : Nat) : ∀ node, (pull depth node).Accounted := by
  induction depth with
  | zero => exact fun _ => .exhaust
  | succ depth ih =>
    intro node
    refine Accounted.evaluator.bind fun e => ?_
    split
    · exact .fail _
    · refine (Accounted.updateEvaluator _).bind fun _ => ?_
      exact (evaluateWith_accounted ih node).finish (fun _ => rfl) fun _ _ => rfl

theorem refreshInputs_accounted (node : NodeId) : (refreshInputs node).Accounted :=
  .reading (m := fun s => refreshInputsWith (pull (pullDepth s.graph)) node)
    fun s => refreshInputsWith_accounted (pull_accounted (pullDepth s.graph)) node

theorem evaluateNode_accounted (node : NodeId) : (evaluateNode node).Accounted :=
  .reading (m := fun s => evaluateWith (pull (pullDepth s.graph)) node)
    fun s => evaluateWith_accounted (pull_accounted (pullDepth s.graph)) node

theorem walk_accounted (steps : Nat) : ∀ node, (walk steps node).Accounted := by
  induction steps with
  | zero => exact fun _ => .pure ()
  | succ steps ih =>
    intro node
    refine ((evaluateNode_accounted node).settle node).bind fun outcome => ?_
    cases outcome with
    | error error => exact .updateEvaluator _
    | ok _ =>
      refine (Accounted.updateEvaluator _).bind fun _ => Accounted.evaluator.bind fun e => ?_
      split
      · exact .updateEvaluator _
      · refine Accounted.graph.bind fun g => ?_
        split
        · exact ih _
        · exact .pure ()

theorem runPass_accounted (entry : NodeId) : (runPass entry).Accounted := by
  refine (Accounted.updateEvaluator _).bind fun _ => Accounted.evaluator.bind fun e => ?_
  refine (walk_accounted _ entry).bind fun _ => Accounted.evaluator.bind fun e => ?_
  split
  · exact .pure _
  · exact (Accounted.report rfl).bind fun _ => .pure _

end FlowGraph
