import FlowGraph.Proofs.Evaluation.Unrolled
import Mathlib.Algebra.GroupWithZero.Nat

/-!
# How often nodes are pulled

Nothing that a pull computes is kept for the next consumer, so a pure node is evaluated once for
each way in which the visited nodes depend on it.  `Graph.pulls` writes all of them down for one
node, and `pass_counts_pulls` says that the counter of a successful pass is the number of them over
the visited nodes.

The recursion of the count has no bound of its own.  That it is well founded where it matters is
part of the result: what a pass needed with success depends on nothing in a cycle, and so there is
one count only that satisfies the equation (`Shallow.count_unique`).
-/

namespace FlowGraph

open Eval

/-! ## The count of a list of chores -/

theorem Chore.perform_pulled (c : Chore) (s : Session) :
    (c.perform s).session.evaluator.pulled = s.evaluator.pulled + c.left?.toList.length := by
  cases c with
  | refresh node input =>
    exact refreshInput_keeps (P := fun t => t.evaluator.pulled = s.evaluator.pulled) _
      (fun _ => .pure ()) (fun _ _ _ h => h) node input s rfl
  | run node =>
    exact runNode_keeps (P := fun t => t.evaluator.pulled = s.evaluator.pulled)
      ⟨fun _ _ _ h => h, fun _ _ _ h => h⟩ (fun _ _ _ h => h) node s rfl
  | _ => rfl

/-- Each pull that ends is counted, and nothing else is. -/
theorem Chore.performAll_pulled (chores : List Chore) (s : Session) :
    (performAll chores).Ends s
      (fun _ t => t.evaluator.pulled = s.evaluator.pulled + (chores.filterMap left?).length)
      fun _ _ => True := by
  refine ends_forM (I := fun done t =>
    t.evaluator.pulled = s.evaluator.pulled + (done.filterMap left?).length) chores rfl ?_
  intro done c t _ ht
  have hone : [c].filterMap left? = c.left?.toList := by cases c <;> rfl
  have hpulled := c.perform_pulled t
  unfold Ends
  split
  · show (c.perform t).session.evaluator.pulled = _
    rw [hpulled, ht, List.filterMap_append, List.length_append, hone, Nat.add_assoc]
  · exact True.intro

namespace Graph

variable {g : Graph} {depth depth' : Nat} {k m : NodeId}

/-- Going through the inputs is going through the pure sources. -/
theorem flatMap_pureSources {α : Type} (f : NodeId → List α) (k : NodeId) :
    ((g.inputsOf k).flatMap fun i => (g.pureSource? i).elim [] f) = (g.pureSources k).flatMap f := by
  rw [pureSources]
  induction g.inputsOf k with
  | nil => rfl
  | cons i inputs ih =>
    rw [List.flatMap_cons, ih, List.filterMap_cons]
    cases g.pureSource? i <;> rfl

theorem left_chores (depth : Nat) :
    ∀ k, (g.chores depth k).filterMap Chore.left? = g.pulls depth k := by
  induction depth with
  | zero => exact fun _ => rfl
  | succ depth ih =>
    intro k
    rw [chores, pulls, ← flatMap_pureSources, List.filterMap_append, List.filterMap_flatMap]
    refine (List.append_nil _).trans (List.flatMap_congr fun i _ => ?_)
    cases g.pureSource? i with
    | none => rfl
    | some m => simp [List.filterMap_cons, ih, Chore.left?]

/-- The bodies that run are those of the nodes pulled, and that of the node. -/
theorem ran_chores (depth : Nat) :
    ∀ k, (g.chores depth k).filterMap Chore.ran? = g.pulls depth k ++ [k] := by
  induction depth with
  | zero => exact fun _ => rfl
  | succ depth ih =>
    intro k
    rw [chores, pulls, ← flatMap_pureSources, List.filterMap_append, List.filterMap_flatMap]
    refine congrArg (· ++ [k]) (List.flatMap_congr fun i _ => ?_)
    cases g.pureSource? i with
    | none => rfl
    | some m => simp [List.filterMap_cons, ih, Chore.ran?]

/-! ## Chains of dependencies -/

theorem Shallow.mono (h : g.Shallow depth k) (hle : depth ≤ depth') : g.Shallow depth' k := by
  induction depth generalizing depth' k with
  | zero => exact h.elim
  | succ depth ih =>
    obtain ⟨depth', rfl⟩ := Nat.exists_eq_succ_of_ne_zero (Nat.ne_zero_of_lt hle)
    exact fun m hm => ih (h m hm) (Nat.le_of_succ_le_succ hle)

theorem Shallow.needs (h : g.Shallow depth k) (hm : g.Needs k m) : g.Shallow depth m := by
  induction hm with
  | refl => exact h
  | tail _ hdep ih =>
    cases depth with
    | zero => exact h.elim
    | succ depth => exact (ih _ (mem_pureSources.mpr hdep)).mono (Nat.le_succ depth)

theorem Shallow.not_cyclic (h : g.Shallow depth k) : ¬ Relation.TransGen g.DependsOn k k := by
  induction depth generalizing k with
  | zero => exact h.elim
  | succ depth ih =>
    intro hcycle
    obtain ⟨m, hm, hback⟩ := Relation.TransGen.head'_iff.mp hcycle
    exact ih (h m (mem_pureSources.mpr hm)) (Relation.TransGen.tail' hback hm)

/-- A depth that is enough may be any greater. -/
theorem Shallow.pulls_eq (h : g.Shallow depth k) (hle : depth ≤ depth') :
    g.pulls depth' k = g.pulls depth k := by
  induction depth generalizing depth' k with
  | zero => exact h.elim
  | succ depth ih =>
    obtain ⟨depth', rfl⟩ := Nat.exists_eq_succ_of_ne_zero (Nat.ne_zero_of_lt hle)
    refine List.flatMap_congr fun m hm => ?_
    rw [ih (h m hm) (Nat.le_of_succ_le_succ hle)]

/-- The nodes pulled for a node are its pure sources, each after those pulled for it. -/
theorem Shallow.pulls_unfold (h : g.Shallow depth k) :
    g.pulls depth k = (g.pureSources k).flatMap fun m => g.pulls depth m ++ [m] := by
  cases depth with
  | zero => exact h.elim
  | succ depth =>
    refine List.flatMap_congr fun m hm => ?_
    rw [(h m hm).pulls_eq (Nat.le_succ depth)]

/-- The equation for the count has one solution. -/
theorem Shallow.count_unique (h : g.Shallow depth k) {P : NodeId → Nat}
    (hP : ∀ m, g.Needs k m → P m = ((g.pureSources m).map fun s => 1 + P s).sum) :
    P k = (g.pulls depth k).length := by
  induction depth generalizing k with
  | zero => exact h.elim
  | succ depth ih =>
    rw [hP k .refl, pulls, List.length_flatMap]
    refine congrArg List.sum (List.map_congr_left fun m hm => ?_)
    have hdep := mem_pureSources.mp hm
    rw [ih (h m hm) fun n hn => hP n (.head hdep hn), List.length_append, Nat.add_comm]
    rfl

theorem isPure_of_mem_pulls (depth : Nat) : ∀ {k m}, m ∈ g.pulls depth k → g.isPure m = true := by
  induction depth with
  | zero => exact nofun
  | succ depth ih =>
    intro k m hm
    obtain ⟨s, hs, hm⟩ := List.mem_flatMap.mp hm
    rcases List.mem_append.mp hm with hm | hm
    · exact ih hm
    · obtain rfl := List.mem_singleton.mp hm
      obtain ⟨-, -, -, -, -, -, -, -, -, -, -, -, hpure⟩ := mem_pureSources.mp hs
      exact hpure

/-! ## Passes -/

/-- The nodes that are pulled when a node is visited, in the order in which the pulls end. -/
def pulledFor (g : Graph) (node : NodeId) : List NodeId := g.pulls (pullDepth g + 1) node

theorem left_visitChores (k : NodeId) :
    (g.visitChores k).filterMap Chore.left? = g.pulledFor k := by
  rw [visitChores, List.filterMap_append, left_chores]
  exact List.append_nil _

theorem ran_visitChores (k : NodeId) :
    (g.visitChores k).filterMap Chore.ran? = g.pulledFor k ++ [k] := by
  rw [visitChores, List.filterMap_append, ran_chores]
  exact List.append_nil _

/-- A pass that succeeds pulls a pure node once for each way in which a visited node depends on it,
    and counts each of these pulls.  No node that it needed depends on itself, and so the count of
    the pulls for a node is the one that satisfies the equation over its pure sources; and with all
    that it does the pass comes to a list of chores, among them the bodies of the pulled nodes, each
    before what it was pulled for, and those of the visited nodes.  A node that is pulled is pure,
    so a node with flow pins runs when it is visited and not again. -/
theorem pass_counts_pulls (hg : g.Reachable) {e : Evaluator} {entry : NodeId}
    (h : (runPass entry ⟨e, g⟩).answer = .ok true) :
    let ran := runPass entry ⟨e, g⟩
    let visited := ran.session.evaluator.visited
    (∀ v ∈ visited, ∀ m, g.Needs v m → ¬ Relation.TransGen g.DependsOn m m) ∧
    (∀ v ∈ visited, ∀ m, g.Needs v m → g.pulledFor m =
      (g.pureSources m).flatMap fun s => g.pulledFor s ++ [s]) ∧
    ran.session.evaluator.pulled = (visited.map fun v => (g.pulledFor v).length).sum ∧
    (∀ P : NodeId → Nat,
      (∀ v ∈ visited, ∀ m, g.Needs v m → P m = ((g.pureSources m).map fun s => 1 + P s).sum) →
      ran.session.evaluator.pulled = (visited.map P).sum) ∧
    Chore.performAll (visited.flatMap g.visitChores) ⟨e.cleared, g⟩ =
      ⟨.ok (), ran.session, ran.reports⟩ ∧
    (visited.flatMap g.visitChores).filterMap Chore.ran? =
      (visited.flatMap fun v => g.pulledFor v ++ [v]) ∧
    ∀ v, ∀ m ∈ g.pulledFor v, g.isPure m = true := by
  intro ran visited
  have hvisits : visitAll visited ⟨e.cleared, g⟩ = ⟨.ok (), ran.session, ran.reports⟩ :=
    visitAll_of_runPass h
  obtain ⟨hgrounded, hunrolls⟩ := visitAll_unrolls hg.indexed visited ⟨e.cleared, g⟩ rfl
  have hok : (visitAll visited ⟨e.cleared, g⟩).answer = .ok () := by rw [hvisits]
  have hchores := (hunrolls hok).trans hvisits
  have hshallow : ∀ v ∈ visited, ∀ m, g.Needs v m → g.Grounded m :=
    fun v hv m hm => Shallow.needs (hgrounded hok v hv) hm
  have hpulled : ran.session.evaluator.pulled =
      (visited.map fun v => (g.pulledFor v).length).sum := by
    have hcount := (Chore.performAll_pulled _ _).ok (congrArg Ran.answer hchores)
    rw [hchores, List.filterMap_flatMap, List.length_flatMap] at hcount
    simp only [left_visitChores] at hcount
    exact hcount.trans (Nat.zero_add _)
  refine ⟨fun v hv m hm => (hshallow v hv m hm).not_cyclic,
    fun v hv m hm => (hshallow v hv m hm).pulls_unfold, hpulled, fun P hP => ?_, hchores, ?_,
    fun v m hm => isPure_of_mem_pulls _ hm⟩
  · rw [hpulled]
    refine congrArg List.sum (List.map_congr_left fun v hv => ?_)
    exact ((hgrounded hok v hv).count_unique (hP v hv)).symm
  · rw [List.filterMap_flatMap]
    exact List.flatMap_congr fun v _ => ran_visitChores v

/-- The constant is pulled for each input of the sum, and the sum after it. -/
theorem doubling_pulls_constant_twice :
    doubling.pulledFor ⟨9⟩ = [⟨1⟩, ⟨1⟩, ⟨3⟩] ∧
      (runPass ⟨9⟩ ⟨{}, doubling⟩).session.evaluator.pulled = 3 ∧
      ¬ Relation.TransGen doubling.DependsOn ⟨3⟩ ⟨3⟩ := by
  have hpulls : doubling.pulledFor ⟨9⟩ = [⟨1⟩, ⟨1⟩, ⟨3⟩] := by decide +kernel
  have hvisited : (runPass ⟨9⟩ ⟨{}, doubling⟩).session.evaluator.visited = [⟨9⟩] := by
    decide +kernel
  have htrue : (runPass ⟨9⟩ ⟨{}, doubling⟩).answer.toOption = some true := by decide +kernel
  have hok : (runPass ⟨9⟩ ⟨{}, doubling⟩).answer = .ok true := by
    rw [runPass_eq_passOf] at htrue ⊢
    exact congrArg Except.ok (Option.some.inj htrue)
  obtain ⟨hacyclic, -, hcount, -⟩ :=
    pass_counts_pulls (g := doubling) ⟨_, _, .new _ _, rfl⟩ hok
  rw [hvisited] at hcount hacyclic
  refine ⟨hpulls, by rw [hcount, List.map_singleton, hpulls]; rfl, hacyclic ⟨9⟩ (by simp) ⟨3⟩ ?_⟩
  exact .single (mem_pureSources.mp (by decide +kernel))

end Graph

end FlowGraph
