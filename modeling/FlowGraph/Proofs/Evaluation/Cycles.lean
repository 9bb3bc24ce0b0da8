import FlowGraph.Proofs.Entrances
import FlowGraph.Proofs.Evaluation.Pass
import Mathlib.Data.List.Induction
import Mathlib.Data.Nat.Periodic

/-!
# Passes that are stopped

With a limit above the number of nodes, a pass that takes as many steps as it may has visited some
node twice, and from such a node the flow goes in circles for ever.  So the limit stops no pass that
would have come to an end.

How the flow gets into the circle is another matter.  Where no two nodes are followed by the same
node there is no way in from outside, so the first node that is visited again is the entry itself
(`Graph.first_again_is_entry`).  Where a node can be entered from two others, be it in a graph that
was loaded or by a scripted node with two flow inputs, the flow may take some steps before it comes
to the circle (`Graph.lasso`).
-/

namespace FlowGraph

open Eval

/-! ## Repetitions -/

/-- A list with repetitions has a first one: nothing is repeated before it. -/
theorem exists_first_repetition {α : Type} {xs : List α} (h : ¬ xs.Nodup) :
    ∃ i j a, i < j ∧ xs[i]? = some a ∧ xs[j]? = some a ∧ (xs.take j).Nodup := by
  induction xs using List.reverseRecOn with
  | nil => exact absurd List.nodup_nil h
  | append_singleton xs x ih =>
    by_cases hxs : xs.Nodup
    · have hx : x ∈ xs := by
        by_contra hno
        exact h (List.concat_eq_append ▸ (List.nodup_concat xs x).mpr ⟨hno, hxs⟩)
      obtain ⟨i, hi, hget⟩ := List.getElem_of_mem hx
      refine ⟨i, xs.length, x, hi, ?_, List.getElem?_concat_length, ?_⟩
      · rw [List.getElem?_append_left hi, List.getElem?_eq_getElem hi, hget]
      · rwa [List.take_left]
    · obtain ⟨i, j, a, hij, hi, hj, hfirst⟩ := ih hxs
      have hlength : j < xs.length := (List.getElem?_eq_some_iff.mp hj).1
      refine ⟨i, j, a, hij, ?_, ?_, ?_⟩
      · rwa [List.getElem?_append_left (Nat.lt_trans hij hlength)]
      · rwa [List.getElem?_append_left hlength]
      · rwa [List.take_append_of_le_length (Nat.le_of_lt hlength)]

/-- A list with more entries than there are items repeats one of them, and that soon. -/
theorem exists_early_repetition {α : Type} {xs items : List α} (hitems : xs ⊆ items)
    (hlong : items.length < xs.length) :
    ∃ i j a, i < j ∧ j ≤ items.length ∧ xs[i]? = some a ∧ xs[j]? = some a ∧
      (xs.take j).Nodup := by
  have hrepeats : ¬ xs.Nodup := fun hnodup =>
    Nat.not_lt_of_le (hnodup.length_le_of_subset hitems) hlong
  obtain ⟨i, j, a, hij, hi, hj, hfirst⟩ := exists_first_repetition hrepeats
  have hlength : j < xs.length := (List.getElem?_eq_some_iff.mp hj).1
  have hle := hfirst.length_le_of_subset fun _ hx => hitems (List.take_subset j xs hx)
  rw [List.length_take, Nat.min_eq_left (Nat.le_of_lt hlength)] at hle
  exact ⟨i, j, a, hij, hle, hi, hj, hfirst⟩

/-! ## The flow in circles -/

namespace Graph

variable {g : Graph} {entry node : NodeId} {i j : Nat}

/-- The flow comes to a node by way of nodes. -/
theorem exists_flowNode?_of_le (hij : i ≤ j) (hj : g.flowNode? entry j = some node) :
    ∃ earlier, g.flowNode? entry i = some earlier := by
  induction hij generalizing node with
  | refl => exact ⟨node, hj⟩
  | step _ ih =>
    obtain ⟨before, hbefore, -⟩ := Option.bind_eq_some_iff.mp hj
    exact ih hbefore

/-- A flow that comes to a node again has no end. -/
theorem flowNode?_endless (hij : i < j) (hi : g.flowNode? entry i = some node)
    (hj : g.flowNode? entry j = some node) (n : Nat) :
    ∃ later, g.flowNode? entry n = some later := by
  induction n using Nat.strong_induction_on with
  | h n ih =>
    by_cases hn : n ≤ j
    · exact exists_flowNode?_of_le hn hj
    · obtain ⟨m, rfl⟩ := Nat.exists_eq_add_of_le (Nat.le_of_not_le hn)
      rw [← flowNode?_add (hi.trans hj.symm)]
      exact ih (i + m) (Nat.add_lt_add_right hij m)

/-- Where no two nodes are followed by the same node, the first one that comes again is the entry:
    a later one would have come there from two nodes. -/
theorem first_again_is_entry
    (hinjective : ∀ {a b c}, g.flowSuccessor? a = some c → g.flowSuccessor? b = some c → a = b)
    (hij : i < j) (hi : g.flowNode? entry i = some node) (hj : g.flowNode? entry j = some node)
    (hfirst : ∀ m n, m < n → n < j → g.flowNode? entry m ≠ g.flowNode? entry n) : i = 0 := by
  cases i with
  | zero => rfl
  | succ i =>
    obtain ⟨j, rfl⟩ := Nat.exists_eq_succ_of_ne_zero (Nat.ne_zero_of_lt hij)
    obtain ⟨a, ha, hnext⟩ := Option.bind_eq_some_iff.mp hi
    obtain ⟨b, hb, hnext'⟩ := Option.bind_eq_some_iff.mp hj
    obtain rfl := hinjective hnext hnext'
    exact absurd (ha.trans hb.symm) (hfirst i j (Nat.lt_of_succ_lt_succ hij) (Nat.lt_succ_self j))

/-- From an entry that comes again the flow goes round and round. -/
theorem flowNode?_mod (hj : g.flowNode? entry j = some entry) (n : Nat) :
    g.flowNode? entry (n % j) = g.flowNode? entry n := by
  have hperiodic : Function.Periodic (g.flowNode? entry) j := by
    intro n
    have hround := flowNode?_add (i := 0) hj.symm n
    rw [Nat.add_comm, ← hround, Nat.zero_add]
  exact hperiodic.map_mod_nat n

/-! ## Nodes that the flow comes to -/

variable {nodes : List NodeId}

theorem Follows.flowNode?_of_get? (h : g.Follows entry nodes) (hget : nodes[i]? = some node) :
    g.flowNode? entry i = some node :=
  (h i (List.getElem?_eq_some_iff.mp hget).1).symm.trans hget

/-- As long as the nodes do not repeat, the flow does not either. -/
theorem Follows.flowNode?_ne (h : g.Follows entry nodes) (hnodup : nodes.Nodup) {m n : Nat}
    (hmn : m < n) (hn : n < nodes.length) : g.flowNode? entry m ≠ g.flowNode? entry n := by
  rw [← h m (Nat.lt_trans hmn hn), ← h n hn]
  exact List.nodup_iff_getElem?_ne_getElem?.mp hnodup m n hmn hn

theorem Follows.take (h : g.Follows entry nodes) (n : Nat) : g.Follows entry (nodes.take n) := by
  intro i hi
  have hboth := List.length_take ▸ hi
  rw [List.getElem?_take_of_lt (Nat.lt_of_lt_of_le hboth (Nat.min_le_left _ _))]
  exact h i (Nat.lt_of_lt_of_le hboth (Nat.min_le_right _ _))

/-- Behind a node that is repeated the flow comes to the same nodes as before, without an end. -/
theorem Follows.endless (h : g.Follows entry nodes) (hij : i < j) (hi : nodes[i]? = some node)
    (hj : nodes[j]? = some node) (n : Nat) :
    ∃ later, g.flowNode? entry (i + n) = some later ∧ g.flowNode? entry (j + n) = some later := by
  have hfirst := h.flowNode?_of_get? hi
  have hagain := h.flowNode?_of_get? hj
  obtain ⟨later, hlater⟩ := flowNode?_endless hij hfirst hagain (i + n)
  refine ⟨later, hlater, ?_⟩
  rw [← flowNode?_add (hfirst.trans hagain.symm), hlater]

/-- Where no two nodes are followed by the same node, what comes before the first repetition is what
    comes over and over. -/
theorem Follows.circle (h : g.Follows entry nodes)
    (hinjective : ∀ {a b c}, g.flowSuccessor? a = some c → g.flowSuccessor? b = some c → a = b)
    (hij : i < j) (hi : nodes[i]? = some node) (hj : nodes[j]? = some node)
    (hfirst : (nodes.take j).Nodup) {n : Nat} (hn : n < nodes.length) :
    nodes[n]? = nodes[n % j]? := by
  have hroom : j < nodes.length := (List.getElem?_eq_some_iff.mp hj).1
  have htaken : (nodes.take j).length = j := List.length_take_of_le (Nat.le_of_lt hroom)
  have hentry := h.flowNode?_of_get? hi
  have hagain := h.flowNode?_of_get? hj
  obtain rfl := first_again_is_entry hinjective hij hentry hagain fun _ _ hmn hlt =>
    (h.take j).flowNode?_ne hfirst hmn (htaken.symm ▸ hlt)
  have hmod : n % j < nodes.length := Nat.lt_trans (Nat.mod_lt n hij) hroom
  rw [h n hn, h _ hmod, flowNode?_mod (hagain.trans hentry.symm)]

end Graph

/-! ## Passes -/

/-- A node that can be evaluated is there. -/
theorem mem_keys_of_evaluateNode {node : NodeId} {s : Session}
    (h : (evaluateNode node s).answer = .ok ()) : node ∈ s.graph.nodes.keys := by
  by_contra hno
  have hnone : s.graph.nodes.get? node = none := Table.get?_eq_none hno
  simp [evaluateNode, evaluateWith, refreshInputsWith, bind_apply, Eval.graph, hnone, fail] at h

theorem mem_keys_of_visitAll {nodes : List NodeId} {s : Session}
    (h : (visitAll nodes s).answer = .ok ()) : nodes ⊆ s.graph.nodes.keys := by
  induction nodes generalizing s with
  | nil => exact List.nil_subset _
  | cons node nodes ih =>
    obtain ⟨hfirst, hrest⟩ := ok_of_bind_ok h
    have hkeys : (visitNode node s).session.graph.nodes.keys = s.graph.nodes.keys :=
      visitNode_keeps (keptByParts_nodes s.graph.nodes.keys) node s rfl
    refine List.cons_subset.mpr ⟨?_, hkeys ▸ ih hrest⟩
    exact mem_keys_of_evaluateNode (ok_of_bind_ok hfirst).1

variable {g : Graph} {e : Evaluator} {entry : NodeId}

/-- What a pass has visited are nodes of the graph, in the order of the flow, and it has one of the
    three ends. -/
theorem runPass_visits (hg : g.Indexed) (hlimit : 1 ≤ e.maxFlowSteps) (entry : NodeId) :
    let ran := runPass entry ⟨e, g⟩
    let done := ran.session.evaluator
    g.Follows entry done.visited ∧ done.visited.length = done.evaluated ∧
      done.visited ⊆ g.nodes.keys ∧ ∃ how : PassEnd, how.Holds g e entry ran := by
  intro ran done
  obtain ⟨hsession, hanswer⟩ := runPass_eq g e entry
  obtain ⟨nodes, hfollows, hends⟩ :=
    walk_ends hg e.maxFlowSteps entry ⟨e.cleared, g⟩ rfl hlimit (Nat.zero_add _)
  cases hvisits : (visitAll nodes ⟨e.cleared, g⟩).answer with
  | error stop => exact (hends.error hvisits).elim
  | ok _ =>
    have hend := hends.ok hvisits
    obtain ⟨-, hcount, hnone, hvisited⟩ :=
      Evaluator.record_eq_record ((visitAll_record nodes ⟨e.cleared, g⟩).ok hvisits)
    obtain ⟨hvisited', hcount'⟩ := hend.visits
    rw [← hsession] at hvisited' hcount' hend hanswer
    have hnodes : done.visited = nodes := hvisited'.trans hvisited
    have hlength : done.evaluated = nodes.length :=
      (hcount'.trans hcount).trans (Nat.zero_add _)
    have hhow := hend.passEnd hfollows rfl hnone hnodes hlength hanswer
    rw [hnodes, hlength]
    exact ⟨hfollows, rfl, mem_keys_of_visitAll hvisits, hhow⟩

/-- A pass that has visited as many nodes as it may was stopped. -/
theorem stopped_of_full (hg : g.Indexed) (hlimit : 1 ≤ e.maxFlowSteps)
    (hfull : (runPass entry ⟨e, g⟩).session.evaluator.evaluated = e.maxFlowSteps) :
    PassEnd.stopped.Holds g e entry (runPass entry ⟨e, g⟩) := by
  obtain ⟨-, -, -, how, hhow⟩ := runPass_visits hg hlimit entry
  cases how with
  | stopped => exact hhow
  | arrived =>
    obtain ⟨-, -, -, hless, -⟩ := hhow
    exact absurd hfull (Nat.ne_of_lt hless)
  | broken =>
    obtain ⟨-, hless, -⟩ := hhow
    exact absurd hfull (Nat.ne_of_lt hless)

/-- A pass that is stopped by a limit above the number of nodes has visited some node twice within
    that many steps, and from there the flow comes round for ever.  In a graph that was built, never
    had a property of the flow type and has no node that declares two flow inputs, the entry is on
    the circle already: the nodes that come before it comes again are visited over and over, in the
    same order. -/
theorem stopped_pass_goes_in_circles {start : Graph} (hs : start.Starts) (h : start.Reaches g)
    (hlimit : g.nodes.size < e.maxFlowSteps)
    (hstopped : PassEnd.stopped.Holds g e entry (runPass entry ⟨e, g⟩)) :
    let visited := (runPass entry ⟨e, g⟩).session.evaluator.visited
    (∃ i j node, i < j ∧ j ≤ g.nodes.size ∧ visited[i]? = some node ∧ visited[j]? = some node ∧
      ∀ n, ∃ later, g.flowNode? entry (i + n) = some later ∧
        g.flowNode? entry (j + n) = some later) ∧
    (g.GrownFlowless → g.oneEntrance = true →
      ∃ p, 1 ≤ p ∧ p ≤ g.nodes.size ∧ (visited.take p).Nodup ∧
        ∀ i < visited.length, visited[i]? = visited[i % p]?) := by
  intro visited
  have hsound := h.sound hs
  obtain ⟨hfollows, hlength, hkeys, -⟩ :=
    runPass_visits hsound.intact.indexed (Nat.lt_of_le_of_lt (Nat.zero_le _) hlimit) entry
  have hfull : visited.length = e.maxFlowSteps := hlength.trans hstopped.2.1
  rw [Table.size_eq_length_keys] at hlimit ⊢
  obtain ⟨i, j, node, hij, hle, hi, hj, hfirst⟩ := exists_early_repetition hkeys (hfull ▸ hlimit)
  refine ⟨⟨i, j, node, hij, hle, hi, hj, hfollows.endless hij hi hj⟩, fun hgrown hone => ?_⟩
  obtain ⟨-, -, honce⟩ := hgrown.entersOnce (h.nextId_lt hs)
  have hcircle : ∀ n < visited.length, visited[n]? = visited[n % j]? := fun _ =>
    hfollows.circle (honce.flowSuccessor?_injective hsound hone) hij hi hj hfirst
  exact ⟨j, Nat.lt_of_le_of_lt (Nat.zero_le i) hij, hle, hfirst, hcircle⟩

/-- Two log nodes that follow each other. -/
def Graph.echo : Graph :=
  (Command.performAll
    [.addNode (.floatConstant 1), .addNode (.logValue "a"), .addNode (.logValue "b"),
      .createLink ⟨2⟩ ⟨6⟩, .createLink ⟨2⟩ ⟨11⟩, .createLink ⟨5⟩ ⟨9⟩, .createLink ⟨10⟩ ⟨4⟩]
    (Graph.new "echo" .builtin)).graph

/-- A pass of five steps from the first of them. -/
theorem echo_goes_in_circles :
    let visited := (runPass ⟨3⟩ ⟨.withLimit 5, .echo⟩).session.evaluator.visited
    PassEnd.stopped.Holds .echo (.withLimit 5) ⟨3⟩ (runPass ⟨3⟩ ⟨.withLimit 5, .echo⟩) ∧
      (∃ i j node, i < j ∧ j ≤ 3 ∧ visited[i]? = some node ∧ visited[j]? = some node) ∧
      ∃ p, 1 ≤ p ∧ p ≤ 3 ∧ (visited.take p).Nodup ∧
        ∀ i < visited.length, visited[i]? = visited[i % p]? := by
  intro visited
  have hstarts : (Graph.new "echo" .builtin).Starts := .new _ _
  have hreaches : (Graph.new "echo" .builtin).Reaches .echo := ⟨⟨_, rfl⟩, by decide +kernel⟩
  have hgrown : Graph.echo.GrownFlowless :=
    (Graph.GrownFlowless.new "echo" .builtin).performAll (by decide +kernel)
  have hindexed := (hreaches.sound hstarts).intact.indexed
  have hstopped : PassEnd.stopped.Holds .echo (.withLimit 5) ⟨3⟩
      (runPass ⟨3⟩ ⟨.withLimit 5, .echo⟩) :=
    stopped_of_full hindexed (by decide) (by decide +kernel)
  have hsize : Graph.echo.nodes.size = 3 := by decide +kernel
  obtain ⟨⟨i, j, node, hij, hj, hi, hagain, -⟩, hround⟩ :=
    stopped_pass_goes_in_circles hstarts hreaches (by decide +kernel) hstopped
  rw [hsize] at hj hround
  have hone : Graph.echo.oneEntrance = true := Graph.oneEntrance_of_allBuiltin (by decide +kernel)
  exact ⟨hstopped, ⟨i, j, node, hij, hj, hi, hagain⟩, hround hgrown hone⟩

/-- A circle of two scripted nodes behind an event: the first of them can also be entered from the
    second. -/
def Graph.lasso : Graph :=
  (Command.performAll
    [.addNode .eventBegin,
      .addNode (.scripted
        { kind := "loop", flow := true
          pins := [.flow .input, .input "Again" .flow, .flow .output] }),
      .addNode (.scripted { kind := "body", flow := true, pins := [.flow .input, .flow .output] }),
      .createLink ⟨2⟩ ⟨4⟩, .createLink ⟨6⟩ ⟨8⟩, .createLink ⟨9⟩ ⟨5⟩]
    (Graph.new "lasso" .builtin)).graph

/-- The event is not on the circle, so a pass from there never comes to it again. -/
theorem lasso_leaves_entry_behind :
    let visited := (runPass ⟨1⟩ ⟨.withLimit 4, .lasso⟩).session.evaluator.visited
    (Graph.new "lasso" .builtin).Starts ∧ (Graph.new "lasso" .builtin).Reaches .lasso ∧
      Graph.lasso.GrownFlowless ∧ Graph.lasso.nodes.size < (Evaluator.withLimit 4).maxFlowSteps ∧
      PassEnd.stopped.Holds .lasso (.withLimit 4) ⟨1⟩ (runPass ⟨1⟩ ⟨.withLimit 4, .lasso⟩) ∧
      ¬ ∃ p, 1 ≤ p ∧ p ≤ Graph.lasso.nodes.size ∧ (visited.take p).Nodup ∧
        ∀ i < visited.length, visited[i]? = visited[i % p]? := by
  intro visited
  have hstarts : (Graph.new "lasso" .builtin).Starts := .new _ _
  have hreaches : (Graph.new "lasso" .builtin).Reaches .lasso := ⟨⟨_, rfl⟩, by decide +kernel⟩
  have hgrown : Graph.lasso.GrownFlowless :=
    (Graph.GrownFlowless.new "lasso" .builtin).performAll (by decide +kernel)
  have hstopped : PassEnd.stopped.Holds .lasso (.withLimit 4) ⟨1⟩
      (runPass ⟨1⟩ ⟨.withLimit 4, .lasso⟩) :=
    stopped_of_full (hreaches.sound hstarts).intact.indexed (by decide) (by decide +kernel)
  have hsize : Graph.lasso.nodes.size = 3 := by decide +kernel
  have hvisited : visited = [⟨1⟩, ⟨3⟩, ⟨7⟩, ⟨3⟩] := by decide +kernel
  refine ⟨hstarts, hreaches, hgrown, by rw [hsize]; decide, hstopped, ?_⟩
  intro ⟨p, hpos, hle, _, hround⟩
  -- after `p` steps the entry would come again
  have hagain : visited[p]? = visited[0]? := by
    have hshort : p < visited.length := by
      rw [hvisited]
      exact Nat.lt_succ_of_le (hsize ▸ hle)
    rw [hround p hshort, Nat.mod_self]
  rw [hsize] at hle
  rw [hvisited] at hagain
  obtain rfl | rfl | rfl : p = 1 ∨ p = 2 ∨ p = 3 := by omega
  all_goals cases hagain

end FlowGraph
