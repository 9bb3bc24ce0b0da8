import FlowGraph.Proofs.Evaluation.Meaning

/-!
# Bodies and inputs step by step

How each part of a body ends, in terms of the graph around it.  A body runs while the behavior is
out of its node, but nothing a built-in body looks at depends on that: the pins are the same, and
what it writes stays when the behavior is put back (`writeOutput_ends`).

The inputs of a node are refreshed before its body runs.  What this does to one input depends on
the links and the flow flags only, which no evaluation changes, so it is told by the graph of the
beginning (`Intact.refreshInput_ends`).
-/

namespace FlowGraph

open Eval

variable {g : Graph} {s : Session} {k : NodeId} {n : Node} {b : Behavior}

/-! ## The node that runs -/

theorem valuePin?_setBehavior (k : NodeId) (b : Option Behavior) (g : Graph) (m : NodeId)
    (d : Direction) (i : Nat) : (setBehavior k b g).valuePin? m d i = g.valuePin? m d i := by
  have hlists : ((setBehavior k b g).nodes.get? m).map (·.pinsOf d) =
      (g.nodes.get? m).map (·.pinsOf d) := by
    simp only [setBehavior, Table.get?_modify, Option.map_map]
    congr 1
    funext n
    simp only [Function.comp_apply]
    split <;> cases d <;> rfl
  unfold Graph.valuePin?
  rw [hlists]
  rfl

/-- The session while the body of a node runs. -/
def Session.running (k : NodeId) (s : Session) : Session :=
  { s with graph := setBehavior k none s.graph }

/-- The session once the behavior is back in its node. -/
def Session.back (k : NodeId) (b : Behavior) (s : Session) : Session :=
  { s with graph := setBehavior k (some b) s.graph }

theorem Session.back_running (h : s.graph.Indexed) (hn : s.graph.nodes.get? k = some n)
    (hb : n.behavior = some b) : (s.running k).back k b = s := by
  have hgraph := setBehavior_setBehavior h hn none
  rw [hb] at hgraph
  show (⟨s.evaluator, setBehavior k (some b) (setBehavior k none s.graph)⟩ : Session) = s
  rw [hgraph]

theorem runNode_ends (hn : s.graph.nodes.get? k = some n) (hb : n.behavior = some b)
    {Q : Unit → Session → Prop} {E : Stop → Session → Prop} :
    (runNode k).Ends s Q E ↔ (b.body k).Ends (s.running k) (fun a t => Q a (t.back k b))
      fun stop t => E stop (t.back k b) := by
  simp only [runNode, ends_bind, ends_graph, hn, hb, ends_edit, ends_andFinally]
  exact Iff.rfl

/-! ## Reading and writing -/

theorem readInput_ends {i : Nat} {Q : Value → Session → Prop} {E : Stop → Session → Prop}
    (hok : ∀ p pin, s.graph.valuePin? k .input i = some p → s.graph.pins.get? p = some pin →
      Q pin.value s)
    (hfail : (∀ p pin, s.graph.valuePin? k .input i = some p → s.graph.pins.get? p ≠ some pin) →
      E (.failed (.missingInput k s!"#{i}")) s) :
    (readInput k i).Ends s Q E := by
  simp only [readInput, ends_bind, ends_graph]
  cases hp : s.graph.valuePin? k .input i with
  | none =>
    refine hfail fun p pin hp' => ?_
    rw [hp] at hp'
    cases hp'
  | some p =>
    cases hpin : s.graph.pins.get? p with
    | none =>
      simp only [Option.bind_some, hpin]
      refine hfail fun p' pin hp' hpin' => ?_
      rw [hp] at hp'
      cases hp'
      rw [hpin] at hpin'
      cases hpin'
    | some pin =>
      simp only [Option.bind_some, hpin]
      exact hok p pin hp hpin

/-- Reading a float fails only if there is no such input of the type. -/
theorem readFloat_ends {i : Nat} {Q : Float32 → Session → Prop} {E : Stop → Session → Prop}
    (hok : ∀ p pin x, s.graph.valuePin? k .input i = some p → s.graph.pins.get? p = some pin →
      pin.value = .float x → Q x s)
    (hfail : (∀ p pin, s.graph.valuePin? k .input i = some p → s.graph.pins.get? p = some pin →
      pin.type ≠ .float) → ∀ error, E (.failed error) s) :
    (readFloat k i).Ends s Q E := by
  simp only [readFloat, ends_bind]
  refine readInput_ends (fun p pin hp hpin => ?_) fun h =>
    hfail (fun p pin hp hpin => absurd hpin (h p pin hp)) _
  cases hv : pin.value with
  | float x => exact hok p pin x hp hpin hv
  | _ =>
    refine hfail (fun p' pin' hp' hpin' => ?_) _
    rw [hp] at hp'
    cases hp'
    rw [hpin] at hpin'
    cases hpin'
    simp [Pin.type, hv, Value.type]

theorem propertyOf_ends {p : Option PropertyId} {Q : Value → Session → Prop}
    {E : Stop → Session → Prop}
    (hok : ∀ q v, p = some q → s.graph.propertyValue? q = some v → Q v s)
    (hfail : p.bind s.graph.propertyValue? = none → E (.failed (.missingInput k "property")) s) :
    (propertyOf k p).Ends s Q E := by
  simp only [propertyOf, ends_bind, ends_graph]
  cases hp : p.bind s.graph.propertyValue? with
  | none => exact hfail hp
  | some v =>
    obtain ⟨q, hq, hv⟩ := Option.bind_eq_some_iff.mp hp
    exact hok q v hq hv

/-- Writing an output, seen from after the behavior is back: the pin of the graph holds the value,
    or the graph is as it was because there is no such output of the type of the value. -/
theorem writeOutput_ends (h : s.graph.Indexed) (hn : s.graph.nodes.get? k = some n)
    (hb : n.behavior = some b) {i : Nat} {v : Value} {Q : Unit → Session → Prop}
    {E : Stop → Session → Prop}
    (hok : ∀ p pin, s.graph.valuePin? k .output i = some p → s.graph.pins.get? p = some pin →
      v.type = pin.type → Q () { s with graph := s.graph.withValue p v })
    (hfail : (∀ p pin, s.graph.valuePin? k .output i = some p → s.graph.pins.get? p = some pin →
      v.type ≠ pin.type) → ∀ error, E (.failed error) s) :
    (writeOutput k i v).Ends (s.running k) (fun a t => Q a (t.back k b))
      fun stop t => E stop (t.back k b) := by
  have hback := Session.back_running h hn hb
  simp only [writeOutput, ends_bind, ends_graph]
  have hpin? : (s.running k).graph.valuePin? k .output i = s.graph.valuePin? k .output i :=
    valuePin?_setBehavior k none s.graph k .output i
  rw [hpin?]
  cases hp : s.graph.valuePin? k .output i with
  | none =>
    rw [← hback] at hfail
    refine hfail (fun p pin hp' => ?_) _
    rw [hback, hp] at hp'
    cases hp'
  | some p =>
    refine ends_attempt.mpr ?_
    rcases Graph.setPin_cases p v (s.running k).graph with ⟨cause, hg, hne⟩ | ⟨pin, hpin, ht, hg⟩
    · rw [hg]
      have hfail' := hfail (fun p' pin hp' hpin => by
        rw [hp] at hp'
        cases hp'
        exact hne pin hpin) (.graph k cause)
      rw [← hback] at hfail'
      exact hfail'
    · rw [hg]
      have hok' := hok p pin hp hpin ht
      -- Putting the behavior back does not see the pin that was written.
      have hnodes : setBehavior k (some b) ((s.running k).graph.withValue p v) =
          s.graph.withValue p v := by
        have hgraph := setBehavior_setBehavior h hn none
        rw [hb] at hgraph
        exact congrArg (Graph.withValue · p v) hgraph
      show Q () ⟨s.evaluator, setBehavior k (some b) ((s.running k).graph.withValue p v)⟩
      rw [hnodes]
      exact hok'

/-! ## Refreshing an input -/

namespace Graph

/-- Copying along a link is never refused: both pins keep the type they were linked with. -/
theorem Intact.copyPin_ends (h : g.Intact) (hs : s.graph.frame = g.frame) {i src : PinId}
    (hsrc : g.feedingPin? i = some src) {Q : Unit → Session → Prop} {E : Stop → Session → Prop}
    (hok : ∀ pin r, s.graph.pins.get? i = some pin → s.graph.pins.get? src = some r →
      r.type = pin.type → Q () { s with graph := s.graph.withValue i r.value }) :
    (attempt k (copyPin src i)).Ends s Q E := by
  obtain ⟨pin, q, hp, -, hq, -, htype⟩ := h.feeding hsrc
  obtain ⟨pin', hp', hpblank⟩ := pin_of_frame hs.symm hp
  obtain ⟨r, hr, hqblank⟩ := pin_of_frame hs.symm hq
  obtain ⟨-, -, -, -, -, hptype⟩ := Pin.blank_eq_blank hpblank
  obtain ⟨-, -, -, -, -, hqtype⟩ := Pin.blank_eq_blank hqblank
  have hsame : r.type = pin'.type := by
    rw [← hptype, ← hqtype]
    exact htype
  refine ends_attempt.mpr ?_
  rw [copyPin_eq, hr]
  rcases setPin_cases i r.value s.graph with ⟨_, -, hne⟩ | ⟨_, -, -, hset⟩
  · exact absurd hsame (hne pin' hp')
  · simp only [hset]
    exact hok pin' r hp' hr hsame

/-- How refreshing an input ends: a flow input is passed over, and to a value input that is linked
    the value of its source is copied, which is pulled first if its node is pure. -/
theorem Intact.refreshInput_ends (h : g.Intact) (hs : s.graph.frame = g.frame)
    {pull : NodeId → Eval Unit} {i : PinId} {pin : Pin} (hp : g.pins.get? i = some pin)
    {Q : Unit → Session → Prop} {E : Stop → Session → Prop}
    (hflow : pin.isFlow = true → Q () s)
    (hunlinked : pin.isFlow = false → g.feedingPin? i = none →
      E (.failed (.missingInput k pin.name)) s)
    (hpulled : ∀ src q, pin.isFlow = false → g.feedingPin? i = some src →
      g.pins.get? src = some q → q.direction = .output → q.isFlow = false →
      g.isPure q.node = true →
      (pull q.node).Ends s (fun _ t => (attempt k (copyPin src i)).Ends t Q E) E)
    (hstored : ∀ src q, pin.isFlow = false → g.feedingPin? i = some src →
      g.pins.get? src = some q → q.direction = .output → g.isPure q.node = false →
      (attempt k (copyPin src i)).Ends s Q E) :
    (refreshInput pull k i).Ends s Q E := by
  obtain ⟨pin', hp', hblank⟩ := pin_of_frame hs.symm hp
  obtain ⟨-, hname, -, -, -, htype⟩ := Pin.blank_eq_blank hblank
  have hflow' : pin'.isFlow = pin.isFlow := congrArg ValueType.isFlow htype.symm
  simp only [refreshInput, ends_bind, ends_graph, hp', hflow', ← hname, feedingPin?_of_frame hs,
    isPure_of_frame hs]
  cases hf : pin.isFlow with
  | true => exact hflow hf
  | false =>
    simp only [Bool.false_eq_true, if_false]
    cases hsrc : g.feedingPin? i with
    | none => exact hunlinked hf hsrc
    | some src =>
      obtain ⟨pin₀, q, hpin₀, -, hq, hqd, hqtype⟩ := h.feeding hsrc
      rw [hp] at hpin₀
      cases hpin₀
      obtain ⟨q', hq', hqblank⟩ := pin_of_frame hs.symm hq
      have hqnode : q'.node = q.node := (Pin.blank_eq_blank hqblank).2.2.2.1.symm
      have hqflow : q.isFlow = false := (congrArg ValueType.isFlow hqtype).trans hf
      simp only [hq', hqnode]
      cases hpure : g.isPure q.node with
      | true =>
        rw [if_pos rfl, ends_bind]
        exact hpulled src q hf hsrc hq hqd hqflow hpure
      | false =>
        simp only [Bool.false_eq_true, if_false]
        exact hstored src q hf hsrc hq hqd hpure

end Graph

end FlowGraph
