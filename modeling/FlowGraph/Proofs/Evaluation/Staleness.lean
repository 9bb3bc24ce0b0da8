import FlowGraph.Proofs.Twins.Evaluation

/-!
# What a pass does not depend on

Every pin keeps what was last written to it, but what an input or an output of a pure node was left
with is never looked at: it is written anew before anything reads it, or the node that would read it
fails first.  So a pass sees of the contents of a graph only its properties and the outputs of its
flow nodes (`stale_contents_never_leak`).
-/

namespace FlowGraph.Graph

variable {g g' : Graph}

/-- The pin is an output that its node leaves its value in, as it is scheduled by flow. -/
def Stored (g : Graph) (p : PinId) : Prop :=
  (g.pins.get? p).any (fun pin => pin.direction = .output && !g.isPure pin.node) = true

instance (g : Graph) (p : PinId) : Decidable (g.Stored p) := inferInstanceAs (Decidable (_ = true))

/-- Every scripted node that runs on demand writes all of its value outputs.  The built-in nodes do
    so anyway. -/
def ScriptsFill (g : Graph) : Prop :=
  ∀ k n script i p, g.nodes.get? k = some n → n.flow = false →
    n.behavior = some (.scripted script) → g.valuePin? k .output i = some p →
    .output i ∈ script.actions

theorem scriptsFill_of_allBuiltin (h : g.allBuiltin = true) : g.ScriptsFill := by
  intro k n script i p hn _ hb _
  cases isBuiltin_of_allBuiltin h hn hb

/-- A value output of a node has a place among the value outputs. -/
theorem Sound.valueOutput (h : g.Sound) {p : PinId} {pin : Pin} (hp : g.pins.get? p = some pin)
    (hd : pin.direction = .output) (hflow : pin.isFlow = false) :
    ∃ i, g.valuePin? pin.node .output i = some p := by
  obtain ⟨n, hn, hlisted⟩ := h.intact.owned hp
  rw [hd] at hlisted
  have hmem : p ∈ (n.pinsOf .output).filter fun id => (g.pins.get? id).any (!·.isFlow) :=
    List.mem_filter.mpr ⟨hlisted, by simp [hp, hflow]⟩
  obtain ⟨i, hi⟩ := List.mem_iff_getElem?.mp hmem
  exact ⟨i, by simpa [valuePin?, hn] using hi⟩

/-- A value input is fed by the output of a flow node or by one that a pure node fills. -/
theorem Laid.sourced (h : g.Laid) (hs : g.Sound) (hfill : g.ScriptsFill) :
    g.Sourced g.Stored := by
  rintro i src q ⟨pin, hp, hflow⟩ hsrc hq
  obtain ⟨pin', q', hp', -, hq', hd, htype⟩ := hs.intact.feeding hsrc
  rw [hp] at hp'
  cases hp'
  rw [hq] at hq'
  cases hq'
  by_cases hpure : g.isPure q.node = true
  · have hvalue : q.isFlow = false := by
      rw [Pin.isFlow, Value.isFlow, show q.value.type = pin.value.type from htype]
      exact hflow
    obtain ⟨n, hn, hflow⟩ := isPure_iff.mp hpure
    obtain ⟨b, hb, -⟩ := hs.staffed.staff hn
    by_cases hbuiltin : b.isBuiltin = true
    · refine .inr ⟨hpure, n, b, hn, hb, 0, ?_, h.pure_output hs hq hd hvalue hn hb hflow hbuiltin⟩
      rcases hs.pure_cases hn hb hflow hbuiltin with ⟨x, rfl⟩ | ⟨op, rfl⟩ | ⟨p, rfl⟩ <;> rfl
    · obtain ⟨j, hj⟩ := hs.valueOutput hq hd hvalue
      cases b with
      | scripted script =>
        have hfills := hfill _ n script j _ hn hflow hb hj
        exact .inr ⟨hpure, n, _, hn, hb, j, decide_eq_true hfills, hj⟩
      | _ => exact absurd rfl hbuiltin
  · refine .inl ?_
    rw [Stored, hq]
    simp [hd, hpure]

/-- Writing to a pin that is not the output of a flow node changes nothing that is stored. -/
theorem twin_withValue (hg : g.Indexed) {p : PinId} {pin : Pin} {v : Value}
    (hp : g.pins.get? p = some pin) (htype : v.type = pin.type) (hp' : ¬ g.Stored p) :
    g.Twin g.Stored (g.withValue p v) where
  frame := withValue_frame hg hp htype
  properties := rfl
  contents q hq := by
    have hne : q ≠ p := fun heq => hp' (heq ▸ hq)
    simp [withValue, hne]
  links := .refl Link.Same.refl _
  indexed := hg

/-- Two graphs that differ in nothing but the contents of inputs and of outputs of pure nodes, and
    perhaps in the order of the ends of links, go through the same pass: it answers the same and
    counts the same, the observers and the log are told the same, and afterwards the graphs have the
    same properties and the same outputs of flow nodes, and do not differ in more than before. -/
theorem stale_contents_never_leak {name : String} {registry : Registry}
    (hrun : (Graph.new name registry).Reaches g) (hfill : g.ScriptsFill)
    (h : g.Twin g.Stored g') (e : Evaluator) (entry : NodeId) :
    (runPass entry ⟨e, g'⟩).answer = (runPass entry ⟨e, g⟩).answer ∧
      (runPass entry ⟨e, g'⟩).session.evaluator = (runPass entry ⟨e, g⟩).session.evaluator ∧
      List.Forall₂ (Report.Like (Twin g.Stored)) (runPass entry ⟨e, g⟩).reports
        (runPass entry ⟨e, g'⟩).reports ∧
      (runPass entry ⟨e, g'⟩).session.graph.properties =
        (runPass entry ⟨e, g⟩).session.graph.properties ∧
      (∀ p, g.Stored p → (runPass entry ⟨e, g'⟩).session.graph.pins.get? p =
        (runPass entry ⟨e, g⟩).session.graph.pins.get? p) ∧
      (runPass entry ⟨e, g⟩).session.graph.Twin g.Stored (runPass entry ⟨e, g'⟩).session.graph := by
  have hstart : Session.Twin g g.Stored ⟨e, g⟩ ⟨e, g'⟩ := ⟨rfl, h, rfl⟩
  have hsourced := hrun.laid.sourced (hrun.sound (.new name registry)) hfill
  have hpass := runPass_paired (k := entry) h.indexed hsourced hstart fun _ => id
  obtain ⟨hanswer, htwin⟩ := hpass.outcome
  exact ⟨hanswer, htwin.evaluator, hpass.1, htwin.graph.properties, htwin.graph.contents,
    htwin.graph⟩

/-- The sum that was left in the output of an adding node does not come to the log. -/
theorem doubling_forgets_stale_sum :
    ¬ doubling.Stored ⟨6⟩ ∧ doubling.Stored ⟨13⟩ ∧
      (runPass ⟨9⟩ ⟨{}, doubling.withValue ⟨6⟩ (.float 40)⟩).answer =
        (runPass ⟨9⟩ ⟨{}, doubling⟩).answer ∧
      (runPass ⟨9⟩ ⟨{}, doubling.withValue ⟨6⟩ (.float 40)⟩).session.graph.pins.get? ⟨13⟩ =
        (runPass ⟨9⟩ ⟨{}, doubling⟩).session.graph.pins.get? ⟨13⟩ := by
  have hstale : ¬ doubling.Stored ⟨6⟩ := by decide +kernel
  have hlogged : doubling.Stored ⟨13⟩ := by decide +kernel
  have htype : (doubling.pins.get? ⟨6⟩).map Pin.type = some .float := by decide +kernel
  obtain ⟨pin, hp, hfloat⟩ := Option.map_eq_some_iff.mp htype
  have hindexed := (doubling_reached.sound (.new _ _)).intact.indexed
  have htwin := twin_withValue (v := .float 40) hindexed hp hfloat.symm hstale
  obtain ⟨hanswer, -, -, -, hstored, -⟩ :=
    stale_contents_never_leak doubling_reached
      (scriptsFill_of_allBuiltin (by decide +kernel)) htwin {} ⟨9⟩
  exact ⟨hstale, hlogged, hanswer, hstored ⟨13⟩ hlogged⟩

end FlowGraph.Graph
