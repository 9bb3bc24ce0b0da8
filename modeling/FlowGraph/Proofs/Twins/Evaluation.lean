import FlowGraph.Proofs.Twins.Graphs

/-!
# Evaluating twin graphs side by side

An evaluation goes the same way on twin graphs as long as it only looks into pins that hold the same
in both.  A body looks into the inputs of its node, and each of them was refreshed before.  What it
was refreshed from is either a pin known to be the same from the start, or the output of a pure node
that was pulled just before and filled the output with what it computed from inputs of its own
(`Graph.Sourced`).  So by induction on the depth of the pulls, every pin that is written is written
with the same value on both sides: the pins that agree become more and more (`pull_paired`).
-/

namespace FlowGraph

open Eval

/-- The same report, but for the graph that goes with an announcement. -/
def Report.Like (S : Graph → Graph → Prop) : Report → Report → Prop
  | .announced e g, .announced e' g' => e' = e ∧ S g g'
  | r, r' => r' = r

theorem Report.Like.refl {S : Graph → Graph → Prop} (hS : ∀ g, S g g) (r : Report) :
    r.Like S r := by
  cases r with
  | announced e g => exact ⟨rfl, hS g⟩
  | _ => rfl

/-! ## Two steps side by side -/

namespace Eval

variable {α β : Type} {base : PinId → Prop} {s s' : Session}
  {Q : α → α → Session → Session → Prop} {E : Session → Session → Prop}

/-- The two steps report the same, and either both answer, so that `Q` holds of the answers, or both
    stop for the same reason, so that `E` holds. -/
def Paired (base : PinId → Prop) (m m' : Eval α) (s s' : Session)
    (Q : α → α → Session → Session → Prop) (E : Session → Session → Prop) : Prop :=
  List.Forall₂ (Report.Like (Graph.Twin base)) (m s).reports (m' s').reports ∧
    match (m s).answer, (m' s').answer with
    | .ok a, .ok a' => Q a a' (m s).session (m' s').session
    | .error stop, .error stop' => stop' = stop ∧ E (m s).session (m' s').session
    | _, _ => False

theorem paired_pure {a a' : α} (h : Q a a' s s') : Paired base (pure a) (pure a') s s' Q E :=
  ⟨.nil, h⟩

theorem paired_fail {error : EvaluationError} (h : E s s') :
    Paired base (fail error) (fail error) s s' Q E := ⟨.nil, rfl, h⟩

theorem paired_exhaust (h : E s s') : Paired base exhaust exhaust s s' Q E := ⟨.nil, rfl, h⟩

theorem paired_graph {Q : Graph → Graph → Session → Session → Prop}
    (h : Q s.graph s'.graph s s') : Paired base graph graph s s' Q E := ⟨.nil, h⟩

theorem paired_evaluator {Q : Evaluator → Evaluator → Session → Session → Prop}
    (h : Q s.evaluator s'.evaluator s s') : Paired base evaluator evaluator s s' Q E := ⟨.nil, h⟩

theorem paired_updateEvaluator {f : Evaluator → Evaluator}
    {Q : Unit → Unit → Session → Session → Prop}
    (h : Q () () { s with evaluator := f s.evaluator } { s' with evaluator := f s'.evaluator }) :
    Paired base (updateEvaluator f) (updateEvaluator f) s s' Q E := ⟨.nil, h⟩

theorem paired_edit {e e' : Edit α}
    (hreports : List.Forall₂ (Report.Like (Graph.Twin base)) (e s.graph).reports
      (e' s'.graph).reports)
    (h : Q (e s.graph).answer (e' s'.graph).answer { s with graph := (e s.graph).graph }
      { s' with graph := (e' s'.graph).graph }) :
    Paired base (edit e) (edit e') s s' Q E := ⟨hreports, h⟩

theorem paired_report {r : Report} {Q : Unit → Unit → Session → Session → Prop}
    (hr : r.Like (Graph.Twin base) r) (h : Q () () s s') :
    Paired base (report r) (report r) s s' Q E := ⟨.cons hr .nil, h⟩

theorem paired_andFinally {m m' : Eval α} {f f' : Session → Session}
    (h : Paired base m m' s s' (fun a a' t t' => Q a a' (f t) (f' t'))
      fun t t' => E (f t) (f' t')) :
    Paired base (andFinally m f) (andFinally m' f') s s' Q E := h

theorem paired_bind {m m' : Eval α} {f f' : α → Eval β} {Q : β → β → Session → Session → Prop}
    (h : Paired base m m' s s' (fun a a' t t' => Paired base (f a) (f' a') t t' Q E) E) :
    Paired base (m >>= f) (m' >>= f') s s' Q E := by
  obtain ⟨hreports, h⟩ := h
  unfold Paired
  rw [bind_apply, bind_apply]
  cases ha : (m s).answer with
  | ok a =>
    cases ha' : (m' s').answer with
    | ok a' =>
      rw [ha, ha'] at h
      exact ⟨List.rel_append hreports h.1, h.2⟩
    | error stop' => simp [ha, ha'] at h
  | error stop =>
    cases ha' : (m' s').answer with
    | ok a' => simp [ha, ha'] at h
    | error stop' =>
      rw [ha, ha'] at h
      exact ⟨hreports, h⟩

theorem Paired.mono {m m' : Eval α} {Q' : α → α → Session → Session → Prop}
    {E' : Session → Session → Prop} (h : Paired base m m' s s' Q E)
    (hq : ∀ a a' t t', Q a a' t t' → Q' a a' t t') (he : ∀ t t', E t t' → E' t t') :
    Paired base m m' s s' Q' E' := by
  obtain ⟨hreports, h⟩ := h
  refine ⟨hreports, ?_⟩
  cases ha : (m s).answer <;> cases ha' : (m' s').answer <;> simp only [ha, ha'] at h ⊢
  · exact ⟨h.1, he _ _ h.2⟩
  · exact hq _ _ _ _ h

/-- Where equal answers go with what also holds of two runs that stop, the runs have the same
    outcome, and that holds of what they leave. -/
theorem Paired.outcome {m m' : Eval α}
    (h : Paired base m m' s s' (fun a a' t t' => a' = a ∧ E t t') E) :
    (m' s').answer = (m s).answer ∧ E (m s).session (m' s').session := by
  obtain ⟨-, hends⟩ := h
  cases ha : (m s).answer <;> cases ha' : (m' s').answer <;> simp only [ha, ha'] at hends
  · exact ⟨congrArg Except.error hends.1, hends.2⟩
  · exact ⟨congrArg Except.ok hends.1, hends.2⟩

/-- What holds before the first step of a loop and is carried on by each step, to one item more,
    holds of all items in the end. -/
theorem paired_forM {I : List α → Session → Session → Prop} {f : α → Eval Unit} (xs : List α)
    (h : I [] s s')
    (hstep : ∀ done x t t', I done t t' →
      Paired base (f x) (f x) t t' (fun _ _ u u' => I (done ++ [x]) u u') E) :
    Paired base (xs.forM f) (xs.forM f) s s' (fun _ _ t t' => I xs t t') E := by
  suffices hgen : ∀ (rest done : List α) (t t' : Session), I done t t' →
      Paired base (rest.forM f) (rest.forM f) t t' (fun _ _ u u' => I (done ++ rest) u u') E from
    hgen xs [] s s' h
  intro rest
  induction rest with
  | nil =>
    intro done t t' ht
    rw [List.append_nil]
    exact paired_pure ht
  | cons x rest ih =>
    intro done t t' ht
    refine paired_bind ((hstep done x t t' ht).mono (fun _ _ u u' hu => ?_) fun _ _ he => he)
    have hrest := ih (done ++ [x]) u u' hu
    rwa [List.append_assoc] at hrest

end Eval

/-! ## Reading and writing -/

/-- The evaluators are the same and the graphs are twins, in the frame of `g`. -/
structure Session.Twin (g : Graph) (seen : PinId → Prop) (s s' : Session) : Prop where
  evaluator : s'.evaluator = s.evaluator
  graph : s.graph.Twin seen s'.graph
  framed : s.graph.frame = g.frame

variable {g : Graph} {base seen seen' : PinId → Prop} {s s' : Session} {k : NodeId}
  {E : Session → Session → Prop}

theorem Session.Twin.mono (h : s.Twin g seen s') (hsub : ∀ p, seen' p → seen p) :
    s.Twin g seen' s' := ⟨h.evaluator, h.graph.mono hsub, h.framed⟩

theorem Session.Twin.count (h : s.Twin g seen s') (f : Evaluator → Evaluator) :
    Session.Twin g seen { s with evaluator := f s.evaluator }
      { s' with evaluator := f s'.evaluator } :=
  ⟨congrArg f h.evaluator, h.graph, h.framed⟩

theorem readInput_paired (h : s.Twin g seen s') {i : Nat}
    (hin : ∀ p, g.valuePin? k .input i = some p → seen p)
    {Q : Value → Value → Session → Session → Prop} (hok : ∀ v, Q v v s s') (hfail : E s s') :
    Paired base (readInput k i) (readInput k i) s s' Q E := by
  refine paired_bind (paired_graph ?_)
  rw [h.graph.valuePin?, Graph.valuePin?_of_frame h.framed]
  cases hp : g.valuePin? k .input i with
  | none => exact paired_fail hfail
  | some p =>
    rw [Option.bind_some, Option.bind_some, h.graph.contents p (hin p hp)]
    cases s.graph.pins.get? p with
    | none => exact paired_fail hfail
    | some pin => exact paired_pure (hok pin.value)

theorem readInputAs_paired (h : s.Twin g seen s') {i : Nat} {type : ValueType}
    (hin : ∀ p, g.valuePin? k .input i = some p → seen p)
    {Q : Value → Value → Session → Session → Prop} (hok : ∀ v, Q v v s s') (hfail : E s s') :
    Paired base (readInputAs k i type) (readInputAs k i type) s s' Q E := by
  refine paired_bind (readInput_paired h hin (fun v => ?_) hfail)
  split
  · exact paired_pure (hok v)
  · exact paired_fail hfail

theorem readFloat_paired (h : s.Twin g seen s') {i : Nat}
    (hin : ∀ p, g.valuePin? k .input i = some p → seen p)
    {Q : Float32 → Float32 → Session → Session → Prop} (hok : ∀ x, Q x x s s') (hfail : E s s') :
    Paired base (readFloat k i) (readFloat k i) s s' Q E := by
  refine paired_bind (readInput_paired h hin (fun v => ?_) hfail)
  split
  · exact paired_pure (hok _)
  · exact paired_fail hfail

theorem propertyOf_paired (h : s.Twin g seen s') {property : Option PropertyId}
    {Q : Value → Value → Session → Session → Prop} (hok : ∀ v, Q v v s s') (hfail : E s s') :
    Paired base (propertyOf k property) (propertyOf k property) s s' Q E := by
  refine paired_bind (paired_graph ?_)
  have hvalues : s'.graph.propertyValue? = s.graph.propertyValue? := by
    funext p
    rw [Graph.propertyValue?, Graph.propertyValue?, h.graph.properties]
  rw [hvalues]
  split
  · exact paired_pure (hok _)
  · exact paired_fail hfail

theorem setPin_paired (h : s.Twin g seen s') {p : PinId} {v : Value}
    {Q : Unit → Unit → Session → Session → Prop}
    (hok : ∀ t t', t.Twin g (fun q => seen q ∨ q = p) t' → Q () () t t') (hfail : E s s') :
    Paired base (attempt k (Graph.setPin p v)) (attempt k (Graph.setPin p v)) s s' Q E := by
  unfold attempt
  rcases h.graph.setPin_cases p v with ⟨cause, hg, hg'⟩ | ⟨pin, hp, htype, hg, hg'⟩
  · refine paired_bind (paired_edit ?_ ?_) <;> rw [hg, hg']
    · exact .nil
    · exact paired_fail hfail
  · have hframe := (Graph.withValue_frame h.graph.indexed hp htype).trans h.framed
    refine paired_bind (paired_edit ?_ ?_) <;> rw [hg, hg']
    · exact .nil
    · exact paired_pure (hok _ _ ⟨h.evaluator, h.graph.withValue hp htype, hframe⟩)

theorem setProperty_paired (h : s.Twin g seen s') (hbase : ∀ p, base p → seen p) {p : PropertyId}
    {v : Value} {Q : Unit → Unit → Session → Session → Prop}
    (hok : ∀ t t', t.Twin g seen t' → Q () () t t') (hfail : E s s') :
    Paired base (attempt k (Graph.setProperty p v)) (attempt k (Graph.setProperty p v)) s s' Q
      E := by
  unfold attempt
  rcases h.graph.setProperty_cases p v with ⟨cause, hg, hg'⟩ | ⟨h₁, h₁', htwin, hframe, hg, hg'⟩
  · refine paired_bind (paired_edit ?_ ?_) <;> rw [hg, hg']
    · exact .nil
    · exact paired_fail hfail
  · refine paired_bind (paired_edit ?_ ?_) <;> rw [hg, hg']
    · exact .cons ⟨rfl, htwin.mono hbase⟩ .nil
    · exact paired_pure (hok _ _ ⟨h.evaluator, htwin, hframe.trans h.framed⟩)

theorem writeOutput_paired (h : s.Twin g seen s') {i : Nat} {v : Value}
    {Q : Unit → Unit → Session → Session → Prop}
    (hok : ∀ t t', t.Twin g (fun p => seen p ∨ g.valuePin? k .output i = some p) t' →
      Q () () t t') (hfail : E s s') :
    Paired base (writeOutput k i v) (writeOutput k i v) s s' Q E := by
  refine paired_bind (paired_graph ?_)
  rw [h.graph.valuePin?, Graph.valuePin?_of_frame h.framed]
  cases hp : g.valuePin? k .output i with
  | none => exact paired_fail hfail
  | some p =>
    refine setPin_paired h (fun t t' ht => hok t t' (ht.mono fun q hq => ?_)) hfail
    rw [hp] at hq
    exact hq.imp_right fun heq => (Option.some.inj heq).symm

/-! ## Bodies -/

/-- Whether a body that gets to its end has written the value output of its node. -/
def Behavior.fills (output : Nat) : Behavior → Bool
  | eventBegin => false
  | logValue _ | floatConstant _ | arithmetic _ | getVariable _ | setVariable _ => output = 0
  | scripted script => .output output ∈ script.actions

theorem runAction_paired (h : s.Twin g seen s') (hbase : ∀ p, base p → seen p)
    (hin : ∀ i p, g.valuePin? k .input i = some p → seen p) (register : Value) (action : Action) :
    Paired base (runAction k register action) (runAction k register action) s s'
      (fun v v' t t' => v' = v ∧ t.Twin g
        (fun p => seen p ∨ ∃ i, action = .output i ∧ g.valuePin? k .output i = some p) t')
      fun t t' => t.Twin g seen t' := by
  have hread : ∀ {action : Action}, (∀ i, action ≠ .output i) →
      s.Twin g (fun p => seen p ∨ ∃ i, action = .output i ∧ g.valuePin? k .output i = some p) s' :=
    fun hno => h.mono fun _ hp => hp.resolve_right fun ⟨i, hi, _⟩ => hno i hi
  cases action with
  | input i => exact readInput_paired h (hin i) (fun _ => ⟨rfl, hread nofun⟩) h
  | inputOf i type => exact readInputAs_paired h (hin i) (fun _ => ⟨rfl, hread nofun⟩) h
  | output i =>
    refine paired_bind (writeOutput_paired h (fun t t' ht => ?_) h)
    refine paired_pure ⟨rfl, ht.mono fun p hp => hp.imp_right ?_⟩
    rintro ⟨_, hi, hp⟩
    cases hi
    exact hp
  | load v => exact paired_pure ⟨rfl, hread nofun⟩
  | readProperty p => exact propertyOf_paired h (fun _ => ⟨rfl, hread nofun⟩) h
  | writeProperty p =>
    refine paired_bind (setProperty_paired h hbase (fun t t' ht => paired_pure ⟨rfl, ?_⟩) h)
    exact ht.mono fun _ hp => hp.resolve_right nofun
  | fail message => exact paired_fail h
  | missing input => exact paired_fail h

/-- A script that gets to its end has written every output that one of its actions writes. -/
theorem runActions_paired {actions : List Action} :
    ∀ {seen : PinId → Prop} {register : Value} {s s' : Session}, (∀ p, base p → seen p) →
      (∀ i p, g.valuePin? k .input i = some p → seen p) → s.Twin g seen s' →
      Paired base (runActions k register actions) (runActions k register actions) s s'
        (fun _ _ t t' => t.Twin g
          (fun p => seen p ∨ ∃ i, .output i ∈ actions ∧ g.valuePin? k .output i = some p) t')
        fun t t' => t.Twin g seen t' := by
  induction actions with
  | nil =>
    refine fun _ _ h => paired_pure (h.mono fun p hp => hp.resolve_right ?_)
    rintro ⟨i, hi, -⟩
    cases hi
  | cons action rest ih =>
    intro seen register s s' hbase hin h
    refine paired_bind ((runAction_paired h hbase hin register action).mono ?_ fun _ _ he => he)
    rintro v _ t t' ⟨rfl, ht⟩
    refine paired_bind (paired_report rfl ?_)
    refine (ih (fun p hp => .inl (hbase p hp)) (fun i p hp => .inl (hin i p hp)) ht).mono ?_ ?_
    · refine fun _ _ u u' hu => hu.mono fun p hp => ?_
      rcases hp with hp | ⟨i, hi, hp⟩
      · exact .inl (.inl hp)
      · rcases List.mem_cons.mp hi with rfl | hi
        · exact .inl (.inr ⟨i, rfl, hp⟩)
        · exact .inr ⟨i, hi, hp⟩
    · exact fun u u' hu => hu.mono fun p => .inl

/-- A body that finds the same in its inputs does the same, and writes the same. -/
theorem body_paired (h : s.Twin g seen s') (hbase : ∀ p, base p → seen p)
    (hin : ∀ i p, g.valuePin? k .input i = some p → seen p) (b : Behavior) :
    Paired base (b.body k) (b.body k) s s'
      (fun _ _ t t' => t.Twin g
        (fun p => seen p ∨ ∃ i, b.fills i = true ∧ g.valuePin? k .output i = some p) t')
      fun t t' => t.Twin g seen t' := by
  -- The built-in bodies that fill an output fill the first one, as their last step.
  have hwrite : ∀ {b : Behavior} {v : Value} {t t' : Session},
      (∀ i, b.fills i = true → i = 0) → t.Twin g seen t' →
      Paired base (writeOutput k 0 v) (writeOutput k 0 v) t t'
        (fun _ _ u u' => u.Twin g
          (fun p => seen p ∨ ∃ i, b.fills i = true ∧ g.valuePin? k .output i = some p) u')
        fun u u' => u.Twin g seen u' := by
    intro b v t t' hfirst ht
    refine writeOutput_paired ht (fun _ _ hu => hu.mono fun p hp => hp.imp_right ?_) ht
    rintro ⟨i, hi, hp⟩
    rwa [hfirst i hi] at hp
  have hzero : ∀ i : Nat, decide (i = 0) = true → i = 0 := fun _ => of_decide_eq_true
  cases b with
  | eventBegin => exact paired_pure (h.mono fun _ hp => hp.resolve_right nofun)
  | logValue label =>
    refine paired_bind (readFloat_paired h (hin 0) (fun x => ?_) h)
    exact paired_bind (paired_report rfl (hwrite hzero h))
  | floatConstant x => exact hwrite hzero h
  | arithmetic op =>
    refine paired_bind (readFloat_paired h (hin 0) (fun x => ?_) h)
    exact paired_bind (readFloat_paired h (hin 1) (fun y => hwrite hzero h) h)
  | getVariable property =>
    exact paired_bind (propertyOf_paired h (fun v => hwrite hzero h) h)
  | setVariable property =>
    have hcontains : s'.graph.properties = s.graph.properties := h.graph.properties
    refine paired_bind (Q := _) (Paired.mono (Q := fun id id' t t' => id' = id ∧ t.Twin g seen t')
      (E := fun t t' => t.Twin g seen t') ?_ ?_ fun _ _ he => he)
    · refine paired_bind (paired_graph ?_)
      rw [hcontains]
      split
      · exact paired_pure ⟨rfl, h⟩
      · exact paired_fail h
    · rintro id _ t t' ⟨rfl, ht⟩
      refine paired_bind (readInput_paired ht (hin 0) (fun v => ?_) ht)
      refine paired_bind (setProperty_paired ht hbase (fun u u' hu => ?_) ht)
      exact paired_bind (propertyOf_paired hu (fun w => hwrite hzero hu) hu)
  | scripted script =>
    refine paired_bind (paired_graph ?_)
    have hown : s'.graph.nodes = s.graph.nodes := h.graph.nodes
    rw [hown]
    refine paired_bind (paired_report rfl ?_)
    refine (runActions_paired hbase hin h).mono (fun _ _ t t' ht => ht.mono fun p hp => ?_)
      fun _ _ he => he
    refine hp.imp_right ?_
    rintro ⟨i, hi, hp⟩
    exact ⟨i, of_decide_eq_true hi, hp⟩

namespace Graph

/-- The pin is a value output of the node, and the body of the node writes it. -/
def Fills (g : Graph) (k : NodeId) (p : PinId) : Prop :=
  ∃ n b, g.nodes.get? k = some n ∧ n.behavior = some b ∧
    ∃ i, b.fills i = true ∧ g.valuePin? k .output i = some p

/-- The pin holds something, unlike a flow pin. -/
def HoldsValue (g : Graph) (p : PinId) : Prop :=
  ∃ pin, g.pins.get? p = some pin ∧ pin.isFlow = false

/-- Whatever feeds a value input is known to hold the same, or it is filled by a node that is pulled
    before the input is refreshed. -/
def Sourced (g : Graph) (base : PinId → Prop) : Prop :=
  ∀ i src pin, g.HoldsValue i → g.feedingPin? i = some src → g.pins.get? src = some pin →
    base src ∨ g.isPure pin.node = true ∧ g.Fills pin.node src

end Graph

/-- While the body runs, its behavior is out of the node in both graphs. -/
theorem Session.Twin.running (h : s.Twin g seen s') (k : NodeId) :
    (s.running k).Twin (setBehavior k none g) seen (s'.running k) :=
  ⟨h.evaluator, h.graph.setBehavior k none, setBehavior_frame h.framed k none⟩

theorem Session.Twin.back {n : Node} {b : Behavior} {t t' : Session} (hg : g.Indexed)
    (hn : g.nodes.get? k = some n) (hb : n.behavior = some b)
    (h : t.Twin (setBehavior k none g) seen t') : (t.back k b).Twin g seen (t'.back k b) := by
  refine ⟨h.evaluator, h.graph.setBehavior k (some b), ?_⟩
  have hframe := setBehavior_frame h.framed k (some b)
  rwa [← hb, setBehavior_setBehavior hg hn none, hb] at hframe

theorem runNode_paired (hg : g.Indexed) (h : s.Twin g seen s') (hbase : ∀ p, base p → seen p)
    (hin : ∀ i p, g.valuePin? k .input i = some p → seen p) :
    Paired base (runNode k) (runNode k) s s'
      (fun _ _ t t' => t.Twin g (fun p => seen p ∨ g.Fills k p) t')
      fun t t' => t.Twin g seen t' := by
  refine paired_bind (paired_graph ?_)
  rw [h.graph.nodes, Graph.nodes_of_frame h.framed]
  cases hn : g.nodes.get? k with
  | none => exact paired_fail h
  | some n =>
    cases hb : n.behavior with
    | none =>
      simp only [hb]
      refine paired_bind (paired_evaluator ?_)
      rw [h.evaluator]
      exact paired_fail h
    | some b =>
      simp only [hb]
      refine paired_bind (paired_edit .nil (paired_andFinally ?_))
      have hin' : ∀ i p, (setBehavior k none g).valuePin? k .input i = some p → seen p := by
        intro i p hp
        rw [valuePin?_setBehavior] at hp
        exact hin i p hp
      refine (body_paired (h.running k) hbase hin' b).mono (fun _ _ t t' ht => ?_)
        fun t t' ht => ht.back hg hn hb
      refine (ht.back hg hn hb).mono fun p hp => hp.imp_right ?_
      rintro ⟨n', b', hn', hb', i, hfills, hp⟩
      rw [hn] at hn'
      cases hn'
      rw [hb] at hb'
      cases hb'
      exact ⟨i, hfills, by rwa [valuePin?_setBehavior]⟩

/-! ## Inputs and pulls -/

/-- A pull on both sides leaves the outputs that the node fills the same. -/
def PullPaired (g : Graph) (base : PinId → Prop) (pull : NodeId → Eval Unit) : Prop :=
  ∀ (seen : PinId → Prop) (k : NodeId) (s s' : Session), (∀ p, base p → seen p) →
    s.Twin g seen s' → Paired base (pull k) (pull k) s s'
      (fun _ _ t t' => t.Twin g (fun p => seen p ∨ g.Fills k p) t')
      fun t t' => t.Twin g seen t'

theorem copyPin_paired (h : s.Twin g seen s') {src i : PinId} (hsrc : seen src)
    {Q : Unit → Unit → Session → Session → Prop}
    (hok : ∀ t t', t.Twin g (fun q => seen q ∨ q = i) t' → Q () () t t') (hfail : E s s') :
    Paired base (attempt k (Graph.copyPin src i)) (attempt k (Graph.copyPin src i)) s s' Q E := by
  cases hr : s.graph.pins.get? src with
  | none =>
    have hr' := h.graph.pin_none hr
    refine paired_bind (paired_edit ?_ ?_) <;> rw [Graph.copyPin_eq, Graph.copyPin_eq, hr, hr']
    · exact .nil
    · exact paired_fail hfail
  | some r =>
    have hr' : s'.graph.pins.get? src = some r := (h.graph.contents src hsrc).trans hr
    have hset : Paired base (attempt k (Graph.setPin i r.value))
        (attempt k (Graph.setPin i r.value)) s s' Q E := setPin_paired h hok hfail
    unfold Paired attempt at hset ⊢
    simp only [bind_apply, edit, Graph.copyPin_eq, hr, hr'] at hset ⊢
    exact hset

/-- Pulling the source if it is pure and copying what it holds then. -/
theorem refreshFrom_paired {pull : NodeId → Eval Unit} (hs : g.Sourced base)
    (hpull : PullPaired g base pull) (h : s.Twin g seen s') (hbase : ∀ p, base p → seen p)
    {i src : PinId} {q : Pin} (hi : g.HoldsValue i) (hsrc : g.feedingPin? i = some src)
    (hq : s.graph.pins.get? src = some q) :
    let refresh : Eval Unit := do
      if g.isPure q.node then pull q.node
      attempt k (Graph.copyPin src i)
    Paired base refresh refresh s s' (fun _ _ t t' => t.Twin g (fun p => seen p ∨ p = i) t')
      fun t t' => t.Twin g seen t' := by
  obtain ⟨q₀, hq₀, hblank⟩ := Graph.pin_of_frame h.framed hq
  obtain ⟨-, -, -, hnode, -⟩ := Pin.blank_eq_blank hblank
  have hsourced := hs i src q₀ hi hsrc hq₀
  rw [← hnode] at hsourced
  by_cases hpure : g.isPure q.node = true
  · simp only [if_pos hpure]
    refine paired_bind ((hpull seen q.node s s' hbase h).mono (fun _ _ t t' ht => ?_)
      fun _ _ he => he)
    refine copyPin_paired ht (hsourced.imp (hbase src) And.right) (fun u u' hu => ?_)
      (ht.mono fun _ => .inl)
    exact hu.mono fun p => Or.imp_left .inl
  · simp only [if_neg hpure]
    have hseen := hbase src (hsourced.resolve_right fun hno => hpure hno.1)
    exact copyPin_paired h hseen (fun u u' hu => hu) h

theorem Graph.holdsValue_of_frame {t : Graph} (hf : t.frame = g.frame) {p : PinId} {pin : Pin}
    (hp : t.pins.get? p = some pin) : g.HoldsValue p ↔ pin.isFlow = false := by
  obtain ⟨pin₀, hp₀, hblank⟩ := pin_of_frame hf hp
  have hflow : pin.isFlow = pin₀.isFlow := by
    rw [← Pin.isFlow_blank, hblank, Pin.isFlow_blank]
  rw [hflow]
  refine ⟨?_, fun h => ⟨pin₀, hp₀, h⟩⟩
  rintro ⟨pin₁, hp₁, h⟩
  rw [hp₀] at hp₁
  cases hp₁
  exact h

theorem refreshInput_paired {pull : NodeId → Eval Unit} (hs : g.Sourced base)
    (hpull : PullPaired g base pull) (h : s.Twin g seen s') (hbase : ∀ p, base p → seen p)
    (i : PinId) :
    Paired base (refreshInput pull k i) (refreshInput pull k i) s s'
      (fun _ _ t t' => t.Twin g (fun p => seen p ∨ p = i ∧ g.HoldsValue p) t')
      fun t t' => t.Twin g seen t' := by
  -- What is skipped holds no value, so there is nothing to agree on.
  have hskip : ¬ g.HoldsValue i →
      s.Twin g (fun p => seen p ∨ p = i ∧ g.HoldsValue p) s' := fun hno =>
    h.mono fun p hp => hp.resolve_right fun hpi => hno (hpi.1 ▸ hpi.2)
  refine paired_bind (paired_graph ?_)
  cases hp : s.graph.pins.get? i with
  | none =>
    rw [h.graph.pin_none hp]
    refine paired_pure (hskip ?_)
    rintro ⟨pin, hpin, -⟩
    obtain ⟨pin', hpin', -⟩ := Graph.pin_of_frame h.framed.symm hpin
    rw [hp] at hpin'
    cases hpin'
  | some pin =>
    obtain ⟨pin', hp', hblank⟩ := h.graph.pin hp
    obtain ⟨-, hname, -⟩ := Pin.blank_eq_blank hblank
    have hflow : pin'.isFlow = pin.isFlow := by
      rw [← Graph.Pin.isFlow_blank, hblank, Graph.Pin.isFlow_blank]
    rw [hp']
    simp only [hflow, hname]
    by_cases hf : pin.isFlow = true
    · rw [if_pos hf, if_pos hf]
      refine paired_pure (hskip fun hv => ?_)
      rw [(Graph.holdsValue_of_frame h.framed hp).mp hv] at hf
      cases hf
    · have hi := (Graph.holdsValue_of_frame h.framed hp).mpr (by simpa using hf)
      rw [if_neg hf, if_neg hf, h.graph.feedingPin?, Graph.feedingPin?_of_frame h.framed]
      cases hsrc : g.feedingPin? i with
      | none => exact paired_fail h
      | some src =>
        cases hq : s.graph.pins.get? src with
        | none =>
          simp only [hq, h.graph.pin_none hq]
          exact paired_fail h
        | some q =>
          obtain ⟨q', hq', hqblank⟩ := h.graph.pin hq
          obtain ⟨-, -, -, hnode, -⟩ := Pin.blank_eq_blank hqblank
          simp only [hq, hq', hnode, h.graph.isPure, Graph.isPure_of_frame h.framed]
          refine (refreshFrom_paired hs hpull h hbase hi hsrc hq).mono (fun _ _ t t' ht => ?_)
            fun _ _ he => he
          exact ht.mono fun p => Or.imp_right And.left

theorem Graph.valuePin?_listed {n : Node} (hn : g.nodes.get? k = some n) {d : Direction} {i : Nat}
    {p : PinId} (hp : g.valuePin? k d i = some p) : p ∈ n.pinsOf d ∧ g.HoldsValue p := by
  simp only [Graph.valuePin?, hn, Option.map_some, Option.bind_some] at hp
  obtain ⟨hm, hv⟩ := List.mem_filter.mp (List.mem_of_getElem? hp)
  refine ⟨hm, ?_⟩
  cases hpin : g.pins.get? p with
  | none => simp [hpin] at hv
  | some pin => exact ⟨pin, hpin, by simpa [hpin] using hv⟩

/-- After a loop over inputs those of them that hold values are the same on both sides. -/
theorem refreshEach_paired {pull : NodeId → Eval Unit} (hs : g.Sourced base)
    (hpull : PullPaired g base pull) (h : s.Twin g seen s') (hbase : ∀ p, base p → seen p)
    (inputs : List PinId) :
    Paired base (inputs.forM (refreshInput pull k)) (inputs.forM (refreshInput pull k)) s s'
      (fun _ _ t t' => t.Twin g (fun p => seen p ∨ p ∈ inputs ∧ g.HoldsValue p) t')
      fun t t' => t.Twin g seen t' := by
  refine paired_forM (I := fun done t t' =>
    t.Twin g (fun p => seen p ∨ p ∈ done ∧ g.HoldsValue p) t') inputs
    (h.mono fun p hp => hp.resolve_right fun hm => absurd hm.1 List.not_mem_nil) ?_
  intro done i t t' ht
  refine (refreshInput_paired hs hpull ht (fun p hp => .inl (hbase p hp)) i).mono ?_ ?_
  · refine fun _ _ u u' hu => hu.mono fun p hp => ?_
    rcases hp with hp | ⟨hm, hv⟩
    · exact .inl (.inl hp)
    · rcases List.mem_append.mp hm with hm | hm
      · exact .inl (.inr ⟨hm, hv⟩)
      · exact .inr ⟨List.mem_singleton.mp hm, hv⟩
  · exact fun u u' hu => hu.mono fun p hp => .inl hp

theorem refreshInputsWith_paired {pull : NodeId → Eval Unit} (hs : g.Sourced base)
    (hpull : PullPaired g base pull) (h : s.Twin g seen s') (hbase : ∀ p, base p → seen p) :
    Paired base (refreshInputsWith pull k) (refreshInputsWith pull k) s s'
      (fun _ _ t t' => t.Twin g
        (fun p => seen p ∨ ∃ i, g.valuePin? k .input i = some p) t')
      fun t t' => t.Twin g seen t' := by
  refine paired_bind (paired_graph ?_)
  rw [h.graph.nodes, Graph.nodes_of_frame h.framed]
  cases hn : g.nodes.get? k with
  | none => exact paired_fail h
  | some n =>
    refine (refreshEach_paired hs hpull h hbase n.inputs).mono
      (fun _ _ t t' ht => ht.mono fun p hp => hp.imp_right ?_) fun _ _ he => he
    rintro ⟨i, hi⟩
    exact Graph.valuePin?_listed hn hi

theorem evaluateWith_paired {pull : NodeId → Eval Unit} (hg : g.Indexed) (hs : g.Sourced base)
    (hpull : PullPaired g base pull) (h : s.Twin g seen s') (hbase : ∀ p, base p → seen p) :
    Paired base (evaluateWith pull k) (evaluateWith pull k) s s'
      (fun _ _ t t' => t.Twin g (fun p => seen p ∨ g.Fills k p) t')
      fun t t' => t.Twin g seen t' := by
  refine paired_bind ((refreshInputsWith_paired hs hpull h hbase).mono (fun _ _ t t' ht => ?_)
    fun _ _ he => he)
  refine (runNode_paired hg ht (fun p hp => .inl (hbase p hp)) fun i p hp => .inr ⟨i, hp⟩).mono
    (fun _ _ u u' hu => hu.mono fun p hp => ?_) fun u u' hu => hu.mono fun p => .inl
  exact hp.imp_left .inl

/-- A pull goes the same way on both sides, however deep it goes. -/
theorem pull_paired (hg : g.Indexed) (hs : g.Sourced base) (depth : Nat) :
    PullPaired g base (pull depth) := by
  induction depth with
  | zero => exact fun seen k s s' _ h => paired_exhaust h
  | succ depth ih =>
    intro seen k s s' hbase h
    refine paired_bind (paired_evaluator ?_)
    rw [h.evaluator]
    by_cases hbusy : k ∈ s.evaluator.inProgress
    · rw [if_pos hbusy]
      exact paired_fail h
    · rw [if_neg hbusy]
      refine paired_bind (paired_updateEvaluator (paired_andFinally ?_))
      exact (evaluateWith_paired hg hs ih (h.count (beginPull k)) hbase).mono
        (fun _ _ _ _ ht => ht.count (endPull k)) fun _ _ ht => ht.count (endPull k)

theorem pullDepth_twin (h : s.Twin g seen s') : pullDepth s'.graph = pullDepth s.graph := by
  rw [pullDepth, pullDepth, h.graph.nodes]

theorem refreshInputs_paired (hg : g.Indexed) (hs : g.Sourced base) (h : s.Twin g seen s')
    (hbase : ∀ p, base p → seen p) :
    Paired base (refreshInputs k) (refreshInputs k) s s' (fun _ _ t t' => t.Twin g seen t')
      fun t t' => t.Twin g seen t' := by
  have hpaired := refreshInputsWith_paired (k := k) hs (pull_paired hg hs (pullDepth s.graph)) h
    hbase
  unfold Paired refreshInputs at *
  rw [pullDepth_twin h]
  exact (show Paired base _ _ s s' _ _ from hpaired).mono
    (fun _ _ _ _ ht => ht.mono fun _ => .inl) fun _ _ he => he

theorem evaluateNode_paired (hg : g.Indexed) (hs : g.Sourced base) (h : s.Twin g seen s')
    (hbase : ∀ p, base p → seen p) :
    Paired base (evaluateNode k) (evaluateNode k) s s' (fun _ _ t t' => t.Twin g seen t')
      fun t t' => t.Twin g seen t' := by
  have hpaired := evaluateWith_paired (k := k) hg hs (pull_paired hg hs (pullDepth s.graph)) h
    hbase
  unfold Paired evaluateNode at *
  rw [pullDepth_twin h]
  exact (show Paired base _ _ s s' _ _ from hpaired).mono
    (fun _ _ _ _ ht => ht.mono fun _ => .inl) fun _ _ he => he

/-! ## Passes -/

theorem settle_paired {m : Eval Unit}
    (h : Paired base m m s s' (fun _ _ t t' => t.Twin g seen t') fun t t' => t.Twin g seen t') :
    Paired base (settle k m) (settle k m) s s' (fun o o' t t' => o' = o ∧ t.Twin g seen t') E := by
  obtain ⟨hreports, h⟩ := h
  refine ⟨hreports, ?_⟩
  simp only [settle, Ran.outcome]
  cases ha : (m s).answer <;> cases ha' : (m s').answer <;> simp only [ha, ha'] at h ⊢
  · obtain ⟨rfl, htwin⟩ := h
    refine ⟨?_, htwin⟩
    rw [htwin.evaluator]
  · exact ⟨trivial, h⟩

theorem walk_paired (hg : g.Indexed) (hs : g.Sourced base) (hbase : ∀ p, base p → seen p)
    (steps : Nat) : ∀ {k : NodeId} {s s' : Session}, s.Twin g seen s' →
      Paired base (walk steps k) (walk steps k) s s' (fun _ _ t t' => t.Twin g seen t')
        fun t t' => t.Twin g seen t' := by
  induction steps with
  | zero => exact fun h => paired_pure h
  | succ steps ih =>
    intro k s s' h
    refine paired_bind ((settle_paired (evaluateNode_paired hg hs h hbase)).mono ?_
      fun _ _ he => he)
    rintro _ outcome t t' ⟨rfl, ht⟩
    cases outcome with
    | error error => exact paired_updateEvaluator (ht.count _)
    | ok _ =>
      refine paired_bind (paired_updateEvaluator (paired_bind (paired_evaluator ?_)))
      have hvisit := ht.count (.visit k)
      generalize ({ t with evaluator := t.evaluator.visit k } : Session) = u at hvisit ⊢
      generalize ({ t' with evaluator := t'.evaluator.visit k } : Session) = u' at hvisit ⊢
      rw [hvisit.evaluator]
      by_cases hlast : u.evaluator.evaluated = u.evaluator.maxFlowSteps
      · rw [if_pos hlast]
        exact paired_updateEvaluator (hvisit.count _)
      · rw [if_neg hlast]
        refine paired_bind (paired_graph ?_)
        rw [hvisit.graph.flowSuccessor?]
        cases u.graph.flowSuccessor? k with
        | some next => exact ih hvisit
        | none => exact paired_pure hvisit

/-- A pass answers the same on both sides. -/
theorem runPass_paired (hg : g.Indexed) (hs : g.Sourced base) (h : s.Twin g seen s')
    (hbase : ∀ p, base p → seen p) :
    Paired base (runPass k) (runPass k) s s' (fun a a' t t' => a' = a ∧ t.Twin g seen t')
      fun t t' => t.Twin g seen t' := by
  refine paired_bind (paired_updateEvaluator (paired_bind (paired_evaluator ?_)))
  have hcleared := h.count .cleared
  generalize ({ s with evaluator := s.evaluator.cleared } : Session) = t at hcleared ⊢
  generalize ({ s' with evaluator := s'.evaluator.cleared } : Session) = t' at hcleared ⊢
  rw [hcleared.evaluator]
  refine paired_bind ((walk_paired hg hs hbase _ hcleared).mono (fun _ _ u u' hu => ?_)
    fun _ _ he => he)
  refine paired_bind (paired_evaluator ?_)
  rw [hu.evaluator]
  cases u.evaluator.lastError with
  | none => exact paired_pure ⟨rfl, hu⟩
  | some error => exact paired_bind (paired_report rfl (paired_pure ⟨rfl, hu⟩))

end FlowGraph
