import FlowGraph.Proofs.Evaluation.Declared
import FlowGraph.Proofs.Evaluation.Pulls
import FlowGraph.Proofs.Evaluation.Rounds
import FlowGraph.Proofs.Evaluation.Writes
import FlowGraph.Proofs.Staffing

/-!
# What a pass does to properties

Only set-variable nodes write to properties, and they are never pulled, so the writes of a pass can
be told from the nodes it visited (`Session.offers`): each setter stores once what its first value
input held after it was refreshed.

The node at which a pass fails may have written too, since a setter stores before it passes the value
on.  It can only fail after that for want of an output of the type of its property.  A setter with
the pins it declares has one, and then the writes of a pass are those of the visited nodes.
-/

namespace FlowGraph

open Eval

namespace Graph

variable {g g' : Graph} {k : NodeId}

/-! ## Setters -/

/-- The binding of a node that stores its input in a property. -/
def setter? (g : Graph) (k : NodeId) : Option (Option PropertyId) :=
  match (g.nodes.get? k).bind (·.behavior) with
  | some (.setVariable property) => some property
  | _ => none

/-- No script writes to a property. -/
def ScriptsOnlyRead (g : Graph) : Prop :=
  ∀ k n script, g.nodes.get? k = some n → n.behavior = some (.scripted script) →
    (Behavior.scripted script).stores = false

/-- The node has the pins that its behavior declares and no others, by name, direction and type. -/
def HasExactPins (g : Graph) (k : NodeId) : Prop :=
  ∀ n b, g.nodes.get? k = some n → n.behavior = some b →
    ∀ d f, f ∈ g.forms k d ↔ f ∈ formsOf (b.layout g.propertyValue?) d

theorem setter?_of_frame (hf : g'.frame = g.frame) (k : NodeId) : g'.setter? k = g.setter? k := by
  rw [setter?, setter?, nodes_of_frame hf]

theorem setter?_eq_some {p : Option PropertyId} :
    g.setter? k = some p ↔
      ∃ n, g.nodes.get? k = some n ∧ n.behavior = some (.setVariable p) := by
  unfold setter?
  cases hn : g.nodes.get? k with
  | none => simp
  | some n =>
    simp only [Option.bind_some, Option.some.injEq, exists_eq_left']
    split
    · next hb => simp [hb]
    · next hno => exact ⟨nofun, fun hb => absurd hb (hno p)⟩

/-- Where scripts only read, setters are the only nodes that store. -/
theorem ScriptsOnlyRead.stores (h : g.ScriptsOnlyRead) (hk : g.setter? k = none) {n : Node}
    {b : Behavior} (hn : g.nodes.get? k = some n) (hb : n.behavior = some b) :
    b.stores = false := by
  cases b with
  | setVariable p =>
    rw [setter?_eq_some.mpr ⟨n, hn, hb⟩] at hk
    cases hk
  | scripted script => exact h k n script hn hb
  | _ => rfl

theorem scriptsOnlyRead_of_allBuiltin (h : g.allBuiltin = true) : g.ScriptsOnlyRead := by
  intro k n script hn hb
  cases isBuiltin_of_allBuiltin h hn hb

/-- A setter runs by flow, so it is never pulled. -/
theorem Staffed.pureReads (h : g.Staffed) (hscripts : g.ScriptsOnlyRead) : g.PureReads := by
  intro k n b hn hpure hb
  obtain ⟨b', hb', -, hflow⟩ := h.staff hn
  obtain rfl : b' = b := Option.some.inj (hb'.symm.trans hb)
  cases b' with
  | setVariable p => exact absurd (hpure.symm.trans hflow) Bool.false_ne_true
  | scripted script => exact hscripts k n script hn hb
  | _ => rfl

/-! ## The pins of a setter -/

/-- A value pin of a node is among its forms. -/
theorem form_of_valuePin? {d : Direction} {i : Nat} {p : PinId} (hp : g.valuePin? k d i = some p) :
    ∃ pin, g.pins.get? p = some pin ∧ pin.isFlow = false ∧ pin.form ∈ g.forms k d := by
  obtain ⟨ids, hids, hp⟩ := Option.bind_eq_some_iff.mp hp
  obtain ⟨n, hn, rfl⟩ := Option.map_eq_some_iff.mp hids
  obtain ⟨hmem, hvalue⟩ := List.mem_filter.mp (List.mem_of_getElem? hp)
  cases hpin : g.pins.get? p with
  | none => simp [hpin] at hvalue
  | some pin =>
    refine ⟨pin, rfl, by simpa [hpin] using hvalue, ?_⟩
    rw [forms_eq hn]
    exact List.mem_filterMap.mpr ⟨p, hmem, by rw [hpin]; rfl⟩

/-- A node with a form that is no flow has a first value pin. -/
theorem valuePin?_of_form {d : Direction} {f : String × ValueType} (hf : f ∈ g.forms k d)
    (hflow : f.2.isFlow = false) : ∃ p, g.valuePin? k d 0 = some p := by
  cases hn : g.nodes.get? k with
  | none =>
    rw [forms_of_none hn] at hf
    exact absurd hf List.not_mem_nil
  | some n =>
    rw [forms_eq hn] at hf
    obtain ⟨p, hp, hform⟩ := List.mem_filterMap.mp hf
    obtain ⟨pin, hpin, rfl⟩ := Option.map_eq_some_iff.mp hform
    have hvalue : p ∈ (n.pinsOf d).filter fun p => (g.pins.get? p).any (!·.isFlow) := by
      refine List.mem_filter.mpr ⟨hp, ?_⟩
      rw [hpin]
      exact congrArg not hflow
    simp only [valuePin?, hn, Option.map_some, Option.bind_some]
    exact ⟨_, List.getElem?_eq_getElem (List.length_pos_of_mem hvalue)⟩

/-- The value pins of a setter with the pins it declares are of the type of its property. -/
theorem HasExactPins.setter (h : g.HasExactPins k) {n : Node} {q : PropertyId} {type : ValueType}
    (hn : g.nodes.get? k = some n) (hb : n.behavior = some (.setVariable (some q)))
    (hq : g.typeOf? q = some type) (d : Direction) :
    (∀ i p, g.valuePin? k d i = some p →
      ∃ pin, g.pins.get? p = some pin ∧ pin.type = type ∧ type.isFlow = false) ∧
    (type.isFlow = false → ∃ p, g.valuePin? k d 0 = some p) := by
  obtain ⟨v, hv, rfl⟩ := Option.map_eq_some_iff.mp hq
  have hforms : ∀ f, f ∈ g.forms k d ↔ f = ("Exec", .flow) ∨ f = ("Value", v.type) := by
    intro f
    rw [h n _ hn hb d f]
    simp only [Behavior.layout, Option.bind_some, hv]
    cases d <;> simp [formsOf, PinSpec.flow, PinSpec.input, PinSpec.output, Value.type]
  constructor
  · intro i p hp
    obtain ⟨pin, hpin, hflow, hform⟩ := form_of_valuePin? hp
    have hflow : pin.form.2.isFlow = false := hflow
    have htype : pin.form = ("Value", v.type) := by
      refine ((hforms _).mp hform).resolve_left fun heq => ?_
      rw [heq] at hflow
      exact absurd hflow (by decide)
    rw [htype] at hflow
    exact ⟨pin, hpin, congrArg Prod.snd htype, hflow⟩
  · intro hflow
    exact valuePin?_of_form ((hforms _).mpr (.inr rfl)) hflow

end Graph

/-! ## The body of a setter -/

section Body

variable {s : Session} {k : NodeId}

/-- An output that fits can be written. -/
theorem writeOutput_fits {i : Nat} {v : Value} {p : PinId} {pin : Pin}
    (hp : s.graph.valuePin? k .output i = some p) (hpin : s.graph.pins.get? p = some pin)
    (htype : pin.type = v.type) : (writeOutput k i v s).answer = .ok () := by
  rcases Graph.setPin_cases p v s.graph with ⟨cause, -, hno⟩ | ⟨_, -, -, hset⟩
  · exact absurd htype.symm (hno pin hpin)
  · simp [writeOutput, bind_apply, Eval.graph, hp, attempt, edit, hset]

/-- A setter fails and has written nothing, or it writes its first value input to its property.
    Then only the lack of an output can stop it. -/
theorem setVariable_wrote (s : Session) (k : NodeId) (property : Option PropertyId) :
    ((∃ stop, ((Behavior.setVariable property).body k s).answer = .error stop) ∧
      ((Behavior.setVariable property).body k s).Wrote s.graph []) ∨
    ∃ q i pin, property = some q ∧ s.graph.valuePin? k .input 0 = some i ∧
      s.graph.pins.get? i = some pin ∧ s.graph.typeOf? q = some pin.type ∧
      ((Behavior.setVariable property).body k s).Wrote s.graph [(q, pin.value)] ∧
      ∀ o out, s.graph.valuePin? k .output 0 = some o → s.graph.pins.get? o = some out →
        out.type = pin.type → ((Behavior.setVariable property).body k s).answer = .ok () := by
  have hstop : ∀ stop, (Behavior.setVariable property).body k s = ⟨.error stop, s, []⟩ →
      (∃ stop, ((Behavior.setVariable property).body k s).answer = .error stop) ∧
        ((Behavior.setVariable property).body k s).Wrote s.graph [] := by
    intro stop h
    rw [h]
    exact ⟨⟨stop, rfl⟩, .none rfl fun _ => rfl⟩
  cases hfound : property.filter s.graph.properties.contains with
  | none =>
    exact .inl (hstop (.failed (.missingInput k "property"))
      (by simp [Behavior.body, bind_apply, Eval.graph, hfound, Eval.fail]))
  | some q =>
    obtain ⟨rfl, -⟩ := Option.filter_eq_some_iff.mp hfound
    cases hin : (s.graph.valuePin? k .input 0).bind s.graph.pins.get? with
    | none =>
      exact .inl (hstop (.failed (.missingInput k "#0"))
        (by simp [Behavior.body, bind_apply, Eval.graph, hfound, readInput, hin, Eval.fail]; rfl))
    | some pin =>
      obtain ⟨i, hi, hpin⟩ := Option.bind_eq_some_iff.mp hin
      rcases Graph.setProperty_cases q pin.value s.graph with
        ⟨cause, hset, -⟩ | ⟨p, hp, htype, g', hg', hset⟩
      · exact .inl (hstop (.failed (.graph k cause))
          (by simp [Behavior.body, bind_apply, Eval.graph, hfound, readInput, hin, attempt, edit,
            hset, Eval.fail]))
      · have hok : (Graph.setProperty q pin.value s.graph).answer = .ok () := by rw [hset]
        have hstored : attempt k (Graph.setProperty q pin.value) s =
            ⟨.ok (), ⟨s.evaluator, g'⟩, [.announced (.propertyModified q) g']⟩ := by
          simp [attempt, bind_apply, edit, hset]
        have hbody : (Behavior.setVariable (some q)).body k s =
            (attempt k (Graph.setProperty q pin.value) >>= fun _ =>
              propertyOf k (some q) >>= writeOutput k 0) s := by
          simp [Behavior.body, bind_apply, Eval.graph, hfound, readInput, hin]
        refine .inr ⟨q, i, pin, rfl, hi, hpin, ?_, ?_, fun o out ho hout hfits => ?_⟩
        · rw [Graph.typeOf?, Graph.propertyValue?, hp]
          exact congrArg some htype.symm
        · have hparts := bodyParts_silent k
          have hrest := hparts.bind (hparts.propertyOf (some q)) (hparts.writeOutput 0)
          rw [hbody]
          refine (setProperty_wrote hok k).bind_ok (a := ()) ?_ (hrest _ True.intro)
          rw [hstored]
        · have hnow : g'.propertyValue? q = some pin.value := by
            simp [hg', Graph.propertyValue?, hp]
          have hfinal : (writeOutput k 0 pin.value ⟨s.evaluator, g'⟩).answer = .ok () := by
            subst hg'
            exact writeOutput_fits ho hout hfits
          rw [hbody]
          simp [bind_apply, hstored, propertyOf, Eval.graph, hnow, hfinal]

end Body

/-! ## Evaluations -/

/-- What a setter stores when it is evaluated: its property, and what its first value input holds
    once its inputs are refreshed. -/
def Session.offer? (s : Session) (k : NodeId) : Option (PropertyId × Value) := do
  let property ← (← s.graph.setter? k)
  let refreshed := (refreshInputs k s).session.graph
  let input ← refreshed.valuePin? k .input 0
  let pin ← refreshed.pins.get? input
  return (property, pin.value)

/-- What the setters among the nodes store when these are visited one after the other. -/
def Session.offers : List NodeId → Session → List (PropertyId × Value)
  | [], _ => []
  | k :: nodes, s => (s.offer? k).toList ++ offers nodes (visitNode k s).session

section Evaluations

variable {g : Graph} {s : Session}

theorem Session.offer?_of_none {k : NodeId} (h : s.graph.setter? k = none) : s.offer? k = none := by
  simp [offer?, h]

/-- With the pins it declares, a setter that has stored can pass the value on. -/
theorem Graph.HasExactPins.fits {k : NodeId} (h : g.HasExactPins k) {q : PropertyId}
    (hk : g.setter? k = some (some q)) (hs : s.Framed g) {i : PinId} {type : ValueType}
    (hi : s.graph.valuePin? k .input 0 = some i) (hq : s.graph.typeOf? q = some type) :
    ∃ o out, s.graph.valuePin? k .output 0 = some o ∧ s.graph.pins.get? o = some out ∧
      out.type = type := by
  obtain ⟨n, hn, hb⟩ := Graph.setter?_eq_some.mp hk
  rw [Graph.typeOf?_of_frame hs] at hq
  rw [Graph.valuePin?_of_frame hs] at hi
  obtain ⟨-, -, -, hflow⟩ := (h.setter hn hb hq .input).1 0 i hi
  obtain ⟨hpins, hfirst⟩ := h.setter hn hb hq .output
  obtain ⟨o, ho⟩ := hfirst hflow
  obtain ⟨out, hout, htype, -⟩ := hpins 0 o ho
  exact Graph.typed_pin hs ⟨o, out, ho, hout, htype⟩

/-- An evaluation writes nothing, or the node is a setter and makes its one store. -/
theorem evaluateNode_wrote (hg : g.Indexed) (hreads : g.PureReads) (hscripts : g.ScriptsOnlyRead)
    (hs : s.Framed g) (k : NodeId) :
    ((evaluateNode k s).Wrote s.graph [] ∧
      ((evaluateNode k s).answer = .ok () → g.setter? k = none)) ∨
    ∃ w, g.setter? k = some (some w.1) ∧ s.offer? k = some w ∧
      (evaluateNode k s).Wrote s.graph [w] ∧
      (g.HasExactPins k → (evaluateNode k s).answer = .ok ()) := by
  have heval : evaluateNode k s = (refreshInputs k >>= fun _ => runNode k) s := rfl
  have hsilent := refreshInputs_silent hg hreads k s hs
  have hframed : (refreshInputs k s).session.Framed g := (keptByParts_framed hg).refreshInputs k s hs
  rw [heval]
  cases ha : (refreshInputs k s).answer with
  | error stop =>
    refine .inl ⟨hsilent.bind_error ha, fun hok => ?_⟩
    rw [bind_apply, ha] at hok
    cases hok
  | ok _ =>
    have hanswer : ((refreshInputs k >>= fun _ => runNode k) s).answer =
        (runNode k (refreshInputs k s).session).answer := by rw [bind_apply, ha]
    rw [hanswer]
    have hnodes := Graph.nodes_of_frame hframed
    cases hk : g.setter? k with
    | none =>
      refine .inl ⟨hsilent.bind_ok ha (runNode_silent fun n b hn hb => ?_), fun _ => rfl⟩
      rw [hnodes] at hn
      exact hscripts.stores hk hn hb
    | some property =>
      obtain ⟨n, hn, hb⟩ := Graph.setter?_eq_some.mp hk
      have hn : (refreshInputs k s).session.graph.nodes.get? k = some n := by rw [hnodes, hn]
      rw [runNode_eq hn hb]
      rcases setVariable_wrote ((refreshInputs k s).session.running k) k property with
        ⟨⟨stop, herror⟩, hwrote⟩ | ⟨q, i, pin, rfl, hi, hpin, htype, hwrote, hfits⟩
      · refine .inl ⟨hsilent.bind_ok ha (runNode_wrote hn hb hwrote), fun hok => ?_⟩
        rw [herror] at hok
        cases hok
      · have hi : (refreshInputs k s).session.graph.valuePin? k .input 0 = some i :=
          (valuePin?_setBehavior k none _ k .input 0).symm.trans hi
        have hpin : (refreshInputs k s).session.graph.pins.get? i = some pin := hpin
        refine .inr ⟨(q, pin.value), rfl, ?_, hsilent.bind_ok ha (runNode_wrote hn hb hwrote),
          fun hexact => ?_⟩
        · rw [← Graph.setter?_of_frame hs] at hk
          simp [Session.offer?, hk, hi, hpin]
        · obtain ⟨o, out, ho, hout, hsame⟩ := hexact.fits hk hframed hi htype
          rw [← valuePin?_setBehavior k none] at ho
          exact hfits o out ho hout hsame

/-- Visits write what the setters among the nodes offer, one after the other. -/
theorem visitAll_wrote (hg : g.Indexed) (hreads : g.PureReads) (hscripts : g.ScriptsOnlyRead)
    (nodes : List NodeId) : ∀ {s : Session}, s.Framed g → (visitAll nodes s).answer = .ok () →
      (visitAll nodes s).Wrote s.graph (s.offers nodes) ∧
      nodes.filterMap g.setter? = (s.offers nodes).map fun w => some w.1 := by
  induction nodes with
  | nil => exact fun _ _ => ⟨.none rfl fun _ => rfl, rfl⟩
  | cons k nodes ih =>
    intro s hs hok
    obtain ⟨hvisit, hrest⟩ := ok_of_bind_ok hok
    obtain ⟨heval, -⟩ := ok_of_bind_ok hvisit
    obtain ⟨hwrote, hsetters⟩ := ih (visitNode_keeps (keptByParts_framed hg) k s hs) hrest
    have hfirst : (visitNode k s).Wrote s.graph (s.offer? k).toList ∧
        (g.setter? k).toList = (s.offer? k).toList.map fun w => some w.1 := by
      rw [visitNode_of_ok heval]
      rcases evaluateNode_wrote hg hreads hscripts hs k with
        ⟨hnothing, hnone⟩ | ⟨w, hk, hoffer, hone, -⟩
      · have hk := hnone heval
        rw [hk, Session.offer?_of_none (Graph.setter?_of_frame hs k ▸ hk)]
        exact ⟨hnothing.of_same _ _, rfl⟩
      · rw [hk, hoffer]
        exact ⟨hone.of_same _ _, rfl⟩
    refine ⟨hfirst.1.bind_ok hvisit hwrote, ?_⟩
    rw [Session.offers, List.map_append, ← hfirst.2, ← hsetters]
    cases hk : g.setter? k with
    | none => rw [List.filterMap_cons_none hk]; rfl
    | some p => rw [List.filterMap_cons_some hk]; rfl

/-- The log of a failure is no write. -/
theorem passOf_wrote {walked : Ran Unit} {writes : List (PropertyId × Value)}
    (h : walked.Wrote g writes) (entry : NodeId) : (passOf entry walked).Wrote g writes := by
  refine ⟨?_, h.held⟩
  rw [passOf, heard_append, heardStores_append, h.told]
  cases walked.session.evaluator.lastError <;> simp [heard, Report.heard?, heardStores]

end Evaluations

/-- A pass changes properties through the setters it evaluates and through nothing else.  Each setter
    it visited has stored what it read, in turn.  There may be one more store: the node at which the
    pass failed is a setter and stored before it failed, which a setter with the pins it declares
    does not do.  Observers were told of these stores and of no other, and each property holds what
    was stored in it last.  Pulled nodes write nothing. -/
theorem pass_stores_what_setters_read {g : Graph} (hg : g.Reachable) (hscripts : g.ScriptsOnlyRead)
    (e : Evaluator) (entry : NodeId) :
    let ran := runPass entry ⟨e, g⟩
    let visited := ran.session.evaluator.visited
    let reached := visitAll visited ⟨e.cleared, g⟩
    let stores := Session.offers visited ⟨e.cleared, g⟩
    reached.answer = .ok () ∧
    visited.filterMap g.setter? = stores.map (fun w => some w.1) ∧
    (∃ extra : Option (PropertyId × Value), ran.Wrote g (stores ++ extra.toList) ∧
      (∀ w, extra = some w → ∃ k error, g.flowNode? entry visited.length = some k ∧
        (evaluateNode k reached.session).answer = .error (.failed error) ∧
        ran.answer = .ok false ∧ ran.session.evaluator.lastError = some error ∧
        g.setter? k = some (some w.1) ∧ reached.session.offer? k = some w) ∧
      ((∀ k q, g.setter? k = some (some q) → g.HasExactPins k) → extra = none)) ∧
    ∀ depth m, g.isPure m = true → Silent (Session.Framed g) (pull depth m) := by
  intro ran visited reached stores
  have hindexed := hg.indexed
  have hreads := hg.staffed.pureReads hscripts
  obtain ⟨nodes, walked, hrounds, -, hpass⟩ := runPass_rounds g e entry
  obtain ⟨visits, hok, hend⟩ := hrounds.course
  have hvisited : visited = visits := by
    show (runPass entry ⟨e, g⟩).session.evaluator.visited = visits
    rw [hpass]
    exact hend.visited_eq.trans (visited_visitAll hok)
  have hran : ran = passOf entry walked := hpass
  clear_value visited ran
  subst hvisited hran
  have hstart : Session.Framed g ⟨e.cleared, g⟩ := rfl
  obtain ⟨hwrote, hsetters⟩ := visitAll_wrote hindexed hreads hscripts visited hstart hok
  refine ⟨hok, hsetters, ?_, pull_silent hindexed hreads⟩
  cases hend with
  | through he =>
    refine ⟨none, ?_, nofun, fun _ => rfl⟩
    rw [Option.toList_none, List.append_nil]
    exact passOf_wrote (hwrote.of_same _ _) entry
  | @broken m error hnode herror =>
    have hreached : reached.session.Framed g :=
      visitAll_keeps (keptByParts_framed hindexed) visited _ hstart
    rcases evaluateNode_wrote hindexed hreads hscripts hreached m with
      ⟨hnothing, -⟩ | ⟨w, hk, hoffer, hone, hexact⟩
    · exact ⟨none, passOf_wrote (hwrote.append hnothing _ _) entry, nofun, fun _ => rfl⟩
    · refine ⟨some w, passOf_wrote (hwrote.append hone _ _) entry, ?_, fun hall => ?_⟩
      · intro w' hw'
        cases hw'
        exact ⟨m, error, hnode g hindexed hstart, herror, rfl, rfl, hk, hoffer⟩
      · have hok := hexact (hall m w.1 hk)
        rw [herror] at hok
        cases hok

/-- A setter of property 2 that is fed from property 1 and has lost its output. -/
def Graph.cutOff : Graph :=
  (Command.performAll
    [.createProperty "from" (.int 7) none, .createProperty "to" (.int 0) none,
      .addNode (.getVariable none), .bindNode ⟨3⟩ ⟨1⟩, .addNode (.setVariable none),
      .bindNode ⟨5⟩ ⟨2⟩, .createLink ⟨4⟩ ⟨10⟩, .deletePin ⟨11⟩]
    (Graph.new "cut off" .builtin)).graph

theorem cutOff_reachable : Graph.cutOff.Reachable := ⟨_, _, .new "cut off" .builtin, rfl⟩

theorem cutOff_stores_before_failing :
    (runPass ⟨5⟩ ⟨{}, .cutOff⟩).session.evaluator.visited = [] ∧
    (runPass ⟨5⟩ ⟨{}, .cutOff⟩).Wrote .cutOff [(⟨2⟩, .int 7)] ∧
    ∃ error, (runPass ⟨5⟩ ⟨{}, .cutOff⟩).session.evaluator.lastError = some error := by
  obtain ⟨-, -, ⟨extra, hwrote, hextra, -⟩, -⟩ := pass_stores_what_setters_read cutOff_reachable
    (Graph.scriptsOnlyRead_of_allBuiltin (by decide +kernel)) {} ⟨5⟩
  have hvisited : (runPass ⟨5⟩ ⟨{}, .cutOff⟩).session.evaluator.visited = [] := by decide +kernel
  have hheard : heardStores (heard (runPass ⟨5⟩ ⟨{}, .cutOff⟩).reports) =
      [(⟨2⟩, some (.int 7))] := rfl
  rw [hvisited] at hwrote
  have htold := hwrote.told
  rw [hheard] at htold
  cases extra with
  | none => cases htold
  | some w =>
    obtain ⟨p, v⟩ := w
    obtain ⟨rfl, rfl⟩ : ⟨2⟩ = p ∧ .int 7 = v := by simpa [Session.offers] using htold
    obtain ⟨k, error, -, -, -, herror, -⟩ := hextra _ rfl
    exact ⟨hvisited, hwrote, error, herror⟩

end FlowGraph
