import FlowGraph.Proofs.Refusals
import FlowGraph.Proofs.Twins.Turned

/-!
# Edits of graphs whose links are noted the other way round

Every operation answers the same on two graphs of which one has links of the other with their ends
exchanged, and leaves them so (`ask_alike`); and it makes no difference in which order the two
pins of a new link are given (`createLink_mirrors_flipped`).  The two ends of a link are let go one
after the other, so scripted nodes may hear of a lost link in another order; nothing else that is
reported changes its place.
-/

namespace FlowGraph

namespace Graph

open Edit

variable {g g' : Graph}

/-! ## Deletions -/

theorem mirrored_changeNode (k : NodeId) (f : Node → Node) :
    Mirrored (update fun g => { g with nodes := g.nodes.modify k f }) :=
  mirrored_update (fun _ _ => rfl) fun _ => rfl

theorem mirrored_tellDisconnected (owner : NodeId) (pin : PinId) :
    Mirrored (tellDisconnected owner pin) := by
  refine mirrors_read (fun _ _ => rfl) fun g => ?_
  split
  · exact mirrored_disconnected _ _
  · exact mirrors_pure rfl

theorem mirrored_releaseEnd (l : LinkId) (p : PinId) : Mirrored (releaseEnd l p) := by
  refine mirrors_read (fun _ _ => rfl) fun g => ?_
  split
  · exact mirrors_pure rfl
  · refine mirrors_then ?_ (mirrored_tellDisconnected _ _)
    exact mirrored_update (fun _ _ => rfl) fun _ => rfl

theorem tellDisconnected_reports (hnodes : g'.nodes = g.nodes) (owner : NodeId) (p : PinId) :
    (tellDisconnected owner p g').reports = (tellDisconnected owner p g).reports := by
  simp only [tellDisconnected, current_bind, hnodes]
  generalize ((g.nodes.get? owner).bind fun n => n.behavior) = b
  cases b with
  | none => rfl
  | some b => cases b <;> rfl

/-- Nobody hears that a pin loses a link but the owner of the pin. -/
theorem releaseEnd_reports (l : LinkId) (p : PinId) (g : Graph) : (releaseEnd l p g).reports =
    ((g.pins.get? p).map Pin.node).elim [] fun owner => (tellDisconnected owner p g).reports := by
  cases hp : g.pins.get? p with
  | none => simp [releaseEnd, hp]
  | some pin =>
    simp only [releaseEnd, current_bind, hp, update_bind, Option.map_some, Option.elim_some]
    exact tellDisconnected_reports (by rfl) _ _

theorem releaseEnd_reports_congr (l : LinkId) {p : PinId} (hnodes : g'.nodes = g.nodes)
    (howner : (g'.pins.get? p).map Pin.node = (g.pins.get? p).map Pin.node) :
    (releaseEnd l p g').reports = (releaseEnd l p g).reports := by
  rw [releaseEnd_reports, releaseEnd_reports, howner]
  cases (g.pins.get? p).map Pin.node with
  | none => rfl
  | some owner => exact tellDisconnected_reports hnodes owner p

theorem releaseEnd_isHook (l : LinkId) (p : PinId) (g : Graph) :
    ∀ r ∈ (releaseEnd l p g).reports, r.isHook = true := by
  rw [releaseEnd_reports]
  cases (g.pins.get? p).map Pin.node with
  | none => exact fun r hr => absurd hr List.not_mem_nil
  | some owner =>
    simp only [Option.elim_some, tellDisconnected, current_bind]
    generalize ((g.nodes.get? owner).bind fun n => n.behavior) = b
    cases b with
    | none => simp
    | some b => cases b <;> simp [Report.isHook]

/-- The two ends of a link may be let go in either order. -/
theorem releaseEnds_mirrors_flipped (l : LinkId) (a b : PinId) :
    Mirrors Eq ([a, b].forM (releaseEnd l)) ([b, a].forM (releaseEnd l)) := by
  have hgraph : ∀ (p q : PinId) (g : Graph), ([p, q].forM (releaseEnd l) g).graph =
      { g with pins := (g.pins.modify p (·.disconnect l)).modify q (·.disconnect l) } := by
    intro p q g
    rw [forM_graph]
    simp
  have hreports : ∀ (p q : PinId) (g : Graph), ([p, q].forM (releaseEnd l) g).reports =
      (releaseEnd l p g).reports ++ (releaseEnd l q g).reports := by
    intro p q g
    -- The owner of the second end is the same after the first end was let go.
    have hsecond : (releaseEnd l q (releaseEnd l p g).graph).reports =
        (releaseEnd l q g).reports := by
      rw [releaseEnd_graph]
      refine releaseEnd_reports_congr l (by rfl) ?_
      rw [Table.get?_modify, Option.map_map]
      refine congrArg (Option.map · _) (funext fun pin => ?_)
      simp only [Function.comp_apply]
      split <;> rfl
    show (releaseEnd l p g).reports ++
      ((releaseEnd l q (releaseEnd l p g).graph).reports ++ []) = _
    rw [List.append_nil, hsecond]
  intro g g' ht
  cases ht with
  | @intro links hlinks =>
    have hsame : ∀ p, (releaseEnd l p { g with links := links }).reports =
        (releaseEnd l p g).reports := fun p => releaseEnd_reports_congr l (by rfl) (by rfl)
    refine ⟨rfl, ?_, ?_⟩
    · rw [hgraph, hgraph, Table.modify_comm]
      exact .intro hlinks
    · rw [hreports, hreports, hsame, hsame]
      refine .of_perm List.perm_append_comm fun r hr => ?_
      rcases List.mem_append.mp hr with hr | hr <;> exact releaseEnd_isHook l _ g r hr

theorem mirrored_deleteLink (id : LinkId) : Mirrored (deleteLink id) := by
  refine mirrors_current fun g g' ht => ?_
  cases ht with
  | intro hlinks =>
    have hrel := hlinks.get? id
    dsimp only
    revert hrel
    generalize g.links.get? id = found
    generalize Table.get? _ id = found'
    intro hrel
    cases hrel with
    | none => exact mirrors_pure rfl
    | @some link link' hsame =>
      have hends :
          Mirrors Eq (link.ends.forM (releaseEnd id)) (link'.ends.forM (releaseEnd id)) := by
        rcases hsame with rfl | rfl
        · exact mirrored_forM (mirrored_releaseEnd id) _
        · exact releaseEnds_mirrors_flipped id _ _
      refine mirrors_then (mirrored_announce _) (mirrors_then hends (mirrors_then ?_
        (mirrors_pure rfl)))
      refine mirrors_update fun g g' ht => ?_
      cases ht with
      | intro hlinks => exact .intro (g := { g with links := g.links.erase id }) (hlinks.erase id)

theorem mirrored_deleteLinks (ids : List LinkId) : Mirrored (deleteLinks ids) :=
  mirrored_forM (fun id => (mirrored_deleteLink id).discard) ids

theorem mirrored_deletePin (id : PinId) : Mirrored (deletePin id) := by
  refine mirrors_read (fun _ _ => rfl) fun g => ?_
  split
  · exact mirrors_pure rfl
  · refine mirrors_then (mirrored_deleteLinks _) (mirrors_then (mirrored_announce _)
      (mirrors_then ?_ (mirrors_pure rfl)))
    exact mirrored_update (fun _ _ => rfl) fun _ => rfl

theorem mirrored_deletePins (ids : List PinId) : Mirrored (deletePins ids) :=
  mirrored_forM (fun id => (mirrored_deletePin id).discard) ids

theorem mirrored_deleteNode (id : NodeId) : Mirrored (deleteNode id) := by
  refine mirrors_read (fun _ _ => rfl) fun g => ?_
  split
  · exact mirrors_pure rfl
  · refine mirrors_then (mirrored_deletePins _) (mirrors_then (mirrored_announce _)
      (mirrors_then ?_ (mirrors_pure rfl)))
    exact mirrored_update (fun _ _ => rfl) fun _ => rfl

theorem mirrored_unbindNode (p : PropertyId) (k : NodeId) : Mirrored (unbindNode p k) := by
  refine mirrors_read (fun _ _ => rfl) fun g => ?_
  split
  · split
    · dsimp only
      split
      · exact mirrors_then (mirrored_unbound _ _) (mirrored_changeNode k _)
      · exact mirrored_changeNode k _
    · exact mirrors_pure rfl
  · exact mirrors_pure rfl

theorem mirrored_dropProperty (p : PropertyId) : Mirrored (dropProperty p) := by
  refine mirrors_then (mirrored_announce _) (mirrors_read (fun _ _ => rfl) fun g => ?_)
  refine mirrors_then (mirrored_forM (mirrored_unbindNode p) _) ?_
  exact mirrored_update (fun _ _ => rfl) fun _ => rfl

theorem subtree_turned (root : PropertyId) (links : Table LinkId Link) :
    ({ g with links := links } : Graph).subtree root = g.subtree root := by
  have hdescend : ∀ steps queue found,
      ({ g with links := links } : Graph).descend steps queue found =
        g.descend steps queue found := by
    intro steps
    induction steps with
    | zero => exact fun _ _ => rfl
    | succ steps ih =>
      intro queue found
      cases queue with
      | nil => rfl
      | cons parent queue => exact ih _ _
  exact hdescend _ _ _

theorem mirrored_deleteProperty (p : PropertyId) : Mirrored (deleteProperty p) := by
  refine mirrors_read (fun g links => ?_) fun g => ?_
  · rw [subtree_turned]
  · split
    · exact mirrors_then (mirrored_forM mirrored_dropProperty _) (mirrors_pure rfl)
    · exact mirrors_pure rfl

/-! ## Nodes, pins and links -/

theorem mirrored_addPin (node : NodeId) (spec : PinSpec) : Mirrored (addPin node spec) := by
  refine mirrors_bind mirrored_allocate ?_
  rintro i _ rfl
  exact mirrored_update (fun _ _ => rfl) fun _ => rfl

theorem mirrored_addPins (node : NodeId) (specs : List PinSpec) : Mirrored (addPins node specs) :=
  mirrored_forM (mirrored_addPin node) specs

theorem mirrored_addNode (b : Behavior) : Mirrored (addNode b) := by
  refine mirrors_bind mirrored_allocate ?_
  rintro i _ rfl
  refine mirrors_read (fun _ _ => rfl) fun g => ?_
  have hadd := mirrored_addPins ⟨i⟩ (b.layout g.propertyValue?)
  refine mirrors_then ?_ (mirrors_then hadd (mirrors_pure rfl))
  exact mirrored_update (fun _ _ => rfl) fun _ => rfl

theorem mirrored_createNode (type : String) : Mirrored (createNode type) := by
  refine mirrors_read (fun _ _ => rfl) fun g => ?_
  split
  · exact mirrors_pure rfl
  · refine mirrors_bind (mirrored_addNode _) ?_
    rintro id _ rfl
    exact mirrors_then (mirrored_changeNode id _) (mirrors_pure rfl)

/-- Linking two pins that fit, after the input has given up what fed it. -/
theorem mirrors_link (old : List LinkId) (link link' : Nat → Link)
    (hsame : ∀ i, (link i).Same (link' i)) :
    Mirrors Eq
      (do
        deleteLinks old
        let i ← allocate
        update (addLink (link i))
        return (.ok ⟨i⟩ : Except GraphError LinkId))
      (do
        deleteLinks old
        let i ← allocate
        update (addLink (link' i))
        return .ok ⟨i⟩) := by
  refine mirrors_then (mirrored_deleteLinks old) (mirrors_bind mirrored_allocate ?_)
  rintro i _ rfl
  exact mirrors_then (mirrors_update fun g g' ht => ht.addLink (hsame i)) (mirrors_pure rfl)

theorem mirrored_createLink (a b : PinId) : Mirrored (createLink a b) := by
  refine mirrors_read (fun _ _ => rfl) fun g => ?_
  split
  · exact mirrors_pure rfl
  · exact mirrors_pure rfl
  · split
    · exact mirrors_link _ _ _ fun _ => .refl _
    · exact mirrors_pure rfl

/-- The same was made, or both were refused. -/
def SameOrRefused {α : Type} (r r' : Except GraphError α) : Prop :=
  r = r' ∨ r.isOk = false ∧ r'.isOk = false

/-- Two pins are linked in the same way in whichever order they are given. -/
theorem createLink_mirrors_flipped (a b : PinId) :
    Mirrors SameOrRefused (createLink a b) (createLink b a) := by
  refine mirrors_read (fun _ _ => rfl) fun g => ?_
  cases ha : g.pins.get? a with
  | none => cases hb : g.pins.get? b <;> exact mirrors_pure (.inr ⟨rfl, rfl⟩)
  | some p =>
    cases hb : g.pins.get? b with
    | none => exact mirrors_pure (.inr ⟨rfl, rfl⟩)
    | some q =>
      dsimp only
      rw [q.canConnect_comm p]
      by_cases hpq : p.canConnect q = true
      · rw [if_pos hpq, if_pos hpq]
        have hinput : (if p.direction = .input then p else q) =
            if q.direction = .input then q else p := by
          have hd : q.direction ≠ p.direction := (Pin.canConnect_iff.mp hpq).2.2
          cases hp : p.direction <;> cases hq : q.direction <;> simp_all
        rw [hinput]
        intro t t' ht
        have hlink := mirrors_link (if q.direction = .input then q else p).links
          (fun i => ⟨⟨i⟩, a, b⟩) (fun i => ⟨⟨i⟩, b, a⟩) (fun _ => .inr rfl) t t' ht
        exact ⟨.inl hlink.answer, hlink.graph, hlink.reports⟩
      · rw [if_neg hpq, if_neg hpq]
        exact mirrors_pure (.inr ⟨rfl, rfl⟩)

/-! ## Laying pins out anew -/

theorem cutLinks_turned {links : Table LinkId Link} (h : g.links.Pairs Link.Same links)
    (node : Node) : ({ g with links := links } : Graph).cutLinks node = g.cutLinks node := by
  unfold cutLinks
  refine congrArg (List.flatMap · _) (funext fun pin => ?_)
  rw [List.filterMap_filterMap, List.filterMap_filterMap]
  refine List.filterMap_congr fun l _ => bind_link h l fun link link' hsame => ?_
  unfold cutLink?
  rw [hsame.otherEnd?]

theorem mirrored_redraw (node : NodeId) (cut : CutLink) : Mirrored (redraw node cut) := by
  refine mirrors_read (fun _ _ => rfl) fun g => ?_
  split
  · exact (mirrored_createLink _ _).discard
  · exact mirrors_pure rfl

theorem mirrored_relayout (id : NodeId) : Mirrored (relayout id) := by
  refine mirrors_current fun g g' ht => ?_
  cases ht with
  | intro hlinks =>
    dsimp only
    split
    · exact mirrors_pure rfl
    · split
      · exact mirrors_pure rfl
      · rw [cutLinks_turned hlinks]
        refine mirrors_then (mirrored_deletePins _) (mirrors_then (mirrored_changeNode id _) ?_)
        refine mirrors_then (mirrored_addPins _ _) (mirrors_then ?_ (mirrors_pure rfl))
        exact mirrored_forM (mirrored_redraw id) _

/-! ## Properties and contents -/

theorem mirrored_setPin (id : PinId) (v : Value) : Mirrored (setPin id v) := by
  refine mirrors_read (fun _ _ => rfl) fun g => ?_
  split
  · exact mirrors_pure rfl
  · split
    · exact mirrors_pure rfl
    · refine mirrors_then ?_ (mirrors_pure rfl)
      exact mirrored_update (fun _ _ => rfl) fun _ => rfl

theorem mirrored_createProperty (name : String) (v : Value) (parent : Option PropertyId) :
    Mirrored (createProperty name v parent) := by
  refine mirrors_read (fun _ _ => rfl) fun g => ?_
  split
  · exact mirrors_pure rfl
  · refine mirrors_bind mirrored_allocate ?_
    rintro i _ rfl
    refine mirrors_then ?_ (mirrors_pure rfl)
    exact mirrored_update (fun _ _ => rfl) fun _ => rfl

theorem mirrored_setProperty (id : PropertyId) (v : Value) : Mirrored (setProperty id v) := by
  refine mirrors_read (fun _ _ => rfl) fun g => ?_
  split
  · exact mirrors_pure rfl
  · split
    · exact mirrors_pure rfl
    · refine mirrors_then ?_ (mirrors_then (mirrored_announce _) (mirrors_pure rfl))
      exact mirrored_update (fun _ _ => rfl) fun _ => rfl

theorem mirrored_bindNode (node : NodeId) (p : PropertyId) : Mirrored (bindNode node p) := by
  refine mirrors_read (fun _ _ => rfl) fun g => ?_
  split
  · split
    · exact mirrors_pure rfl
    · split
      · exact mirrors_pure rfl
      · split
        · exact mirrors_pure rfl
        · exact mirrors_then (mirrored_changeNode node _) (mirrored_relayout node)
  · exact mirrors_pure rfl

/-! ## Evaluations -/

/-- An evaluation that goes the same way on twins does so on turned graphs. -/
theorem asked_alike {α : Type} {m : Eval α} {e : Evaluator}
    (h : Eval.Paired (fun _ => True) m m ⟨e, g⟩ ⟨e, g'⟩
      (fun a a' t t' => a' = a ∧ t.Twin g (fun _ => True) t')
      fun t t' => t.Twin g (fun _ => True) t') : (m.asked e g).Alike Eq (m.asked e g') := by
  obtain ⟨hanswer, htwin⟩ := h.outcome
  refine ⟨Prod.ext hanswer.symm htwin.evaluator.symm, htwin.graph.turned, ?_⟩
  refine .of_forall₂ (h.1.imp fun r r' hr => ?_)
  cases r <;> cases r' <;> first | exact ⟨hr.1, hr.2.turned⟩ | exact hr

end Graph

/-! ## All operations -/

open Edit FlowGraph.Graph

/-- Whatever is done to a graph, the answer is the same whichever way round its links are noted, and
    so is everything that is left, but for the links that were noted so before. -/
theorem ask_alike {g g' : Graph} (hg : g.Indexed) (ht : g.Turned g') (c : Command) :
    (c.ask g).Alike Eq (c.ask g') := by
  have hmap : ∀ {α : Type} {m : Edit α} {f : α → Answer}, (m g).Alike Eq (m g') →
      ((f <$> m) g).Alike Eq ((f <$> m) g') := fun h => map_alike h fun _ _ heq => congrArg _ heq
  have hask : ∀ {α : Type} {m : Edit α} {f : α → Answer}, Mirrored m →
      ((f <$> m) g).Alike Eq ((f <$> m) g') := fun hm => hmap (hm g g' ht)
  have hall : g.Sourced fun _ => True := fun _ _ _ _ _ _ => .inl trivial
  have hstart : ∀ e : Evaluator, Session.Twin g (fun _ => True) ⟨e, g⟩ ⟨e, g'⟩ :=
    fun _ => ⟨rfl, ht.twin hg, rfl⟩
  cases c with
  | addNode b => exact hask (mirrored_addNode b)
  | createNode type => exact hask (mirrored_createNode type)
  | deleteNode node => exact hask (mirrored_deleteNode node)
  | renameNode node name => exact hask (mirrored_changeNode node _)
  | relayout node => exact hask (mirrored_relayout node)
  | bindNode node p => exact hask (mirrored_bindNode node p)
  | deletePin pin => exact hask (mirrored_deletePin pin)
  | setPin pin v => exact hask (mirrored_setPin pin v)
  | createLink a b => exact hask (mirrored_createLink a b)
  | deleteLink link => exact hask (mirrored_deleteLink link)
  | createProperty name v parent => exact hask (mirrored_createProperty name v parent)
  | setProperty p v => exact hask (mirrored_setProperty p v)
  | deleteProperty p => exact hask (mirrored_deleteProperty p)
  | rename name =>
    exact hask (mirrored_update (u := fun g => { g with name := name }) (fun _ _ => rfl)
      fun _ => rfl)
  | allocate => exact hask mirrored_allocate
  | refreshInputs e node =>
    refine hmap (asked_alike ?_)
    exact (refreshInputs_paired hg hall (hstart e) fun _ => id).mono
      (fun _ _ _ _ h => ⟨rfl, h⟩) fun _ _ h => h
  | evaluateNode e node =>
    refine hmap (asked_alike ?_)
    exact (evaluateNode_paired hg hall (hstart e) fun _ => id).mono
      (fun _ _ _ _ h => ⟨rfl, h⟩) fun _ _ h => h
  | runPass e entry =>
    refine hmap (asked_alike ?_)
    exact runPass_paired hg hall (hstart e) fun _ => id

end FlowGraph
