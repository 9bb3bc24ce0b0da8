import FlowGraph.Proofs.Document.Survival
import FlowGraph.Proofs.Twins.Turned

/-!
# Saving and loading graphs whose links are noted the other way round

What is saved of a turned graph differs in the two ends of some link records only.  A record is read
the other way round just as well, and when the links are restored, whether one is left out is asked
of its two pins without regard to their order.  So what is loaded is turned again, with the same
repairs, and if one document is refused then so is the other (`load_turned`).
-/

namespace FlowGraph

open FlowGraph.Graph

/-! ## Reading link records -/

/-- The record of a link is as good as the record of the link the other way round. -/
theorem Link.Same.read {l l' a : Link} (h : l.Same l') (hr : Link.read l.toDocument = .ok a) :
    ∃ a', Link.read l'.toDocument = .ok a' ∧ a.Same a' := by
  rcases h with rfl | rfl
  · exact ⟨a, hr, .refl a⟩
  · simp only [Link.read, bind_eq_ok, require_eq_ok_iff] at hr
    obtain ⟨i, ⟨_, hi, hid⟩, s, ⟨_, hs, hstart⟩, f, ⟨_, hf, hfinish⟩, ha⟩ := hr
    cases hi
    cases hs
    cases hf
    cases ha
    refine ⟨⟨⟨i⟩, ⟨f⟩, ⟨s⟩⟩, ?_, .inr rfl⟩
    simp only [Link.read, bind_eq_ok, require_eq_ok_iff]
    exact ⟨i, ⟨_, rfl, hid⟩, f, ⟨_, rfl, hfinish⟩, s, ⟨_, rfl, hstart⟩, rfl⟩

theorem reads_turned {ls ls' as : List Link} (h : List.Forall₂ Link.Same ls ls')
    (hr : List.Forall₂ (fun d a => Link.read d = .ok a) (ls.map Link.toDocument) as) :
    ∃ as', List.Forall₂ (fun d a => Link.read d = .ok a) (ls'.map Link.toDocument) as' ∧
      List.Forall₂ Link.Same as as' := by
  induction h generalizing as with
  | nil =>
    cases hr
    exact ⟨[], .nil, .nil⟩
  | cons hsame _ ih =>
    cases hr with
    | cons ha hrest =>
      obtain ⟨a', ha', hsame'⟩ := hsame.read ha
      obtain ⟨as', has', hall⟩ := ih hrest
      exact ⟨a' :: as', .cons ha' has', .cons hsame' hall⟩

theorem numbers_turned {ls ls' : List Link} (h : List.Forall₂ Link.Same ls ls') :
    ls'.map (·.id.number) = ls.map (·.id.number) := by
  induction h with
  | nil => rfl
  | cons hsame _ ih => rw [List.map_cons, List.map_cons, hsame.id, ih]

/-- What is read of a turned graph differs in the order of the ends of links only. -/
theorem readAll_turned {g g' : Graph} (h : g.Turned g') {registry : Registry} {r : Records}
    (hr : g.toDocument.readAll registry = .ok r) :
    ∃ links, List.Forall₂ Link.Same r.links links ∧
      g'.toDocument.readAll registry = .ok { r with links := links } := by
  obtain ⟨hproperties, hnodes, hpins, hlinks, htakes, hids⟩ := readAll_eq_ok.mp hr
  cases h with
  | intro hpairs =>
    obtain ⟨links, hread, hsame⟩ := reads_turned hpairs.values hlinks
    have hall : Records.allIds { r with links := links } = r.allIds := by
      rw [Records.allIds, Records.allIds, numbers_turned hsame]
    refine ⟨links, hsame, readAll_eq_ok.mpr ⟨hproperties, hnodes, hpins, hread, ?_, ?_⟩⟩
    · rwa [hall]
    · rwa [hall]

/-! ## Restoring -/

/-- Two graphs that are being restored are turned, and the same was repaired in both. -/
def RestoredAlike (done done' : Restored) : Prop := done.1.Turned done'.1 ∧ done'.2 = done.2

/-- What is restored item by item stays alike if every item is restored alike. -/
theorem restoreEach_turned {α : Type} {r : α → α → Prop} (restore : Graph → α → Restored)
    (hstep : ∀ (g g' : Graph) (x x' : α), g.Turned g' → r x x' →
      RestoredAlike (restore g x) (restore g' x')) {xs xs' : List α} (h : List.Forall₂ r xs xs') :
    ∀ {start start' : Restored}, RestoredAlike start start' →
      RestoredAlike (restoreEach restore xs start) (restoreEach restore xs' start') := by
  induction h with
  | nil => exact fun hstart => hstart
  | cons hx _ ih =>
    intro start start' hstart
    obtain ⟨hgraph, hrepairs⟩ := hstep _ _ _ _ hstart.1 hx
    refine ih ⟨hgraph, ?_⟩
    show _ ++ _ = _ ++ _
    rw [hrepairs, hstart.2]

/-- The same items in both graphs. -/
theorem restoreEach_same {α : Type} (restore : Graph → α → Restored)
    (hstep : ∀ {g g' : Graph} (x : α), g.Turned g' → RestoredAlike (restore g x) (restore g' x))
    (xs : List α) {start start' : Restored} (h : RestoredAlike start start') :
    RestoredAlike (restoreEach restore xs start) (restoreEach restore xs start') := by
  refine restoreEach_turned (r := Eq) restore ?_ (List.forall₂_same.mpr fun _ _ => rfl) h
  rintro g g' x _ ht rfl
  exact hstep x ht

/-- Whether a link is left out is asked of its two ends alike. -/
theorem restoreLink_turned {g g' : Graph} (h : g.Turned g') {link link' : Link}
    (hsame : link.Same link') : RestoredAlike (restoreLink g link) (restoreLink g' link') := by
  have hadd := h.addLink hsame
  have hpins : g'.pins = g.pins := by
    cases h
    rfl
  -- Two pins that are there decide the same in either order.
  have hboth : ∀ misfit second : Bool,
      RestoredAlike
        (if misfit = true then (g, [.linkIncompatible link.id])
          else if second = true then (g, [.linkSecond link.id]) else (Graph.addLink link g, []))
        (if misfit = true then (g', [.linkIncompatible link.id])
          else if second = true then (g', [.linkSecond link.id])
          else (Graph.addLink link' g', [])) := by
    intro misfit second
    cases misfit <;> cases second <;> first | exact ⟨hadd, rfl⟩ | exact ⟨h, rfl⟩
  unfold restoreLink
  rw [hpins, hsame.id]
  rcases hsame with rfl | rfl
  · cases g.pins.get? link'.start with
    | none => exact ⟨h, rfl⟩
    | some p =>
      cases g.pins.get? link'.finish with
      | none => exact ⟨h, rfl⟩
      | some q => exact hboth _ _
  · simp only [Link.reversed]
    cases g.pins.get? link.start with
    | none => cases g.pins.get? link.finish <;> exact ⟨h, rfl⟩
    | some p =>
      cases g.pins.get? link.finish with
      | none => exact ⟨h, rfl⟩
      | some q =>
        have hfree : ([q, p].any fun pin => pin.direction = .input && pin.isConnected) =
            [p, q].any fun pin => pin.direction = .input && pin.isConnected := by
          simp [Bool.or_comm]
        dsimp only
        rw [q.canConnect_comm p, hfree]
        exact hboth _ _

theorem checkLinks_turned {g g' : Graph} (x : PinRecord) (h : g.Turned g') :
    RestoredAlike (checkLinks g x) (checkLinks g' x) := by
  refine ⟨h, ?_⟩
  have hinvolves : ∀ id : LinkId, (g'.links.get? id).any (·.involves x.pin.id) =
      (g.links.get? id).any (·.involves x.pin.id) := by
    intro id
    cases h with
    | intro hlinks =>
      have hrel := hlinks.get? id
      revert hrel
      generalize g.links.get? id = found
      generalize Table.get? _ id = found'
      rintro (hsame | _)
      · exact hsame.involves _
      · rfl
  simp only [checkLinks, hinvolves]

theorem restoreBinding_turned {g g' : Graph} (id : NodeId) (h : g.Turned g') :
    RestoredAlike (restoreBinding g id) (restoreBinding g' id) := by
  cases h with
  | @intro links hlinks =>
    unfold restoreBinding
    dsimp only
    split
    · exact ⟨.intro hlinks, rfl⟩
    · split
      · exact ⟨.intro hlinks, rfl⟩
      · exact ⟨.intro hlinks, rfl⟩

/-- Up to the links nothing depends on them, and after them nothing depends on their orientation. -/
theorem restore_turned {r : Records} {links : List Link} (h : List.Forall₂ Link.Same r.links links)
    (g : Graph) :
    RestoredAlike (r.restore g) (Records.restore { r with links := links } g) := by
  have hlinks : RestoredAlike (restoreEach restoreLink r.links (r.owned g))
      (restoreEach restoreLink links (r.owned g)) :=
    restoreEach_turned restoreLink (fun _ _ _ _ ht hx => restoreLink_turned ht hx) h ⟨.refl _, rfl⟩
  have hchecked := restoreEach_same checkLinks checkLinks_turned r.pins hlinks
  have hkeys : ∀ {t t' : Restored}, RestoredAlike t t' → t'.1.nodes.keys = t.1.nodes.keys := by
    rintro ⟨t, _⟩ ⟨t', _⟩ ⟨ht, -⟩
    cases ht
    rfl
  show RestoredAlike (restoreEach restoreBinding _ _) (restoreEach restoreBinding
    (restoreEach checkLinks r.pins (restoreEach restoreLink links (r.owned g))).1.nodes.keys _)
  rw [hkeys hchecked]
  exact restoreEach_same restoreBinding restoreBinding_turned _ hchecked

/-! ## Loading -/

/-- Where one graph can be saved and loaded, a turned one can, and what is loaded is turned. -/
theorem load_turned_of_ok {g g' l : Graph} (h : g.Turned g') {registry : Registry}
    {repairs : List Repair} (hl : g.toDocument.load registry = .ok (l, repairs)) :
    ∃ l', g'.toDocument.load registry = .ok (l', repairs) ∧ l.Turned l' := by
  obtain ⟨hversion, hnext, r, hr, rfl, rfl⟩ := load_eq_ok.mp hl
  obtain ⟨links, hsame, hr'⟩ := readAll_turned h hr
  have hdoc : g'.toDocument.version = g.toDocument.version ∧
      g'.toDocument.name = g.toDocument.name ∧ g'.toDocument.nextId = g.toDocument.nextId := by
    cases h
    exact ⟨rfl, rfl, rfl⟩
  obtain ⟨hv, hn, hi⟩ := hdoc
  obtain ⟨hgraph, hrepairs⟩ := restore_turned hsame (r.entities g.toDocument.name registry)
  refine ⟨_, load_eq_ok.mpr ⟨hv ▸ hversion, hi ▸ hnext, _, hr', rfl, ?_⟩, ?_⟩
  · rw [hn]
    exact hrepairs.symm
  · rw [hn, hi]
    exact hgraph.update (u := fun t => { t with nextId := _ }) (fun _ => rfl) rfl

/-- A graph and a turned one are both loaded as they were saved, with the same repairs, or
    neither. -/
theorem load_turned {g g' : Graph} (h : g.Turned g') (registry : Registry) :
    (∃ l l' repairs, g.toDocument.load registry = .ok (l, repairs) ∧
      g'.toDocument.load registry = .ok (l', repairs) ∧ l.Turned l') ∨
    ∃ e e', g.toDocument.load registry = .error e ∧ g'.toDocument.load registry = .error e' := by
  cases hl : g.toDocument.load registry with
  | ok done =>
    obtain ⟨l', hl', hturned⟩ := load_turned_of_ok h hl
    exact .inl ⟨done.1, l', done.2, rfl, hl', hturned⟩
  | error e =>
    cases hl' : g'.toDocument.load registry with
    | ok done =>
      obtain ⟨l, hl₁, -⟩ := load_turned_of_ok h.symm hl'
      rw [hl] at hl₁
      cases hl₁
    | error e' => exact .inr ⟨e, e', rfl, rfl⟩

end FlowGraph
