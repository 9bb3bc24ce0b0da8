import FlowGraph.Proofs.Announcements.Edits
import FlowGraph.Proofs.Twins.Evaluation

/-!
# Graphs whose links are noted the other way round

`g.Turned g'` says that the graphs are equal, except that some links of one have their ends
exchanged in the other.  `Edit.Mirrors` is the relation between two edits of which one does on a
turned graph what the other does on the graph, with rules that follow how edits are composed.
-/

namespace FlowGraph

/-! ## Tables -/

namespace Table

variable {κ α : Type} [DecidableEq κ] {r : α → α → Prop} {t t' : Table κ α}

theorem Pairs.insert (h : t.Pairs r t') (k : κ) {a a' : α} (ha : r a a') :
    (t.insert k a).Pairs r (t'.insert k a') := by
  obtain ⟨l⟩ := t
  obtain ⟨l'⟩ := t'
  simp only [Pairs, Table.insert] at h ⊢
  induction h with
  | nil => exact .cons ⟨rfl, ha⟩ .nil
  | @cons e e' _ _ he hrest ih =>
    obtain ⟨k₁, b⟩ := e
    obtain ⟨k₂, b'⟩ := e'
    obtain ⟨rfl, hb⟩ := he
    by_cases hk : k₂ = k
    · simpa [place, hk] using ⟨ha, hrest⟩
    · simpa [place, hk] using ⟨hb, ih⟩

theorem Pairs.erase (h : t.Pairs r t') (k : κ) : (t.erase k).Pairs r (t'.erase k) := by
  obtain ⟨l⟩ := t
  obtain ⟨l'⟩ := t'
  simp only [Pairs, Table.erase] at h ⊢
  induction h with
  | nil => exact .nil
  | @cons e e' _ _ he _ ih =>
    by_cases hk : e.1 = k
    · simpa [hk, he.1] using ih
    · rw [List.filter_cons_of_pos (by simpa using hk),
        List.filter_cons_of_pos (by simpa [he.1] using hk)]
      exact .cons he ih

/-- It does not matter which of two entries is changed first. -/
theorem modify_comm (t : Table κ α) (j k : κ) (f : α → α) :
    (t.modify j f).modify k f = (t.modify k f).modify j f := by
  simp only [modify, List.map_map]
  congr 1
  refine List.map_congr_left fun e _ => ?_
  simp only [Function.comp_apply]
  split <;> split <;> rfl

end Table

/-! ## Turned graphs -/

namespace Graph

variable {g g' : Graph}

/-- The graphs are equal, except that links of the one may have their ends exchanged in the
    other. -/
inductive Turned (g : Graph) : Graph → Prop where
  | intro {links : Table LinkId Link} (h : g.links.Pairs Link.Same links) :
    Turned g { g with links := links }

theorem Turned.refl (g : Graph) : g.Turned g := .intro (.refl Link.Same.refl g.links)

theorem Turned.symm (h : g.Turned g') : g'.Turned g := by
  cases h with
  | @intro links hlinks =>
    exact .intro (g := { g with links := links })
      (hlinks.flip.imp fun _ _ he => ⟨he.1.symm, he.2.symm⟩)

/-- To turn links is to make a twin that holds the same in every pin. -/
theorem Turned.twin (h : g.Turned g') (hg : g.Indexed) : g.Twin (fun _ => True) g' := by
  cases h with
  | intro hlinks => exact ⟨rfl, rfl, fun _ _ => rfl, hlinks, hg⟩

theorem Twin.turned (h : g.Twin (fun _ => True) g') : g.Turned g' := by
  have hpins : g'.pins = g.pins :=
    Table.ext_get? h.indexed.pins h.pin_keys fun p => h.contents p trivial
  have hname : g'.name = g.name := congrArg (·.name) h.frame
  have hregistry : g'.registry = g.registry := congrArg (·.registry) h.frame
  have hnext : g'.nextId = g.nextId := congrArg (·.nextId) h.frame
  have heq : g' = { g with links := g'.links } := by
    obtain ⟨name, registry, nextId, nodes, pins, links, properties⟩ := g'
    simp only at hname hregistry hnext hpins
    subst hname hregistry hnext hpins
    have hnodes := h.nodes
    have hproperties := h.properties
    simp only at hnodes hproperties
    subst hnodes hproperties
    rfl
  rw [heq]
  exact .intro h.links

/-- What neither reads nor writes the links keeps graphs turned. -/
theorem Turned.update (h : g.Turned g') {u : Graph → Graph}
    (hblind : ∀ links, u { g with links := links } = { u g with links := links })
    (hlinks : (u g).links = g.links) : (u g).Turned (u g') := by
  cases h with
  | @intro links hpairs =>
    rw [← hlinks] at hpairs
    rw [hblind links]
    exact .intro hpairs

/-- Two links that are the same but for the order of their ends are entered alike. -/
theorem Turned.addLink (h : g.Turned g') {link link' : Link} (hsame : link.Same link') :
    (addLink link g).Turned (addLink link' g') := by
  cases h with
  | @intro ls hlinks =>
    have hid := hsame.id
    have hpins : ((g.pins.modify link'.start (·.connect link'.id)).modify link'.finish
        (·.connect link'.id)) =
        (g.pins.modify link.start (·.connect link.id)).modify link.finish (·.connect link.id) := by
      rcases hsame with rfl | rfl
      · rfl
      · exact Table.modify_comm _ _ _ _
    have hadd : Graph.addLink link' { g with links := ls } =
        { Graph.addLink link g with links := ls.insert link.id link' } := by
      rw [Graph.addLink, hpins, hid]
      rfl
    rw [hadd]
    exact .intro (hlinks.insert link.id hsame)

end Graph

/-! ## Reports of the same edit -/

/-- Whether a scripted node was told of a lost link. -/
def Report.isHook : Report → Bool
  | .disconnected .. => true
  | _ => false

/-- The same is reported in the same order, but to whom a lost link was reported first may
    differ. -/
structure ReportsAlike (rs rs' : List Report) : Prop where
  hooks : (rs.filter Report.isHook).Perm (rs'.filter Report.isHook)
  others : List.Forall₂ (Report.Like Graph.Turned) (rs.filter (!·.isHook)) (rs'.filter (!·.isHook))

namespace ReportsAlike

variable {rs rs' ss ss' : List Report}

theorem nil : ReportsAlike [] [] := ⟨.nil, .nil⟩

theorem append (h : ReportsAlike rs rs') (h' : ReportsAlike ss ss') :
    ReportsAlike (rs ++ ss) (rs' ++ ss') := by
  constructor
  · rw [List.filter_append, List.filter_append]
    exact h.hooks.append h'.hooks
  · rw [List.filter_append, List.filter_append]
    exact List.rel_append h.others h'.others

theorem of_perm (h : rs.Perm rs') (hhooks : ∀ r ∈ rs, r.isHook = true) : ReportsAlike rs rs' := by
  refine ⟨h.filter _, ?_⟩
  have hnone : ∀ {ss : List Report}, (∀ r ∈ ss, r.isHook = true) →
      ss.filter (!·.isHook) = [] := fun hss =>
    List.filter_eq_nil_iff.mpr fun r hr => by simp [hss r hr]
  rw [hnone hhooks, hnone fun r hr => hhooks r (h.mem_iff.mpr hr)]
  exact .nil

theorem single {r r' : Report} (h : r.Like Graph.Turned r') : ReportsAlike [r] [r'] := by
  have hhook : r.isHook = true → r' = r := by
    intro hr
    cases r with
    | disconnected kind pin => exact h
    | _ => cases hr
  cases hr : r.isHook with
  | true =>
    rw [hhook hr]
    exact of_perm (.refl _) fun s hs => (List.mem_singleton.mp hs) ▸ hr
  | false =>
    have hr' : r'.isHook = false := by
      cases r <;> cases r' <;> simp_all [Report.Like, Report.isHook]
    exact ⟨by simp [hr, hr'], by simp [hr, hr', h]⟩

theorem of_forall₂ (h : List.Forall₂ (Report.Like Graph.Turned) rs rs') : ReportsAlike rs rs' := by
  induction h with
  | nil => exact nil
  | cons hr _ ih => exact (single hr).append ih

end ReportsAlike

/-- Two edits of turned graphs went the same way: the answers are related, the graphs are turned
    again, and the reports are alike. -/
structure Edited.Alike {α : Type} (r : α → α → Prop) (e e' : Edited α) : Prop where
  answer : r e.answer e'.answer
  graph : e.graph.Turned e'.graph
  reports : ReportsAlike e.reports e'.reports

/-! ## Edits that mirror each other -/

namespace Edit

variable {α β : Type} {r : α → α → Prop} {q : β → β → Prop}

/-- The second edit does on a turned graph what the first does on the graph. -/
def Mirrors (r : α → α → Prop) (m m' : Edit α) : Prop :=
  ∀ g g' : Graph, g.Turned g' → (m g).Alike r (m' g')

/-- The edit does the same whichever way round the links are noted. -/
abbrev Mirrored (m : Edit α) : Prop := Mirrors Eq m m

theorem mirrors_pure {a a' : α} (h : r a a') : Mirrors r (pure a) (pure a') :=
  fun _ _ ht => ⟨h, ht, .nil⟩

theorem mirrors_bind {m m' : Edit α} {f f' : α → Edit β} (hm : Mirrors r m m')
    (hf : ∀ a a', r a a' → Mirrors q (f a) (f' a')) : Mirrors q (m >>= f) (m' >>= f') := by
  intro g g' ht
  have hfirst := hm g g' ht
  have hnext := hf _ _ hfirst.answer _ _ hfirst.graph
  exact ⟨hnext.answer, hnext.graph, hfirst.reports.append hnext.reports⟩

/-- One edit after another whose answer is not looked at. -/
theorem mirrors_then {m m' : Edit α} {n n' : Edit β} (hm : Mirrors Eq m m')
    (hn : Mirrors q n n') : Mirrors q (m >>= fun _ => n) (m' >>= fun _ => n') :=
  mirrors_bind hm fun _ _ _ => hn

theorem map_alike {m m' : Edit α} {g g' : Graph} (h : (m g).Alike r (m' g')) {f : α → β}
    (hf : ∀ a a', r a a' → q (f a) (f a')) : ((f <$> m) g).Alike q ((f <$> m') g') := by
  refine ⟨hf _ _ h.answer, h.graph, ?_⟩
  rw [map_reports, map_reports]
  exact h.reports

theorem Mirrored.discard {m : Edit α} (h : Mirrored m) : Mirrored (discard m) :=
  fun g g' ht => map_alike (h g g' ht) fun _ _ _ => rfl

/-- What an edit does next may depend on the graph as it stands. -/
theorem mirrors_current {f f' : Graph → Edit α}
    (h : ∀ g g' : Graph, g.Turned g' → Mirrors r (f g) (f' g')) :
    Mirrors r (current >>= f) (current >>= f') := fun g g' ht => h g g' ht g g' ht

/-- What an edit does next depends on the graph, but not on its links. -/
theorem mirrors_read {f f' : Graph → Edit α}
    (hblind : ∀ (g : Graph) links, f' { g with links := links } = f' g)
    (h : ∀ g, Mirrors r (f g) (f' g)) : Mirrors r (current >>= f) (current >>= f') := by
  refine mirrors_current fun g g' ht => ?_
  cases ht with
  | intro _ =>
    rw [hblind]
    exact h g

theorem mirrors_update {u u' : Graph → Graph}
    (h : ∀ g g' : Graph, g.Turned g' → (u g).Turned (u' g')) : Mirrors Eq (update u) (update u') :=
  fun g g' ht => ⟨rfl, h g g' ht, .nil⟩

/-- A change that has nothing to do with the links. -/
theorem mirrored_update {u : Graph → Graph}
    (hblind : ∀ (g : Graph) links, u { g with links := links } = { u g with links := links })
    (hlinks : ∀ g, (u g).links = g.links) : Mirrored (update u) :=
  mirrors_update fun g _ ht => ht.update (hblind g) (hlinks g)

theorem mirrored_announce (event : Event) : Mirrored (announce event) :=
  fun _ _ ht => ⟨rfl, ht, .single ⟨rfl, ht⟩⟩

theorem mirrored_disconnected (kind : String) (pin : PinId) :
    Mirrored (report (.disconnected kind pin)) := fun _ _ ht => ⟨rfl, ht, .single rfl⟩

theorem mirrored_unbound (kind : String) (p : PropertyId) : Mirrored (report (.unbound kind p)) :=
  fun _ _ ht => ⟨rfl, ht, .single rfl⟩

theorem mirrored_allocate : Mirrored allocate := by
  intro g g' ht
  cases ht with
  | intro hlinks =>
    exact ⟨rfl, .intro (g := { g with nextId := nextNumber g.nextId }) hlinks, .nil⟩

theorem mirrored_forM {f : α → Edit Unit} (h : ∀ x, Mirrored (f x)) (xs : List α) :
    Mirrored (xs.forM f) := by
  induction xs with
  | nil => exact mirrors_pure rfl
  | cons x xs ih => exact mirrors_then (h x) ih

end Edit

end FlowGraph
