import FlowGraph.Proofs.Document.Saved
import FlowGraph.Proofs.Run

/-!
# A saved graph is loaded as it was

Loading leaves out every reference that it cannot restore, so what has to be shown is that this
never happens to a graph that was saved.  Each stage is followed item by item: the graph so far is
the saved one with the references of the items to come still missing (`Graph.soFar`), and the next
item restores exactly its own.  The links are entered in the order of the link table, which is the
order each pin had them in.
-/

namespace FlowGraph

namespace Graph

variable {g : Graph} {registry : Registry}

/-- The registry makes the nodes of the graph, its numbers can be written, and its variables are
    bound to properties that are there. -/
structure Savable (registry : Registry) (g : Graph) : Prop where
  makes : ∀ n ∈ g.nodes.values, ∀ b ∈ n.behavior, registry.Makes b
  constants : ∀ n ∈ g.nodes.values, ∀ b ∈ n.behavior, b.isFinite = true
  pins : ∀ p ∈ g.pins.values, p.value.isFinite = true
  properties : ∀ p ∈ g.properties.values, p.value.isFinite = true
  bound : ∀ n ∈ g.nodes.values, ∀ b ∈ n.behavior, ∀ p ∈ b.bound, p ∈ g.properties.keys
  nextId : g.nextId ≤ maxDocumentId

/-! ## The records -/

/-- All ids in use, kind after kind in the order in which documents are read. -/
def idsByKind (g : Graph) : List Nat :=
  g.properties.keys.map (·.number) ++ g.nodes.keys.map (·.number) ++ g.pins.keys.map (·.number) ++
    g.links.keys.map (·.number)

/-- What reading makes of the saved graph. -/
def records (g : Graph) : Records where
  properties := g.properties.values.map fun p => ⟨{ p with parent := none }, p.parent⟩
  nodes := g.nodes.values.map fun n => ⟨{ n with inputs := [], outputs := [] },
    n.inputs.map PinId.number, n.outputs.map PinId.number⟩
  pins := g.pins.values.map fun p => ⟨{ p with links := [] }, p.links.map LinkId.number⟩
  links := g.links.values
  ids := g.idsByKind.reverse

theorem Intact.property_ids_records (h : g.Intact) :
    g.records.properties.map (·.property.id) = g.properties.keys := by
  rw [← h.properties.map_values, records, List.map_map]
  rfl

theorem Intact.node_ids_records (h : g.Intact) :
    g.records.nodes.map (·.node.id) = g.nodes.keys := by
  rw [← h.nodes.map_values, records, List.map_map]
  rfl

theorem mem_idsByKind {i : Nat} : i ∈ g.idsByKind ↔ i ∈ g.ids := by
  simp only [idsByKind, ids, List.mem_append]
  tauto

theorem Sound.nodup_idsByKind (h : g.Sound) : g.idsByKind.Nodup := by
  have hperm : g.idsByKind.Perm g.ids := by
    simp only [idsByKind, ids, List.append_assoc]
    refine List.perm_append_comm.trans ?_
    simp only [List.append_assoc]
    exact List.Perm.refl _
  exact hperm.nodup_iff.mpr h.numbered.distinct

theorem Sound.allIds_records (h : g.Sound) : g.records.allIds = g.idsByKind := by
  have hi := h.intact
  simp only [Records.allIds, records, idsByKind, List.map_map, ← hi.properties.map_values,
    ← hi.nodes.map_values, ← hi.pins.map_values, ← hi.links.map_values]
  rfl

theorem Sound.takes_records (h : g.Sound) (hnext : g.nextId ≤ maxDocumentId) :
    Takes [] g.records.allIds := by
  rw [h.allIds_records]
  refine ⟨fun i hi => ?_, by simp, h.nodup_idsByKind⟩
  have hlt := h.numbered.below i (mem_idsByKind.mp hi)
  omega

section Ids

variable (h : g.Sound) (hnext : g.nextId ≤ maxDocumentId)
include h hnext

theorem Sound.isDocumentId {i : Nat} (hi : i ∈ g.ids) : IsDocumentId i := by
  have hlt := h.numbered.below i hi
  show i ≤ maxDocumentId
  omega

theorem Sound.node_id {k : NodeId} {n : Node} (hk : g.nodes.get? k = some n) :
    IsDocumentId k.number :=
  h.isDocumentId hnext (mem_ids_iff.mpr (.inl (Table.mem_keys_of_get? hk)))

theorem Sound.pin_id {p : PinId} {pin : Pin} (hp : g.pins.get? p = some pin) :
    IsDocumentId p.number :=
  h.isDocumentId hnext (mem_ids_iff.mpr (.inr (.inl (Table.mem_keys_of_get? hp))))

theorem Sound.link_id {l : LinkId} {link : Link} (hl : g.links.get? l = some link) :
    IsDocumentId l.number :=
  h.isDocumentId hnext (mem_ids_iff.mpr (.inr (.inr (.inl (Table.mem_keys_of_get? hl)))))

theorem Sound.property_id {p : PropertyId} (hp : p ∈ g.properties.keys) : IsDocumentId p.number :=
  h.isDocumentId hnext (mem_ids_iff.mpr (.inr (.inr (.inr hp))))

end Ids

theorem forall₂_read_write {α β : Type} {read : Document → Except DocumentError β}
    {write : α → Document} {record : α → β} {xs : List α}
    (h : ∀ x ∈ xs, read (write x) = .ok (record x)) :
    List.Forall₂ (fun d b => read d = .ok b) (xs.map write) (xs.map record) := by
  rw [List.forall₂_map_left_iff, List.forall₂_map_right_iff, List.forall₂_same]
  exact h

/-- A saved graph can be read. -/
theorem Sound.readAll_toDocument (h : g.Sound) (hs : g.Savable registry) :
    g.toDocument.readAll registry = .ok g.records := by
  have hi := h.intact
  have hn := hs.nextId
  refine readAll_eq_ok.mpr ⟨forall₂_read_write fun p hp => ?_, forall₂_read_write fun n hm => ?_,
    forall₂_read_write fun p hp => ?_, ?_, h.takes_records hn, by rw [h.allIds_records]; rfl⟩
  · have hget := hi.properties.get?_of_mem_values hp
    refine PropertyRecord.read_toDocument (h.property_id hn (Table.mem_keys_of_get? hget))
      (fun q hq => ?_) (hs.properties p hp)
    exact h.property_id hn (h.grouped.parents ⟨p, hget, hq⟩)
  · have hget := hi.nodes.get?_of_mem_values hm
    obtain ⟨b, hb, htype, hflow⟩ := h.staffed.staff hget
    refine NodeRecord.read_toDocument hb htype hflow (hs.makes n hm b hb) (hs.constants n hm b hb)
      (fun p hp => h.property_id hn (hs.bound n hm b hb p hp)) (h.node_id hn hget) fun p hp => ?_
    obtain ⟨d, hd⟩ := Node.mem_pins_iff.mp hp
    obtain ⟨pin, hpin, -⟩ := hi.listed hget hd
    exact h.pin_id hn hpin
  · have hget := hi.pins.get?_of_mem_values hp
    obtain ⟨n, hnode, -⟩ := hi.owned hget
    refine PinRecord.read_toDocument (h.pin_id hn hget) (h.node_id hn hnode) (fun l hl => ?_)
      (hs.pins p hp)
    rw [hi.entered hget] at hl
    obtain ⟨link, hlink, -⟩ := (mem_linksAt_iff hi.links).mp hl
    exact h.link_id hn hlink
  · show List.Forall₂ _ (g.links.values.map Link.toDocument) g.links.values
    rw [List.forall₂_map_left_iff, List.forall₂_same]
    intro l hl
    have hget := hi.links.get?_of_mem_values hl
    obtain ⟨a, b, ha, hb, -⟩ := hi.joined hget
    exact Link.read_toDocument (h.link_id hn hget) (h.pin_id hn ha) (h.pin_id hn hb)

/-! ## The graph so far -/

/-- The graph while it is loaded again: the properties and nodes of the lists have got back their
    references, and the links of the list are back. -/
def soFar (g : Graph) (registry : Registry) (properties : List PropertyId) (nodes : List NodeId)
    (links : List Link) : Graph :=
  { Graph.new g.name registry with
    properties := g.properties.map fun p =>
      if p.id ∈ properties then p else { p with parent := none }
    nodes := g.nodes.map fun n => if n.id ∈ nodes then n else { n with inputs := [], outputs := [] }
    pins := g.pins.map fun p => { p with links := (links.filter (·.involves p.id)).map (·.id) }
    links := ⟨links.map fun l => (l.id, l)⟩ }

variable {properties : List PropertyId} {nodes : List NodeId} {links : List Link}

/-- At the beginning there are the entities alone. -/
theorem Sound.entities_records (h : g.Sound) (hnext : g.nextId ≤ maxDocumentId) :
    g.records.entities g.name registry = g.soFar registry [] [] [] := by
  have hi := h.intact
  have hproperties := hi.properties.map_eq fun p => if p.id ∈ ([] : List PropertyId) then p
    else { p with parent := none }
  have hnodes := hi.nodes.map_eq fun n => if n.id ∈ ([] : List NodeId) then n
    else { n with inputs := [], outputs := [] }
  have hpins := hi.pins.map_eq fun p => { p with
    links := (([] : List Link).filter (·.involves p.id)).map (·.id) }
  rw [entities_eq (h.takes_records hnext), soFar, hproperties, hnodes, hpins]
  simp [records]
  rfl

theorem get?_pin_soFar (p : PinId) : (g.soFar registry properties nodes links).pins.get? p =
    (g.pins.get? p).map fun pin =>
      { pin with links := (links.filter (·.involves pin.id)).map (·.id) } :=
  Table.get?_map _ _ _

/-! ## Parents again -/

theorem childOf_soFar {a b : PropertyId}
    (hab : (g.soFar registry properties nodes links).ChildOf a b) : g.ChildOf a b := by
  obtain ⟨p', hp', hb⟩ := hab
  simp only [soFar, Table.get?_map] at hp'
  obtain ⟨p, hp, rfl⟩ := Option.map_eq_some_iff.mp hp'
  split at hb
  · exact ⟨p, hp, hb⟩
  · cases hb

/-- A parent of the saved graph is there and closes no cycle. -/
theorem Sound.restoreParent_soFar (h : g.Sound) {p : Property} (hp : p ∈ g.properties.values) :
    restoreParent (g.soFar registry properties nodes links) ⟨{ p with parent := none }, p.parent⟩ =
      (g.soFar registry (properties ++ [p.id]) nodes links, []) := by
  have hkeyed := h.intact.properties
  have hget := hkeyed.get?_of_mem_values hp
  cases hparent : p.parent with
  | none =>
    have htable : (g.soFar registry properties nodes links).properties =
        (g.soFar registry (properties ++ [p.id]) nodes links).properties := by
      simp only [soFar]
      refine Table.map_congr fun q hq => ?_
      by_cases hid : q.id = p.id
      · have heq := hkeyed.eq_of_mem_values hq hp hid
        subst heq
        by_cases hm : q.id ∈ properties <;> simp [hm, ← hparent]
      · simp [hid]
    show (g.soFar registry properties nodes links, []) = _
    rw [soFar, soFar]
    exact congrArg (fun t => ({ g.soFar registry properties nodes links with properties := t }, []))
      htable
  | some parent =>
    have hthere : (g.soFar registry properties nodes links).properties.contains parent = true := by
      refine (Table.mem_keys_iff _ _).mp ?_
      simp only [soFar, Table.keys_map]
      exact h.grouped.parents ⟨p, hget, hparent⟩
    have hancestor : (g.soFar registry properties nodes links).isAncestor p.id
        (g.soFar registry properties nodes links).properties.size parent = false := by
      -- The walk goes up over parents of the saved graph, and would close a cycle there.
      by_contra hno
      have hpath := path_of_isAncestor _ (by simpa using hno)
      refine h.grouped.acyclic p.id (.head' ⟨p, hget, hparent⟩ ?_)
      exact hpath.lift id fun _ _ hab => childOf_soFar hab
    have htable : (g.soFar registry properties nodes links).properties.modify p.id
        (fun q => { q with parent := some parent }) =
        (g.soFar registry (properties ++ [p.id]) nodes links).properties := by
      simp only [soFar]
      refine hkeyed.modify_map fun q hq => ?_
      by_cases hid : q.id = p.id
      · have heq := hkeyed.eq_of_mem_values hq hp hid
        subst heq
        by_cases hm : q.id ∈ properties <;> simp [hm, ← hparent]
      · simp [hid]
    simp only [restoreParent, hthere, hancestor, Bool.not_true, Bool.false_eq_true, if_false]
    exact congrArg (fun t => ({ g.soFar registry properties nodes links with properties := t }, []))
      htable

/-! ## Pins again -/

theorem Sound.ownPins_soFar (h : g.Sound) {n : Node} (hn : n ∈ g.nodes.values) (d : Direction) :
    ownPins (g.soFar registry properties nodes links) n.id d ((n.pinsOf d).map PinId.number) =
      (n.pinsOf d, []) := by
  have hback : ((n.pinsOf d).map PinId.number).map PinId.mk = n.pinsOf d := by
    rw [List.map_map]
    exact List.map_id _
  have hown : ∀ p ∈ n.pinsOf d, (g.soFar registry properties nodes links).owns n.id d p = true := by
    intro p hp
    obtain ⟨pin, hpin, hk, hd⟩ :=
      h.intact.listed (h.intact.nodes.get?_of_mem_values hn) hp
    simp [owns, get?_pin_soFar, hpin, hk, hd]
  have hall : (n.pinsOf d).filter ((g.soFar registry properties nodes links).owns n.id d) =
      n.pinsOf d := List.filter_eq_self.mpr hown
  have hnone : (n.pinsOf d).filter
      (not ∘ (g.soFar registry properties nodes links).owns n.id d) = [] := by
    refine List.filter_eq_nil_iff.mpr fun p hp => ?_
    simp [hown p hp]
  simp only [ownPins, hback, List.partition_eq_filter_filter, hall, hnone, List.map_nil]

/-- A node of the saved graph gets back all its pins. -/
theorem Sound.restorePins_soFar (h : g.Sound) {n : Node} (hn : n ∈ g.nodes.values) :
    restorePins (g.soFar registry properties nodes links) ⟨{ n with inputs := [], outputs := [] },
        n.inputs.map PinId.number, n.outputs.map PinId.number⟩ =
      (g.soFar registry properties (nodes ++ [n.id]) links, []) := by
  have hkeyed := h.intact.nodes
  have htable : (g.soFar registry properties nodes links).nodes.modify n.id
      (fun m => { m with inputs := n.inputs, outputs := n.outputs }) =
      (g.soFar registry properties (nodes ++ [n.id]) links).nodes := by
    simp only [soFar]
    refine hkeyed.modify_map fun m hm => ?_
    by_cases hid : m.id = n.id
    · have heq := hkeyed.eq_of_mem_values hm hn hid
      subst heq
      by_cases hd : m.id ∈ nodes <;> simp [hd]
    · simp [hid]
  have hinputs : ownPins (g.soFar registry properties nodes links) n.id .input
      (n.inputs.map PinId.number) = (n.inputs, []) := h.ownPins_soFar hn .input
  have houtputs : ownPins (g.soFar registry properties nodes links) n.id .output
      (n.outputs.map PinId.number) = (n.outputs, []) := h.ownPins_soFar hn .output
  simp only [restorePins, hinputs, houtputs, List.append_nil]
  exact congrArg (fun t => ({ g.soFar registry properties nodes links with nodes := t }, [])) htable

/-- Once the nodes have their pins, none is left over. -/
theorem Sound.orphans_soFar (h : g.Sound) :
    (g.soFar registry properties g.nodes.keys links).orphans = [] := by
  have hnodes : (g.soFar registry properties g.nodes.keys links).nodes.values =
      g.nodes.values := by
    simp only [soFar, Table.values_map]
    refine (List.map_congr_left fun n hn => ?_).trans (List.map_id _)
    exact if_pos (Table.mem_keys_of_get? (h.intact.nodes.get?_of_mem_values hn))
  refine List.filter_eq_nil_iff.mpr fun p hp => ?_
  simp only [soFar, Table.keys_map] at hp
  obtain ⟨pin, hpin⟩ := Table.mem_keys.mp hp
  obtain ⟨n, hn, hlisted⟩ := h.intact.owned hpin
  rw [hnodes, decide_eq_true_iff, not_not]
  exact List.mem_flatMap.mpr ⟨n, Table.mem_values_of_get? hn, Node.mem_pins_iff.mpr ⟨_, hlisted⟩⟩

/-! ## Links again -/

/-- What an input is linked to is the only link that involves it, so none of the links before
    does. -/
theorem Sound.free_soFar (h : g.Sound) {l : Link} (hl : links ++ [l] <+: g.links.values) {p : PinId}
    {pin : Pin} (hp : g.pins.get? p = some pin) (hd : pin.direction = .input)
    (hinvolves : l.involves p = true) : links.filter (·.involves p) = [] := by
  -- An input has one link at most, and `l` is one.
  have hle := h.intact.fed hp hd
  rw [h.intact.entered hp, linksAt, List.length_map] at hle
  have hsub := (hl.sublist.filter fun link => link.involves p).length_le
  rw [List.filter_append, List.filter_singleton, hinvolves, List.length_append, cond_true,
    List.length_singleton] at hsub
  exact List.eq_nil_of_length_eq_zero (by omega)

/-- An end enters the next link behind those that it has already. -/
theorem Sound.connect_soFar (h : g.Sound) {l : Link} (hl : links ++ [l] <+: g.links.values)
    {p : Pin} (hp : p ∈ g.pins.values) (hinvolves : l.involves p.id = true) :
    Pin.connect { p with links := (links.filter (·.involves p.id)).map (·.id) } l.id =
      { p with links := ((links ++ [l]).filter (·.involves p.id)).map (·.id) } := by
  have hempty : p.direction = .input →
      (links.filter (·.involves p.id)).map (·.id) = ([] : List LinkId) := by
    intro hd
    rw [h.free_soFar hl (h.intact.pins.get?_of_mem_values hp) hd hinvolves]
    rfl
  have hlinks := Pin.links_connect
    (p := { p with links := (links.filter (·.involves p.id)).map (·.id) }) hempty l.id
  obtain ⟨ls, hconnect⟩ := Pin.connect_eq
    { p with links := (links.filter (·.involves p.id)).map (·.id) } l.id
  rw [hconnect] at hlinks ⊢
  rw [List.filter_append, List.filter_singleton, hinvolves]
  simpa using hlinks

theorem Sound.addLink_soFar (h : g.Sound) {l : Link} (hl : links ++ [l] <+: g.links.values)
    (hne : l.start ≠ l.finish) :
    addLink l (g.soFar registry properties nodes links) =
      g.soFar registry properties nodes (links ++ [l]) := by
  have hpins : ((g.soFar registry properties nodes links).pins.modify l.start
      (·.connect l.id)).modify l.finish (·.connect l.id) =
      (g.soFar registry properties nodes (links ++ [l])).pins := by
    have hkeyed := h.intact.pins
    simp only [soFar]
    rw [hkeyed.modify_map (k := l.start) (u := (·.connect l.id)) (fun _ _ => rfl)]
    refine hkeyed.modify_map fun p hp => ?_
    by_cases hs : p.id = l.start
    · have hf : p.id ≠ l.finish := fun heq => hne (hs.symm.trans heq)
      rw [if_neg hf, if_pos hs, h.connect_soFar hl hp (Link.involves_iff.mpr (.inl hs.symm))]
    · by_cases hf : p.id = l.finish
      · rw [if_pos hf, if_neg hs, h.connect_soFar hl hp (Link.involves_iff.mpr (.inr hf.symm))]
      · have hnot : l.involves p.id = false := by
          simp [Link.involves, Ne.symm hs, Ne.symm hf]
        rw [if_neg hf, if_neg hs, List.filter_append, List.filter_singleton, hnot]
        simp
  have hlinks : (g.soFar registry properties nodes links).links.insert l.id l =
      (g.soFar registry properties nodes (links ++ [l])).links := by
    have hnodup : ((links ++ [l]).map (·.id)).Nodup := by
      have hids := h.intact.links.nodup
      rw [← h.intact.links.map_values] at hids
      exact (hl.sublist.map _).nodup hids
    have hkey : l.id ∉ (g.soFar registry properties nodes links).links.keys := by
      rw [List.map_append, List.nodup_append] at hnodup
      intro hm
      simp only [soFar, Table.keys, List.map_map] at hm
      exact hnodup.2.2 _ hm _ (by simp) rfl
    refine Table.ext ?_
    rw [Table.entries_insert_of_not_mem hkey]
    simp [soFar]
  rw [addLink, hpins, hlinks]
  rfl

/-- A link of the saved graph finds its ends, and finds them free. -/
theorem Sound.restoreLink_soFar (h : g.Sound) {l : Link} (hl : links ++ [l] <+: g.links.values) :
    restoreLink (g.soFar registry properties nodes links) l =
      (g.soFar registry properties nodes (links ++ [l]), []) := by
  have hmem : l ∈ g.links.values := hl.subset (by simp)
  obtain ⟨a, b, ha, hb, hab⟩ := h.intact.joined (h.intact.links.get?_of_mem_values hmem)
  have hne : l.start ≠ l.finish := by
    intro heq
    rw [heq, hb] at ha
    cases ha
    exact (Pin.canConnect_iff.mp hab).1 rfl
  have hview : ∀ {p pin}, g.pins.get? p = some pin →
      (g.soFar registry properties nodes links).pins.get? p =
        some { pin with links := (links.filter (·.involves pin.id)).map (·.id) } := by
    intro p pin hp
    rw [get?_pin_soFar, hp]
    rfl
  have hfree : ∀ {p pin}, g.pins.get? p = some pin → l.involves p = true →
      (pin.direction = .input && !((links.filter (·.involves pin.id)).map (·.id)).isEmpty) =
        false := by
    intro p pin hp hinvolves
    rw [h.intact.pins.get?_id hp]
    by_cases hd : pin.direction = .input
    · rw [h.free_soFar hl hp hd hinvolves]
      simp
    · simp [hd]
  have hboth : ([{ a with links := (links.filter (·.involves a.id)).map (·.id) },
      { b with links := (links.filter (·.involves b.id)).map (·.id) }].any
        fun pin : Pin => pin.direction = .input && pin.isConnected) = false := by
    simp only [List.any_cons, List.any_nil, Bool.or_false, Pin.isConnected,
      hfree ha (Link.involves_iff.mpr (.inl rfl)), hfree hb (Link.involves_iff.mpr (.inr rfl))]
  have hfit : Pin.canConnect { a with links := (links.filter (·.involves a.id)).map (·.id) }
      { b with links := (links.filter (·.involves b.id)).map (·.id) } = true := hab
  simp only [restoreLink, hview ha, hview hb, hfit, hboth, h.addLink_soFar hl hne]
  rfl

/-! ## Nothing is left out -/

/-- The graph before its counter is set. -/
def uncounted (g : Graph) (registry : Registry) : Graph :=
  { g with registry := registry, nextId := 1 }

/-- In the end all is there. -/
theorem Sound.soFar_all (h : g.Sound) :
    g.soFar registry g.properties.keys g.nodes.keys g.links.values = g.uncounted registry := by
  have hi := h.intact
  have hproperties : (g.properties.map fun p => if p.id ∈ g.properties.keys then p
      else { p with parent := none }) = g.properties := by
    refine (Table.map_congr fun p hp => ?_).trans (Table.map_id _)
    exact if_pos (Table.mem_keys_of_get? (hi.properties.get?_of_mem_values hp))
  have hnodes : (g.nodes.map fun n => if n.id ∈ g.nodes.keys then n
      else { n with inputs := [], outputs := [] }) = g.nodes := by
    refine (Table.map_congr fun n hn => ?_).trans (Table.map_id _)
    exact if_pos (Table.mem_keys_of_get? (hi.nodes.get?_of_mem_values hn))
  have hpins : (g.pins.map fun p => { p with
      links := (g.links.values.filter (·.involves p.id)).map (·.id) }) = g.pins := by
    refine (Table.map_congr fun p hp => ?_).trans (Table.map_id _)
    have hentered := hi.entered (hi.pins.get?_of_mem_values hp)
    rw [linksAt] at hentered
    rw [← hentered]
    rfl
  have hlinks : (⟨g.links.values.map fun l => (l.id, l)⟩ : Table LinkId Link) = g.links :=
    (hi.links.map_eq id).symm.trans (Table.map_id _)
  rw [soFar, hproperties, hnodes, hpins, hlinks]
  rfl

/-- The saved links of a pin are those it has again. -/
theorem Sound.checkLinks_saved (h : g.Sound) (g' : Graph) (hlinks : g'.links = g.links) {p : Pin}
    (hp : p ∈ g.pins.values) :
    checkLinks g' ⟨{ p with links := [] }, p.links.map LinkId.number⟩ = (g', []) := by
  have hback : (p.links.map LinkId.number).map LinkId.mk = p.links := by
    rw [List.map_map]
    exact List.map_id _
  have hnone : p.links.filter (fun id => !(g'.links.get? id).any (·.involves p.id)) = [] := by
    refine List.filter_eq_nil_iff.mpr fun l hl => ?_
    rw [h.intact.entered (h.intact.pins.get?_of_mem_values hp)] at hl
    obtain ⟨link, hlink, hinvolves⟩ := (mem_linksAt_iff h.intact.links).mp hl
    simp [hlinks, hlink, hinvolves]
  simp only [checkLinks, hback, hnone, List.map_nil]

theorem Savable.restoreBinding_saved (hs : g.Savable registry) (g' : Graph)
    (hnodes : g'.nodes = g.nodes) (hproperties : g'.properties = g.properties) (k : NodeId) :
    restoreBinding g' k = (g', []) := by
  rcases restoreBinding_cases g' k with hg | ⟨n, b, p, hn, hb, hp, hno, -⟩
  · exact hg
  · rw [hnodes] at hn
    rw [hproperties] at hno
    exact absurd (hs.bound n (Table.mem_values_of_get? hn) b hb p hp) hno

/-- Items that are restored without a repair, each bringing the graph one item further. -/
theorem restoreEach_eq {α : Type} (restore : Graph → α → Restored) (upTo : List α → Graph)
    (items : List α) (hstep : ∀ done x, x ∈ items → done ++ [x] <+: items →
      restore (upTo done) x = (upTo (done ++ [x]), [])) :
    restoreEach restore items (upTo [], []) = (upTo items, []) := by
  refine restoreEach_steps (Q := fun done r => r = (upTo done, [])) restore items rfl ?_
  rintro done x r hdone rfl
  rw [hstep done x (hdone.subset (by simp)) hdone]
  rfl

/-- Restoring the records of a saved graph restores the graph, without a repair. -/
theorem Sound.restore_records (h : g.Sound) (hs : g.Savable registry) :
    g.records.restore (g.soFar registry [] [] []) =
      (g.uncounted registry, []) := by
  have hi := h.intact
  -- The stages in the order of loading, each from where the one before it stopped.
  have hparents : restoreEach restoreParent g.records.properties (g.soFar registry [] [] [], []) =
      (g.soFar registry g.properties.keys [] [], []) := by
    have hloop := restoreEach_eq restoreParent
      (fun done => g.soFar registry (done.map (·.property.id)) [] []) g.records.properties
      fun done x hx _ => by
        obtain ⟨p, hp, rfl⟩ := List.mem_map.mp hx
        rw [List.map_append]
        exact h.restoreParent_soFar hp
    rw [hi.property_ids_records] at hloop
    exact hloop
  have hpins : restoreEach restorePins g.records.nodes
      (g.soFar registry g.properties.keys [] [], []) =
      (g.soFar registry g.properties.keys g.nodes.keys [], []) := by
    have hloop := restoreEach_eq restorePins
      (fun done => g.soFar registry g.properties.keys (done.map (·.node.id)) [])
      g.records.nodes fun done x hx _ => by
        obtain ⟨n, hn, rfl⟩ := List.mem_map.mp hx
        rw [List.map_append]
        exact h.restorePins_soFar hn
    rw [hi.node_ids_records] at hloop
    exact hloop
  have hlinks : restoreEach restoreLink g.records.links
      (g.soFar registry g.properties.keys g.nodes.keys [], []) =
      (g.uncounted registry, []) := by
    have hloop := restoreEach_eq restoreLink
      (fun done => g.soFar registry g.properties.keys g.nodes.keys done) g.links.values
      fun _ _ _ hdone => h.restoreLink_soFar hdone
    rw [h.soFar_all] at hloop
    exact hloop
  have hchecked := restoreEach_eq checkLinks
    (fun _ => g.uncounted registry) g.records.pins
    fun done x hx _ => by
      obtain ⟨p, hp, rfl⟩ := List.mem_map.mp hx
      exact h.checkLinks_saved (g.uncounted registry) rfl hp
  have hbound := restoreEach_eq restoreBinding
    (fun _ => g.uncounted registry) g.nodes.keys
    fun _ k _ _ => hs.restoreBinding_saved (g.uncounted registry) rfl rfl k
  have horphans : (g.soFar registry g.properties.keys g.nodes.keys []).orphans = [] :=
    h.orphans_soFar
  simp only [Records.restore, hparents, hpins, horphans]
  have hdrop : ∀ r : Restored, restoreEach dropOrphan [] r = r := fun _ => rfl
  rw [hdrop, hlinks, hchecked]
  exact hbound

theorem foldl_max_lt {bound : Nat} (hpos : 0 < bound) {ids : List Nat} (h : ∀ i ∈ ids, i < bound) :
    ids.foldl max 0 + 1 ≤ bound := by
  have hle : ids.foldl max 0 ≤ bound - 1 := by
    refine foldl_max_le ids (Nat.zero_le _) fun i hi => ?_
    have hlt := h i hi
    omega
  omega

/-- A saved graph is loaded as it was, and nothing is left out. -/
theorem Sound.load_toDocument (h : g.Sound) (hs : g.Savable registry) (hpos : 0 < g.nextId) :
    g.toDocument.load registry = .ok ({ g with registry := registry }, []) := by
  have hrestore := h.restore_records hs
  rw [← h.entities_records hs.nextId] at hrestore
  refine load_eq_ok.mpr ⟨Nat.le_refl _, hs.nextId, g.records, h.readAll_toDocument hs, ?_, ?_⟩
  · -- The saved counter is above all ids already, so it is not moved.
    have hids : ∀ i ∈ g.records.ids, i < g.nextId := by
      intro i hi
      exact h.numbered.below i (mem_idsByKind.mp (List.mem_reverse.mp hi))
    have hnext : max g.nextId (g.records.ids.foldl max 0 + 1) = g.nextId :=
      Nat.max_eq_left (foldl_max_lt hpos hids)
    show _ = ({ (g.records.restore (g.records.entities g.name registry)).1 with
      nextId := max g.nextId (g.records.ids.foldl max 0 + 1) } : Graph)
    rw [hrestore, hnext]
    rfl
  · show [] = (g.records.restore (g.records.entities g.name registry)).2
    rw [hrestore]

/-! ## Every graph of a run -/

theorem Starts.nextId_pos (h : g.Starts) : 0 < g.nextId := by
  cases h with
  | new name registry => exact Nat.one_pos
  | loaded h =>
    obtain ⟨-, -, r, -, rfl, -⟩ := load_eq_ok.mp h
    exact Nat.lt_of_lt_of_le (Nat.succ_pos _) (Nat.le_max_right _ _)

/-- A graph that came to be in any way is saved and loaded again as it was, entry for entry and in
    the order of each table, and saved again as before; no reference is left out. -/
theorem saved_graph_loads_again {start : Graph} (hstart : start.Starts)
    (hrun : ∃ commands, (Command.performAll commands start).graph = g) (hs : g.Savable registry) :
    g.toDocument.load registry = .ok ({ g with registry := registry }, []) ∧
      Graph.toDocument { g with registry := registry } = g.toDocument := by
  have hnext : g.nextId < lastNumber := Nat.lt_of_le_of_lt hs.nextId (by decide)
  have hmono : start.nextId ≤ g.nextId := by
    obtain ⟨commands, rfl⟩ := hrun
    exact Edit.Counts.forM perform_counts commands start hnext
  have hids : g.nextId - start.nextId < 0x7fffffffffffffff := by
    have hle := hs.nextId
    have hpos := hstart.nextId_pos
    simp only [maxDocumentId] at hle
    omega
  have hsound : g.Sound := Reaches.sound ⟨hrun, hids⟩ hstart
  exact ⟨hsound.load_toDocument hs (Nat.lt_of_lt_of_le hstart.nextId_pos hmono), rfl⟩

/-- A grouped property behind a variable that feeds a log node. -/
def grouped : Graph :=
  (Command.performAll
    [.createProperty "scene" .flow none, .createProperty "gain" (.float 2) (some ⟨1⟩),
      .addNode (.getVariable none), .bindNode ⟨3⟩ ⟨2⟩, .addNode (.logValue "gain"),
      .createLink ⟨4⟩ ⟨8⟩]
    (Graph.new "grouped" .builtin)).graph

theorem grouped_loads_again :
    grouped.toDocument.load .builtin = .ok ({ grouped with registry := .builtin }, []) := by
  have hbuiltin : ∀ n ∈ grouped.nodes.values, ∀ b ∈ n.behavior, b.isBuiltin = true := by
    decide +kernel
  have hs : grouped.Savable .builtin :=
    { makes := fun n hn b hb => makes_builtin (hbuiltin n hn b hb)
      constants := by decide +kernel
      pins := by decide +kernel
      properties := by decide +kernel
      bound := by decide +kernel
      nextId := by decide +kernel }
  exact (saved_graph_loads_again (.new "grouped" .builtin) ⟨_, rfl⟩ hs).1

end Graph

end FlowGraph
