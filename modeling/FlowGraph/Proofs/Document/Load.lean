import FlowGraph.Proofs.Document.Restore

/-!
# Loading a document

Reading makes records that refer to nothing (`Records.Fresh`) under ids that may be taken together,
and restoring makes a sound graph of any such records.  So every document that can be read at all
gives a sound graph (`load_sound`), and what can be refused is only what `load_eq_ok` lists.
-/

namespace FlowGraph

/-! ## All records -/

/-- What reading makes of an entity: nothing refers to anything yet. -/
structure Records.Fresh (r : Records) : Prop where
  properties : ∀ p ∈ r.properties, p.property.parent = none
  nodes : ∀ n ∈ r.nodes, ∃ id name b, n.node = .ofBehavior id name b
  pins : ∀ p ∈ r.pins, p.pin.links = []

theorem nodup_ids {κ α : Type} {number : κ → Nat} {xs : List α} {idOf : α → κ}
    (h : (xs.map fun x => number (idOf x)).Nodup) : (xs.map idOf).Nodup := by
  have hmap : (xs.map idOf).map number = xs.map fun x => number (idOf x) := by
    simp [Function.comp_def]
  exact List.Nodup.of_map number (hmap ▸ h)

variable {r : Records}

theorem Takes.nodup_properties (h : Takes [] r.allIds) :
    (r.properties.map (·.property.id)).Nodup := by
  have hall := h.distinct
  simp only [Records.allIds, List.nodup_append] at hall
  exact nodup_ids hall.1.1.1

theorem Takes.nodup_nodes (h : Takes [] r.allIds) : (r.nodes.map (·.node.id)).Nodup := by
  have hall := h.distinct
  simp only [Records.allIds, List.nodup_append] at hall
  exact nodup_ids hall.1.1.2.1

theorem Takes.nodup_pins (h : Takes [] r.allIds) : (r.pins.map (·.pin.id)).Nodup := by
  have hall := h.distinct
  simp only [Records.allIds, List.nodup_append] at hall
  exact nodup_ids hall.1.2.1

/-- The entities of the records, as tables. -/
theorem entities_eq (h : Takes [] r.allIds) (name : String) (registry : Registry) :
    r.entities name registry =
      { Graph.new name registry with
        properties := ⟨r.properties.map fun p => (p.property.id, p.property)⟩
        nodes := ⟨r.nodes.map fun n => (n.node.id, n.node)⟩
        pins := ⟨r.pins.map fun p => (p.pin.id, p.pin)⟩ } := by
  rw [Records.entities, foldl_insert_eq _ _ h.nodup_properties, foldl_insert_eq _ _ h.nodup_nodes,
    foldl_insert_eq _ _ h.nodup_pins]

/-- The entities alone are a graph to restore. -/
theorem Records.Fresh.loading (hf : r.Fresh) (h : Takes [] r.allIds) (name : String)
    (registry : Registry) :
    (r.entities name registry).Loading
      (r.properties.map (·.property.id.number) ++ r.nodes.map (·.node.id.number) ++
        r.pins.map (·.pin.id.number)) := by
  have hperm : (r.entities name registry).ids.Perm
      (r.properties.map (·.property.id.number) ++ r.nodes.map (·.node.id.number) ++
        r.pins.map (·.pin.id.number)) := by
    rw [entities_eq h, List.append_assoc]
    simp only [Graph.ids, Graph.new, Table.keys, List.map_map, Function.comp_def, List.map_nil,
      List.append_nil]
    exact List.perm_append_comm
  have hdistinct := h.distinct
  rw [Records.allIds] at hdistinct
  rw [entities_eq h] at hperm ⊢
  exact {
    nodes := keyed_of_list NodeRecord.node h.nodup_nodes
    pins := keyed_of_list PinRecord.pin h.nodup_pins
    properties := keyed_of_list PropertyRecord.property h.nodup_properties
    links := rfl
    unlinked := fun {p pin} hp => by
      obtain ⟨x, hx, -, rfl⟩ := mem_of_get?_list hp
      exact hf.pins x hx
    listed := fun {k n} hn {d p} hp => by
      obtain ⟨x, hx, -, rfl⟩ := mem_of_get?_list hn
      obtain ⟨id, name, b, hnode⟩ := hf.nodes x hx
      rw [hnode] at hp
      cases d <;> cases hp
    staffed := by
      refine ⟨fun {k n} hn => ?_⟩
      obtain ⟨x, hx, -, rfl⟩ := mem_of_get?_list hn
      obtain ⟨id, name, b, hnode⟩ := hf.nodes x hx
      rw [hnode]
      exact ⟨b, rfl, rfl, rfl⟩
    grouped := by
      refine .of_parentless fun {a b} hab => ?_
      obtain ⟨p, hp, hparent⟩ := hab
      obtain ⟨x, hx, -, rfl⟩ := mem_of_get?_list hp
      rw [hf.properties x hx] at hparent
      cases hparent
    distinct := hperm.nodup_iff.mpr (List.nodup_append.mp hdistinct).1
    known := fun i hi => hperm.mem_iff.mp hi }

/-- In a list without repetition an entry is none of those before it. -/
theorem not_mem_before {base ids done : List Nat} {i : Nat} (h : (base ++ ids).Nodup)
    (hdone : done ++ [i] <+: ids) : i ∉ done.reverse ++ base := by
  obtain ⟨hbase, hids, hapart⟩ := List.nodup_append.mp h
  have hi : i ∈ ids := hdone.subset (by simp)
  intro hm
  rcases List.mem_append.mp hm with hm | hm
  · have hnodup := hids.sublist hdone.sublist
    exact (List.nodup_append.mp hnodup).2.2 i (List.mem_reverse.mp hm) i (by simp) rfl
  · exact hapart i hm i hi rfl

/-- Whatever the records refer to, the restored graph is sound but for its counter. -/
theorem Records.Fresh.restorable (hf : r.Fresh) (h : Takes [] r.allIds) (name : String)
    (registry : Registry) :
    (r.restore (r.entities name registry)).1.Restorable r.allIds := by
  have hids := h.distinct
  rw [Records.allIds] at hids ⊢
  have hstart := hf.loading h name registry
  generalize r.entities name registry = g at hstart ⊢
  generalize r.properties.map (·.property.id.number) ++ r.nodes.map (·.node.id.number) ++
    r.pins.map (·.pin.id.number) = base at hstart hids ⊢
  have hparents : (restoreEach restoreParent r.properties (g, [])).1.Loading base :=
    restoreEach_keeps restoreParent (fun _ x hq => hq.restoreParent x) _ hstart
  have hnodes : (restoreEach restorePins r.nodes
      (restoreEach restoreParent r.properties (g, []))).1.Loading base :=
    restoreEach_keeps restorePins (fun _ x hq => hq.restorePins x) _ hparents
  simp only [Records.restore]
  generalize restoreEach restorePins r.nodes (restoreEach restoreParent r.properties (g, []))
    = nodes at hnodes ⊢
  have howned : (restoreEach dropOrphan nodes.1.orphans nodes).1.Restorable base :=
    hnodes.dropOrphans nodes.2
  generalize restoreEach dropOrphan nodes.1.orphans nodes = owned at howned ⊢
  -- Each link brings its id with it, which is none of those in use so far.
  have hlinks : (restoreEach restoreLink r.links owned).1.Restorable
      (r.links.map (·.id.number) ++ base) := by
    have hloop := restoreEach_steps (Q := fun done s => s.1.Restorable
      ((done.map (·.id.number)).reverse ++ base)) restoreLink r.links howned
      fun done link s hdone hq => by
        have hsofar : done.map (·.id.number) ++ [link.id.number] <+: r.links.map (·.id.number) := by
          simpa using hdone.map (·.id.number)
        have hnext := hq.restoreLink (not_mem_before hids hsofar)
        rwa [List.map_append, List.reverse_append]
    exact ⟨hloop.intact, hloop.staffed, hloop.grouped, hloop.distinct, fun i hi => by
      simpa using hloop.known i hi⟩
  generalize restoreEach restoreLink r.links owned = linked at hlinks ⊢
  have hchecked : (restoreEach checkLinks r.pins linked).1 = linked.1 :=
    restoreEach_keeps (Q := fun g => g = linked.1) checkLinks (fun _ _ hq => hq) _ rfl
  have hbound := restoreEach_keeps restoreBinding (fun _ x hq => hq.restoreBinding x)
    (restoreEach checkLinks r.pins linked).1.nodes.keys (hchecked ▸ hlinks)
  exact ⟨hbound.intact, hbound.staffed, hbound.grouped, hbound.distinct, fun i hi =>
    List.mem_append.mpr (List.mem_append.mp (hbound.known i hi)).symm⟩

/-! ## The document -/

theorem PropertyRecord.read_fresh {d : Document} {p : PropertyRecord}
    (h : PropertyRecord.read d = .ok p) : p.property.parent = none := by
  simp only [PropertyRecord.read, bind_eq_ok] at h
  obtain ⟨id, -, name, -, value, -, parent, -, h⟩ := h
  cases h
  rfl

theorem NodeRecord.read_fresh {registry : Registry} {d : Document} {n : NodeRecord}
    (h : NodeRecord.read registry d = .ok n) : ∃ id name b, n.node = .ofBehavior id name b := by
  simp only [NodeRecord.read, bind_eq_ok] at h
  obtain ⟨id, -, type, -, b, -, name, -, inputs, -, outputs, -, h⟩ := h
  cases h
  exact ⟨_, _, b, rfl⟩

theorem PinRecord.read_fresh {d : Document} {p : PinRecord} (h : PinRecord.read d = .ok p) :
    p.pin.links = [] := by
  simp only [PinRecord.read, bind_eq_ok] at h
  obtain ⟨id, -, node, -, name, -, direction, -, value, -, links, -, h⟩ := h
  cases h
  rfl

theorem exists_read_of_mem {α : Type} {read : Document → Except DocumentError α}
    {docs : List Document} {xs : List α} (h : List.Forall₂ (fun d x => read d = .ok x) docs xs)
    {x : α} (hx : x ∈ xs) : ∃ d, read d = .ok x := by
  induction h with
  | nil => cases hx
  | cons hd _ ih =>
    rcases List.mem_cons.mp hx with rfl | hx
    · exact ⟨_, hd⟩
    · exact ih hx

theorem readAll_fresh {registry : Registry} {d : GraphDocument}
    (h : d.readAll registry = .ok r) : r.Fresh := by
  obtain ⟨hp, hn, hq, -, -, -⟩ := readAll_eq_ok.mp h
  refine ⟨fun p hm => ?_, fun n hm => ?_, fun p hm => ?_⟩
  · obtain ⟨d, hd⟩ := exists_read_of_mem hp hm
    exact PropertyRecord.read_fresh hd
  · obtain ⟨d, hd⟩ := exists_read_of_mem hn hm
    exact NodeRecord.read_fresh hd
  · obtain ⟨d, hd⟩ := exists_read_of_mem hq hm
    exact PinRecord.read_fresh hd

theorem le_foldl_max (ids : List Nat) :
    ∀ start, start ≤ ids.foldl max start ∧ ∀ i ∈ ids, i ≤ ids.foldl max start := by
  induction ids with
  | nil => exact fun start => ⟨Nat.le_refl _, by simp⟩
  | cons j ids ih =>
    intro start
    obtain ⟨hstart, hids⟩ := ih (max start j)
    refine ⟨Nat.le_trans (Nat.le_max_left start j) hstart, fun i hi => ?_⟩
    rcases List.mem_cons.mp hi with rfl | hi
    · exact Nat.le_trans (Nat.le_max_right start i) hstart
    · exact hids i hi

theorem foldl_max_le {bound : Nat} (ids : List Nat) :
    ∀ {start}, start ≤ bound → (∀ i ∈ ids, i ≤ bound) → ids.foldl max start ≤ bound := by
  induction ids with
  | nil => exact fun h _ => h
  | cons j ids ih =>
    intro start hstart hids
    exact ih (Nat.max_le.mpr ⟨hstart, hids j List.mem_cons_self⟩)
      fun i hi => hids i (List.mem_cons_of_mem j hi)

/-- The counter goes on above all ids, and in the upper half of its range at most. -/
theorem resumeAt_eq_ok {saved next : Nat} {ids : List Nat} (hids : ∀ i ∈ ids, i ≤ maxDocumentId) :
    resumeAt saved ids = .ok next ↔ next = max saved (ids.foldl max 0 + 1) := by
  have hle := foldl_max_le ids (Nat.zero_le maxDocumentId) hids
  have hlast : ids.foldl max 0 < lastNumber := Nat.lt_of_le_of_lt hle (by decide)
  simp only [resumeAt, if_pos hlast, Except.ok.injEq, eq_comm]

theorem checkVersion_eq_ok {d : GraphDocument} :
    d.checkVersion = .ok () ↔ d.version ≤ documentVersion := by
  unfold GraphDocument.checkVersion
  split
  · next h => exact ⟨fun h' => (nomatch h'), fun h' => absurd h (Nat.not_lt.mpr h')⟩
  · next h => exact ⟨fun _ => Nat.not_lt.mp h, fun _ => rfl⟩

/-- Loading succeeds exactly if the version and the counter are in range and all records can be
    read; what they refer to is never a reason to fail. -/
theorem load_eq_ok {registry : Registry} {d : GraphDocument} {g : Graph} {repairs : List Repair} :
    d.load registry = .ok (g, repairs) ↔
      d.version ≤ documentVersion ∧ d.nextId ≤ maxDocumentId ∧ ∃ r,
        d.readAll registry = .ok r ∧
        g = { (r.restore (r.entities d.name registry)).1 with
          nextId := max d.nextId (r.ids.foldl max 0 + 1) } ∧
        repairs = (r.restore (r.entities d.name registry)).2 := by
  have hids : ∀ {r}, d.readAll registry = .ok r → ∀ i ∈ r.ids, i ≤ maxDocumentId := by
    intro r hr i hi
    obtain ⟨-, -, -, -, htakes, heq⟩ := readAll_eq_ok.mp hr
    rw [heq, List.mem_reverse] at hi
    exact htakes.inRange i hi
  by_cases hnext : d.nextId > maxDocumentId
  · constructor
    · intro h
      simp only [GraphDocument.load, bind_eq_ok, if_pos hnext] at h
      obtain ⟨_, -, _, h, -⟩ := h
      cases h
    · rintro ⟨-, hle, -⟩
      exact absurd hnext (Nat.not_lt.mpr hle)
  · simp only [GraphDocument.load, bind_eq_ok, if_neg hnext]
    constructor
    · rintro ⟨⟨⟩, hv, r, hr, next, hresume, h⟩
      rw [resumeAt_eq_ok (hids hr)] at hresume
      cases h
      exact ⟨checkVersion_eq_ok.mp hv, Nat.not_lt.mp hnext, r, hr, by rw [hresume], rfl⟩
    · rintro ⟨hv, -, r, hr, rfl, rfl⟩
      exact ⟨(), checkVersion_eq_ok.mpr hv, r, hr, _, (resumeAt_eq_ok (hids hr)).mpr rfl, rfl⟩

/-- Every graph that can be loaded is sound, whatever the document refers to, and its counter is in
    the lower half of its range. -/
theorem load_sound {registry : Registry} {d : GraphDocument} {g : Graph} {repairs : List Repair}
    (h : d.load registry = .ok (g, repairs)) : g.Sound ∧ g.nextId ≤ maxDocumentId + 1 := by
  obtain ⟨-, hnext, r, hr, rfl, -⟩ := load_eq_ok.mp h
  obtain ⟨-, -, -, -, htakes, hids⟩ := readAll_eq_ok.mp hr
  obtain ⟨hmax, hbelow⟩ := le_foldl_max r.ids 0
  have hle : r.ids.foldl max 0 ≤ maxDocumentId := by
    refine foldl_max_le r.ids (Nat.zero_le _) fun i hi => ?_
    rw [hids, List.mem_reverse] at hi
    exact htakes.inRange i hi
  have hgraph := (readAll_fresh hr).restorable htakes d.name registry
  refine ⟨⟨hgraph.intact.congr rfl rfl rfl rfl, ⟨hgraph.distinct, fun i hi => ?_⟩,
    ⟨hgraph.staffed.staff⟩, hgraph.grouped.congr rfl⟩, ?_⟩
  · have hi : i ∈ r.ids := by
      rw [hids, List.mem_reverse]
      exact hgraph.known i hi
    show i < max d.nextId _
    have := hbelow i hi
    omega
  · show max d.nextId _ ≤ _
    omega

end FlowGraph
