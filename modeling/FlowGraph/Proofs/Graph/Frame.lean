import FlowGraph.Proofs.Graph.Sound

/-!
# The frame of a graph

The frame is the graph without its contents: of the value of a pin or a property only the type is
left.  Writing a value and evaluating a node leave the frame alone, and what is sound about a graph
is a matter of its frame.  So whatever is proved of the frame once holds before, during and after
every evaluation (`Sound.of_frame`).
-/

namespace FlowGraph

/-- The pin with the first value of its type. -/
def Pin.blank (p : Pin) : Pin := { p with value := .ofType p.type }

def Property.blank (p : Property) : Property := { p with value := .ofType p.type }

theorem Pin.blank_eq_blank {p q : Pin} (h : p.blank = q.blank) :
    p.id = q.id ∧ p.name = q.name ∧ p.direction = q.direction ∧ p.node = q.node ∧
      p.links = q.links ∧ p.type = q.type := by
  have htype : p.blank.value.type = q.blank.value.type := by rw [h]
  simp only [blank, Value.type_ofType] at htype
  simp only [blank, Pin.mk.injEq] at h
  exact ⟨h.1, h.2.1, h.2.2.1, h.2.2.2.1, h.2.2.2.2.2, htype⟩

theorem Property.blank_eq_blank {p q : Property} (h : p.blank = q.blank) :
    p.id = q.id ∧ p.name = q.name ∧ p.parent = q.parent ∧ p.type = q.type := by
  have htype : p.blank.value.type = q.blank.value.type := by rw [h]
  simp only [blank, Value.type_ofType] at htype
  simp only [blank, Property.mk.injEq] at h
  exact ⟨h.1, h.2.1, h.2.2.2, htype⟩

namespace Graph

open Edit

/-- The graph with the contents of its pins and properties blanked out. -/
def frame (g : Graph) : Graph :=
  { g with pins := g.pins.map .blank, properties := g.properties.map .blank }

variable {g g' : Graph}

/-! ## What two graphs of one frame share -/

theorem nodes_of_frame (hf : g'.frame = g.frame) : g'.nodes = g.nodes :=
  congrArg (·.nodes) hf

theorem links_of_frame (hf : g'.frame = g.frame) : g'.links = g.links :=
  congrArg (·.links) hf

theorem nextId_of_frame (hf : g'.frame = g.frame) : g'.nextId = g.nextId :=
  congrArg (·.nextId) hf

theorem pin_keys_of_frame (hf : g'.frame = g.frame) : g'.pins.keys = g.pins.keys := by
  have h : g'.frame.pins.keys = g.frame.pins.keys := by rw [hf]
  simpa [frame] using h

theorem property_keys_of_frame (hf : g'.frame = g.frame) :
    g'.properties.keys = g.properties.keys := by
  have h : g'.frame.properties.keys = g.frame.properties.keys := by rw [hf]
  simpa [frame] using h

/-- A pin is the same pin in both, but for what it holds. -/
theorem pin_of_frame (hf : g'.frame = g.frame) {p : PinId} {pin' : Pin}
    (hp : g'.pins.get? p = some pin') :
    ∃ pin, g.pins.get? p = some pin ∧ pin'.blank = pin.blank := by
  have h : g'.frame.pins.get? p = g.frame.pins.get? p := by rw [hf]
  simp only [frame, Table.get?_map, hp, Option.map_some] at h
  obtain ⟨pin, hpin, heq⟩ := Option.map_eq_some_iff.mp h.symm
  exact ⟨pin, hpin, heq.symm⟩

theorem property_of_frame (hf : g'.frame = g.frame) {p : PropertyId} {q' : Property}
    (hp : g'.properties.get? p = some q') :
    ∃ q, g.properties.get? p = some q ∧ q'.blank = q.blank := by
  have h : g'.frame.properties.get? p = g.frame.properties.get? p := by rw [hf]
  simp only [frame, Table.get?_map, hp, Option.map_some] at h
  obtain ⟨q, hq, heq⟩ := Option.map_eq_some_iff.mp h.symm
  exact ⟨q, hq, heq.symm⟩

theorem linksAt_of_frame (hf : g'.frame = g.frame) (p : PinId) : g'.linksAt p = g.linksAt p := by
  unfold linksAt
  rw [links_of_frame hf]

/-! ## What is sound about a frame -/

theorem keyed_of_map {κ α : Type} {t u : Table κ α} {idOf : α → κ} {f : α → α}
    (hid : ∀ a, idOf (f a) = idOf a) (htu : t.map f = u.map f) (h : u.Keyed idOf) :
    t.Keyed idOf where
  nodup := by
    rw [← t.keys_map f, htu, Table.keys_map]
    exact h.nodup
  id_eq {e} he := by
    have hm : (e.1, f e.2) ∈ (t.map f).entries := List.mem_map.mpr ⟨e, he, rfl⟩
    rw [htu] at hm
    obtain ⟨e', he', heq⟩ := List.mem_map.mp hm
    rw [Prod.mk.injEq] at heq
    rw [← heq.1, ← h.id_eq he', ← hid e.2, ← heq.2, hid]

theorem Intact.of_frame (h : g.Intact) (hf : g'.frame = g.frame) : g'.Intact where
  nodes := by
    rw [nodes_of_frame hf]
    exact h.nodes
  pins := keyed_of_map (f := .blank) (fun _ => rfl) (congrArg (·.pins) hf) h.pins
  links := by
    rw [links_of_frame hf]
    exact h.links
  properties := keyed_of_map (f := .blank) (fun _ => rfl) (congrArg (·.properties) hf) h.properties
  listed {k n} hn {d p} hp := by
    rw [nodes_of_frame hf] at hn
    obtain ⟨pin, hpin, hk, hd⟩ := h.listed hn hp
    obtain ⟨pin', hpin', heq⟩ := pin_of_frame hf.symm hpin
    obtain ⟨-, -, hdir, hnode, -, -⟩ := Pin.blank_eq_blank heq
    exact ⟨pin', hpin', hnode.symm.trans hk, hdir.symm.trans hd⟩
  owned {p pin'} hp := by
    obtain ⟨pin, hpin, heq⟩ := pin_of_frame hf hp
    obtain ⟨-, -, hdir, hnode, -, -⟩ := Pin.blank_eq_blank heq
    rw [nodes_of_frame hf, hnode, hdir]
    exact h.owned hpin
  joined {l link} hl := by
    rw [links_of_frame hf] at hl
    obtain ⟨a, b, ha, hb, hab⟩ := h.joined hl
    obtain ⟨a', ha', heqa⟩ := pin_of_frame hf.symm ha
    obtain ⟨b', hb', heqb⟩ := pin_of_frame hf.symm hb
    obtain ⟨hida, -, hdira, -, -, htypea⟩ := Pin.blank_eq_blank heqa
    obtain ⟨hidb, -, hdirb, -, -, htypeb⟩ := Pin.blank_eq_blank heqb
    refine ⟨a', b', ha', hb', ?_⟩
    rw [Pin.canConnect_iff] at hab ⊢
    rwa [← hida, ← hidb, ← hdira, ← hdirb, ← htypea, ← htypeb]
  entered {p pin'} hp := by
    obtain ⟨pin, hpin, heq⟩ := pin_of_frame hf hp
    obtain ⟨-, -, -, -, hlinks, -⟩ := Pin.blank_eq_blank heq
    rw [hlinks, linksAt_of_frame hf]
    exact h.entered hpin
  fed {p pin'} hp hd := by
    obtain ⟨pin, hpin, heq⟩ := pin_of_frame hf hp
    obtain ⟨-, -, hdir, -, hlinks, -⟩ := Pin.blank_eq_blank heq
    rw [hlinks]
    exact h.fed hpin (hdir.symm.trans hd)

theorem childOf_of_frame (hf : g'.frame = g.frame) {a b : PropertyId} (h : g'.ChildOf a b) :
    g.ChildOf a b := by
  obtain ⟨q', hq', hparent⟩ := h
  obtain ⟨q, hq, heq⟩ := property_of_frame hf hq'
  obtain ⟨-, -, hpar, -⟩ := Property.blank_eq_blank heq
  exact ⟨q, hq, hpar ▸ hparent⟩

theorem Sound.of_frame (h : g.Sound) (hf : g'.frame = g.frame) : g'.Sound where
  intact := h.intact.of_frame hf
  numbered := by
    have hids : g'.ids = g.ids := by
      rw [ids, ids, nodes_of_frame hf, pin_keys_of_frame hf, links_of_frame hf,
        property_keys_of_frame hf]
    exact ⟨hids ▸ h.numbered.distinct, hids ▸ nextId_of_frame hf ▸ h.numbered.below⟩
  staffed := by
    refine ⟨fun {k n} hn => ?_⟩
    rw [nodes_of_frame hf] at hn
    exact h.staffed.staff hn
  grouped := by
    refine ⟨fun hab => ?_, fun a ha => ?_⟩
    · rw [property_keys_of_frame hf]
      exact h.grouped.parents (childOf_of_frame hf hab)
    · exact h.grouped.acyclic a (ha.lift id fun _ _ => childOf_of_frame hf)

/-! ## Writing values -/

/-- No key is repeated in the tables, which is what makes them tables. -/
structure Indexed (g : Graph) : Prop where
  nodes : g.nodes.keys.Nodup
  pins : g.pins.keys.Nodup
  properties : g.properties.keys.Nodup

theorem Intact.indexed (h : g.Intact) : g.Indexed :=
  ⟨h.nodes.nodup, h.pins.nodup, h.properties.nodup⟩

theorem Indexed.of_frame (h : g.Indexed) (hf : g'.frame = g.frame) : g'.Indexed where
  nodes := nodes_of_frame hf ▸ h.nodes
  pins := pin_keys_of_frame hf ▸ h.pins
  properties := property_keys_of_frame hf ▸ h.properties

/-- The outcomes of writing to a pin: it is refused, or the pin holds the value. -/
theorem setPin_cases (id : PinId) (v : Value) (g : Graph) :
    (∃ cause, setPin id v g = ⟨.error cause, g, []⟩ ∧
      ∀ pin, g.pins.get? id = some pin → v.type ≠ pin.type) ∨
    ∃ pin, g.pins.get? id = some pin ∧ v.type = pin.type ∧
      setPin id v g =
        ⟨.ok (), { g with pins := g.pins.modify id fun p => { p with value := v } }, []⟩ := by
  simp only [setPin, current_bind]
  cases hp : g.pins.get? id with
  | none => exact .inl ⟨_, rfl, fun _ h => by cases h⟩
  | some pin =>
    by_cases htype : v.type = pin.type
    · have hcopy : pin.value.copy v = .ok v := if_pos htype
      simp only [hcopy]
      exact .inr ⟨pin, rfl, htype, rfl⟩
    · have hcopy : pin.value.copy v = .error (.typeMismatch pin.type v.type) := if_neg htype
      simp only [hcopy]
      exact .inl ⟨_, rfl, fun q hq => by cases hq; exact htype⟩

theorem setPin_frame (h : g.Indexed) (id : PinId) (v : Value) :
    (setPin id v g).graph.frame = g.frame := by
  rcases setPin_cases id v g with ⟨cause, hg, -⟩ | ⟨pin, hpin, htype, hg⟩
  · rw [hg]
  · have hpins : (g.pins.modify id fun p => { p with value := v }).map .blank =
        g.pins.map .blank := by
      refine Table.ext (Table.map_modify h.pins fun a ha => ?_)
      have haeq : a = pin := Option.some.inj (ha.symm.trans hpin)
      subst haeq
      show { a with value := Value.ofType v.type } = { a with value := Value.ofType a.type }
      rw [htype]
    rw [hg]
    simp only [frame, hpins]

/-- A copy is refused if the source does not exist, and otherwise writes the value of the source. -/
theorem copyPin_eq (source target : PinId) (g : Graph) :
    copyPin source target g =
      match g.pins.get? source with
      | none => ⟨.error (.unknownPin source), g, []⟩
      | some pin => setPin target pin.value g := by
  simp only [copyPin, current_bind]
  cases g.pins.get? source <;> rfl

theorem copyPin_frame (h : g.Indexed) (source target : PinId) :
    (copyPin source target g).graph.frame = g.frame := by
  rw [copyPin_eq]
  cases g.pins.get? source with
  | none => rfl
  | some pin => exact setPin_frame h target pin.value

/-- The outcomes of writing to a property: it is refused, or the property holds the value and the
    observers are told. -/
theorem setProperty_cases (id : PropertyId) (v : Value) (g : Graph) :
    (∃ cause, setProperty id v g = ⟨.error cause, g, []⟩ ∧
      ∀ q, g.properties.get? id = some q → v.type ≠ q.type) ∨
    ∃ q, g.properties.get? id = some q ∧ v.type = q.type ∧ ∃ g',
      g' = { g with properties := g.properties.modify id fun p => { p with value := v } } ∧
      setProperty id v g = ⟨.ok (), g', [.announced (.propertyModified id) g']⟩ := by
  simp only [setProperty, current_bind]
  cases hp : g.properties.get? id with
  | none => exact .inl ⟨_, rfl, fun _ h => by cases h⟩
  | some q =>
    by_cases htype : v.type = q.type
    · have hcopy : q.value.copy v = .ok v := if_pos htype
      simp only [hcopy]
      exact .inr ⟨q, rfl, htype, _, rfl, rfl⟩
    · have hcopy : q.value.copy v = .error (.typeMismatch q.type v.type) := if_neg htype
      simp only [hcopy]
      exact .inl ⟨_, rfl, fun q' hq => by cases hq; exact htype⟩

theorem setProperty_frame (h : g.Indexed) (id : PropertyId) (v : Value) :
    (setProperty id v g).graph.frame = g.frame := by
  rcases setProperty_cases id v g with ⟨cause, hg, -⟩ | ⟨q, hq, htype, g', hg', hg⟩
  · rw [hg]
  · have hprops : (g.properties.modify id fun p => { p with value := v }).map .blank =
        g.properties.map .blank := by
      refine Table.ext (Table.map_modify h.properties fun a ha => ?_)
      have haeq : a = q := Option.some.inj (ha.symm.trans hq)
      subst haeq
      show { a with value := Value.ofType v.type } = { a with value := Value.ofType a.type }
      rw [htype]
    rw [hg, hg']
    simp only [frame, hprops]

end Graph

end FlowGraph
