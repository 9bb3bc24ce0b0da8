import FlowGraph.Proofs.Evaluation.Sources

/-!
# Nodes with all their pins

A node that still has every pin its behavior declares has exactly these, in the declared order, so
the value pins its body counts to are there and of the declared types.  The layout a body relies on
is the one for the property as it is now; a variable without a property (`Graph.Unbound`) has no
such layout.
-/

namespace FlowGraph.Graph

variable {g g' : Graph} {k : NodeId}

/-- A variable node without a property, or bound to one that does not exist. -/
def Unbound (g : Graph) (k : NodeId) : Prop :=
  ∃ n p, g.nodes.get? k = some n ∧
    (n.behavior = some (.getVariable p) ∨ n.behavior = some (.setVariable p)) ∧
    ∀ q, p = some q → q ∉ g.properties.keys

/-- The node has every pin its behavior declares, by name, direction and type. -/
def HasDeclaredPins (g : Graph) (k : NodeId) : Prop :=
  ∀ n ∈ g.nodes.get? k, ∀ b ∈ n.behavior, ∀ spec ∈ b.layout g.propertyValue?,
    ∃ pin ∈ g.pinsOf k spec.direction, pin.name = spec.name ∧ pin.type = spec.value.type

instance (g : Graph) (k : NodeId) : Decidable (g.HasDeclaredPins k) :=
  inferInstanceAs (Decidable (∀ n ∈ g.nodes.get? k, ∀ b ∈ n.behavior,
    ∀ spec ∈ b.layout g.propertyValue?, ∃ pin ∈ g.pinsOf k spec.direction,
      pin.name = spec.name ∧ pin.type = spec.value.type))

/-- Built-in layouts name no pin twice on one side. -/
theorem nodup_formsOf_layout {b : Behavior} (hb : b.isBuiltin = true)
    (valueOf : PropertyId → Option Value) (d : Direction) :
    (formsOf (b.layout valueOf) d).Nodup := by
  have hpair : ∀ {a c : String × ValueType}, a.1 ≠ c.1 → [a, c].Nodup := by
    intro a c hac
    simpa using fun heq : a = c => hac (congrArg Prod.fst heq)
  cases b with
  | eventBegin =>
    cases d with
    | input => exact List.nodup_nil
    | output => exact List.nodup_singleton _
  | logValue label => cases d <;> exact hpair (by decide)
  | floatConstant x =>
    cases d with
    | input => exact List.nodup_nil
    | output => exact List.nodup_singleton _
  | arithmetic op =>
    cases d with
    | input => exact hpair (by decide)
    | output => exact List.nodup_singleton _
  | getVariable p =>
    simp only [Behavior.layout]
    split
    · cases d with
      | input => exact List.nodup_nil
      | output => exact List.nodup_singleton _
    · exact List.nodup_nil
  | setVariable p =>
    simp only [Behavior.layout]
    split
    · cases d with
      | input => exact hpair (by simp [PinSpec.flow, PinSpec.input])
      | output => exact hpair (by simp [PinSpec.flow, PinSpec.output])
    · cases d <;> exact List.nodup_singleton _
  | scripted script => cases hb

/-- The layout of a node that is not an unbound variable is fixed by the types of properties. -/
theorem Built.layout_of_not_unbound (h : g.Built) {n : Node} {b : Behavior}
    (hn : g.nodes.get? k = some n) (hb : n.behavior = some b) (hbound : ¬ g.Unbound k)
    {v : Option Value} (hv : ∀ p, b.bound = some p → v.map Value.type = g.typeOf? p)
    (d : Direction) :
    formsOf (b.layoutAs v) d = formsOf (b.layout g.propertyValue?) d := by
  have hvariable : ∀ p, b.bound = p →
      (n.behavior = some (.getVariable p) ∨ n.behavior = some (.setVariable p)) →
      formsOf (b.layoutAs v) d = formsOf (b.layout g.propertyValue?) d := by
    intro p hp hkind
    cases p with
    | none => exact absurd ⟨n, none, hn, hkind, fun q hq => by cases hq⟩ hbound
    | some q =>
      rw [Behavior.layout_eq, hp, Option.bind_some]
      exact formsOf_layoutAs (hv q hp) b d
  have hbuiltin := h.builtin hn hb
  cases b with
  | getVariable p => exact hvariable p rfl (.inl hb)
  | setVariable p => exact hvariable p rfl (.inr hb)
  | scripted script => cases hbuiltin
  | _ => rfl

/-- A node with all its declared pins has these and no others, in order. -/
theorem Built.forms_of_declared (h : g.Built) {n : Node} {b : Behavior}
    (hn : g.nodes.get? k = some n) (hb : n.behavior = some b) (hbound : ¬ g.Unbound k)
    (hall : g.HasDeclaredPins k) (d : Direction) :
    g.forms k d = formsOf (b.layout g.propertyValue?) d := by
  obtain ⟨v, hv, hforms⟩ := h.laid k n b hn hb
  have hsub := hforms d
  rw [h.layout_of_not_unbound hn hb hbound hv d] at hsub
  refine hsub.eq_of_length_le ?_
  refine (nodup_formsOf_layout (h.builtin hn hb) g.propertyValue? d).length_le_of_subset ?_
  intro f hf
  obtain ⟨spec, hspec, rfl⟩ := List.mem_map.mp hf
  obtain ⟨hspec, hd⟩ := List.mem_filter.mp hspec
  obtain ⟨pin, hpin, hname, htype⟩ := hall n hn b hb spec hspec
  rw [decide_eq_true_iff] at hd
  rw [hd] at hpin
  exact List.mem_map.mpr ⟨pin, hpin, by rw [Pin.form, hname, htype]⟩

/-- The forms of the value pins are the forms that are no flow. -/
theorem filter_forms (g : Graph) (ids : List PinId) :
    ((ids.filterMap fun p => (g.pins.get? p).map Pin.form).filter fun f => !f.2.isFlow) =
      (ids.filter fun p => (g.pins.get? p).any (!·.isFlow)).filterMap
        fun p => (g.pins.get? p).map Pin.form := by
  rw [List.filter_filterMap, List.filterMap_filter]
  refine List.filterMap_congr fun p _ => ?_
  cases g.pins.get? p with
  | none => rfl
  | some pin =>
    show Option.filter (fun f => !f.2.isFlow) (some pin.form) =
      if !pin.isFlow then some pin.form else none
    have hflow : pin.form.2.isFlow = pin.isFlow := rfl
    rw [Option.filter_some, hflow]

/-- If nothing is left out, entries keep their places. -/
theorem getElem?_of_filterMap {α β : Type} {f : α → Option β} {xs : List α}
    (h : ∀ x ∈ xs, ∃ b, f x = some b) {i : Nat} {b : β} (hb : (xs.filterMap f)[i]? = some b) :
    ∃ a, xs[i]? = some a ∧ f a = some b := by
  induction xs generalizing i with
  | nil => cases hb
  | cons x xs ih =>
    obtain ⟨c, hc⟩ := h x List.mem_cons_self
    rw [List.filterMap_cons_some hc] at hb
    cases i with
    | zero =>
      rw [List.getElem?_cons_zero] at hb ⊢
      exact ⟨x, rfl, hc.trans hb⟩
    | succ i =>
      rw [List.getElem?_cons_succ] at hb ⊢
      exact ih (fun y hy => h y (List.mem_cons_of_mem x hy)) hb

/-- The value pins of a node are found by counting the forms that are no flow. -/
theorem Intact.valuePin?_of_forms (h : g.Intact) {d : Direction} {i : Nat} {name : String}
    {type : ValueType}
    (hform : ((g.forms k d).filter fun f => !f.2.isFlow)[i]? = some (name, type)) :
    ∃ p pin, g.valuePin? k d i = some p ∧ g.pins.get? p = some pin ∧ pin.type = type := by
  cases hn : g.nodes.get? k with
  | none =>
    rw [forms_of_none hn] at hform
    cases hform
  | some n =>
    rw [forms_eq hn, filter_forms] at hform
    have hkept : ∀ p ∈ (n.pinsOf d).filter fun p => (g.pins.get? p).any (!·.isFlow),
        ∃ f, (g.pins.get? p).map Pin.form = some f := by
      intro p hp
      obtain ⟨pin, hpin, -⟩ := h.listed hn (List.mem_filter.mp hp).1
      exact ⟨pin.form, by rw [hpin]; rfl⟩
    obtain ⟨p, hp, hpform⟩ := getElem?_of_filterMap hkept hform
    obtain ⟨pin, hpin, heq⟩ := Option.map_eq_some_iff.mp hpform
    refine ⟨p, pin, ?_, hpin, congrArg Prod.snd heq⟩
    simp only [Graph.valuePin?, hn, Option.map_some, Option.bind_some]
    exact hp

/-- Values change during an evaluation, their types do not. -/
theorem typed_pin (hf : g'.frame = g.frame) {d : Direction} {i : Nat} {type : ValueType}
    (h : ∃ p pin, g.valuePin? k d i = some p ∧ g.pins.get? p = some pin ∧ pin.type = type) :
    ∃ p pin, g'.valuePin? k d i = some p ∧ g'.pins.get? p = some pin ∧ pin.type = type := by
  obtain ⟨p, pin, hp, hpin, htype⟩ := h
  obtain ⟨pin', hpin', heq⟩ := pin_of_frame hf.symm hpin
  obtain ⟨-, -, -, -, -, hsame⟩ := Pin.blank_eq_blank heq
  refine ⟨p, pin', ?_, hpin', hsame.symm.trans htype⟩
  rw [valuePin?_of_frame hf]
  exact hp

/-- The value pins that the layout of a node declares are there at any time of an evaluation. -/
theorem Built.typed_value (h : g.Built) {n : Node} {b : Behavior} (hn : g.nodes.get? k = some n)
    (hb : n.behavior = some b) (hbound : ¬ g.Unbound k) (hall : g.HasDeclaredPins k)
    (hf : g'.frame = g.frame) {d : Direction} {i : Nat} {name : String} {type : ValueType}
    (hform : ((formsOf (b.layout g.propertyValue?) d).filter fun f => !f.2.isFlow)[i]? =
      some (name, type)) :
    ∃ p pin, g'.valuePin? k d i = some p ∧ g'.pins.get? p = some pin ∧ pin.type = type := by
  rw [← h.forms_of_declared hn hb hbound hall d] at hform
  exact typed_pin hf (h.sound.intact.valuePin?_of_forms hform)

end FlowGraph.Graph
