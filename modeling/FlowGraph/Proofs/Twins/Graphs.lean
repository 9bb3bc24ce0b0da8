import FlowGraph.Proofs.Evaluation.Pass
import FlowGraph.Proofs.Evaluation.Pulls

/-!
# Twin graphs

Two graphs are twins if they differ only in what some of their pins hold and in the order in which
the two ends of a link are noted (`Graph.Twin`).  Everything that is looked up in a graph without
looking into a pin is the same in both: a link is never asked for its start or its finish, only for
the end opposite to a given one.  What is written to both alike leaves them twins, and the pin that
was written holds the same in both from then on.
-/

namespace FlowGraph

/-! ## Tables entry by entry -/

namespace Table

variable {κ α : Type} {r : α → α → Prop} {t t' : Table κ α}

/-- The same keys in the same order, with related entries. -/
def Pairs (r : α → α → Prop) (t t' : Table κ α) : Prop :=
  List.Forall₂ (fun e e' => e'.1 = e.1 ∧ r e.2 e'.2) t.entries t'.entries

theorem Pairs.refl (hr : ∀ a, r a a) (t : Table κ α) : t.Pairs r t :=
  List.forall₂_same.mpr fun e _ => ⟨rfl, hr e.2⟩

theorem Pairs.keys (h : t.Pairs r t') : t'.keys = t.keys := by
  obtain ⟨l⟩ := t
  obtain ⟨l'⟩ := t'
  simp only [Pairs, Table.keys] at h ⊢
  induction h with
  | nil => rfl
  | cons he _ ih => rw [List.map_cons, List.map_cons, he.1, ih]

theorem Pairs.values (h : t.Pairs r t') : List.Forall₂ r t.values t'.values := by
  rw [Table.values, Table.values, List.forall₂_map_left_iff, List.forall₂_map_right_iff]
  exact h.imp fun _ _ he => he.2

variable [DecidableEq κ]

theorem Pairs.get? (h : t.Pairs r t') (k : κ) : Option.Rel r (t.get? k) (t'.get? k) := by
  obtain ⟨l⟩ := t
  obtain ⟨l'⟩ := t'
  simp only [Pairs, Table.get?] at h ⊢
  induction h with
  | nil => exact .none
  | @cons e e' _ _ he _ ih =>
    obtain ⟨hkey, ha⟩ := he
    by_cases hk : e.1 = k
    · simpa [find, hkey, hk] using Option.Rel.some ha
    · simpa [find, hkey, hk] using ih

/-- Two tables without repeated keys are equal if they have the same keys and entries. -/
theorem ext_get? (hnodup : t.keys.Nodup) (hkeys : t'.keys = t.keys)
    (h : ∀ k, t'.get? k = t.get? k) : t' = t := by
  have hentry : ∀ {u : Table κ α}, u.keys.Nodup →
      u.entries = u.keys.filterMap fun k => (u.get? k).map fun a => (k, a) := by
    intro u hu
    rw [Table.keys, List.filterMap_map]
    conv_lhs => rw [← List.filterMap_some (l := u.entries)]
    refine List.filterMap_congr fun e he => ?_
    have hget : u.get? e.1 = some e.2 := (get?_eq_some_iff hu e.1 e.2).mpr he
    simp [hget]
  refine Table.ext ?_
  rw [hentry (hkeys ▸ hnodup), hentry hnodup, hkeys]
  simp only [h]

end Table

/-! ## Links the other way round -/

namespace Link

variable {l l' : Link}

def reversed (l : Link) : Link := { l with start := l.finish, finish := l.start }

/-- The same link, perhaps noted the other way round. -/
def Same (l l' : Link) : Prop := l' = l ∨ l' = l.reversed

theorem Same.refl (l : Link) : l.Same l := .inl rfl

theorem Same.symm (h : l.Same l') : l'.Same l := by
  rcases h with rfl | rfl
  · exact .inl rfl
  · exact .inr rfl

theorem Same.id (h : l.Same l') : l'.id = l.id := by
  rcases h with rfl | rfl <;> rfl

/-- A pin sees the same far end. -/
theorem Same.otherEnd? (h : l.Same l') (pin : PinId) : l'.otherEnd? pin = l.otherEnd? pin := by
  rcases h with rfl | rfl
  · rfl
  · by_cases hs : l.start = pin <;> by_cases hf : l.finish = pin <;>
      simp [Link.otherEnd?, reversed, hs, hf]

theorem Same.involves (h : l.Same l') (pin : PinId) : l'.involves pin = l.involves pin := by
  rw [← isSome_otherEnd?, ← isSome_otherEnd?, h.otherEnd?]

end Link

namespace Graph

variable {g g' : Graph} {seen seen' : PinId → Prop}

/-! ## Reading without regard to the order of ends -/

section Turned

variable {ls : Table LinkId Link} (h : g.links.Pairs Link.Same ls)
include h

/-- Whatever is made of a link by way of its far ends. -/
theorem bind_link {β : Type} (l : LinkId) {f f' : Link → Option β}
    (hf : ∀ link link', link.Same link' → f' link' = f link) :
    (ls.get? l).bind f' = (g.links.get? l).bind f := by
  have hrel := h.get? l
  cases hl : g.links.get? l with
  | none =>
    rw [hl] at hrel
    cases hl' : ls.get? l with
    | none => rfl
    | some link' =>
      rw [hl'] at hrel
      cases hrel
  | some link =>
    rw [hl] at hrel
    cases hl' : ls.get? l with
    | none =>
      rw [hl'] at hrel
      cases hrel
    | some link' =>
      rw [hl'] at hrel
      cases hrel with
      | some hsame => exact hf link link' hsame

theorem feedingPin?_turned (p : PinId) :
    ({ g with links := ls } : Graph).feedingPin? p = g.feedingPin? p := by
  unfold feedingPin?
  refine Option.bind_congr fun pin _ => Option.bind_congr fun l _ => ?_
  exact bind_link h l fun link link' hsame => hsame.otherEnd? p

theorem flowSuccessor?_turned (k : NodeId) :
    ({ g with links := ls } : Graph).flowSuccessor? k = g.flowSuccessor? k := by
  unfold flowSuccessor?
  refine Option.bind_congr fun out _ => Option.bind_congr fun pin _ =>
    Option.bind_congr fun l _ => ?_
  refine bind_link h l fun link link' hsame => ?_
  rw [hsame.otherEnd?]

end Turned

/-! ## Twins -/

/-- The graphs are equal but for the contents of pins that are not among those `seen`, and for the
    order of the ends of links. -/
structure Twin (seen : PinId → Prop) (g g' : Graph) : Prop where
  frame : g'.frame = { g.frame with links := g'.links }
  properties : g'.properties = g.properties
  contents : ∀ p, seen p → g'.pins.get? p = g.pins.get? p
  links : g.links.Pairs Link.Same g'.links
  indexed : g.Indexed

namespace Twin

theorem refl (hg : g.Indexed) (seen : PinId → Prop) : g.Twin seen g :=
  ⟨rfl, rfl, fun _ _ => rfl, .refl Link.Same.refl _, hg⟩

/-- Twins as to some pins are twins as to fewer. -/
theorem mono (h : g.Twin seen g') (hsub : ∀ p, seen' p → seen p) : g.Twin seen' g' :=
  ⟨h.frame, h.properties, fun p hp => h.contents p (hsub p hp), h.links, h.indexed⟩

section Reading

variable (h : g.Twin seen g')
include h

theorem nodes : g'.nodes = g.nodes := congrArg (·.nodes) h.frame

theorem pins_blank : g'.pins.map .blank = g.pins.map .blank := congrArg (·.pins) h.frame

theorem pin_keys : g'.pins.keys = g.pins.keys := by
  have hkeys := congrArg Table.keys h.pins_blank
  simpa using hkeys

/-- A pin of the one is a pin of the other, but for what it holds. -/
theorem pin {p : PinId} {pin : Pin} (hp : g.pins.get? p = some pin) :
    ∃ pin', g'.pins.get? p = some pin' ∧ pin'.blank = pin.blank := by
  have heq : (g'.pins.map .blank).get? p = (g.pins.map .blank).get? p := by rw [h.pins_blank]
  rw [Table.get?_map, Table.get?_map, hp] at heq
  exact Option.map_eq_some_iff.mp heq

theorem pin_none {p : PinId} (hp : g.pins.get? p = none) : g'.pins.get? p = none := by
  have heq : (g'.pins.map .blank).get? p = (g.pins.map .blank).get? p := by rw [h.pins_blank]
  rw [Table.get?_map, Table.get?_map, hp] at heq
  exact Option.map_eq_none_iff.mp heq

theorem isPure (k : NodeId) : g'.isPure k = g.isPure k := by
  unfold Graph.isPure
  rw [h.nodes]

theorem valuePin? (k : NodeId) (d : Direction) (i : Nat) :
    g'.valuePin? k d i = g.valuePin? k d i := by
  rw [← valuePin?_frame g', h.frame, ← valuePin?_frame g]
  rfl

theorem feedingPin? (p : PinId) : g'.feedingPin? p = g.feedingPin? p := by
  rw [← feedingPin?_frame g', h.frame, ← feedingPin?_frame g]
  exact feedingPin?_turned (g := g.frame) h.links p

theorem flowSuccessor? (k : NodeId) : g'.flowSuccessor? k = g.flowSuccessor? k := by
  rw [← flowSuccessor?_frame g', h.frame, ← flowSuccessor?_frame g]
  exact flowSuccessor?_turned (g := g.frame) h.links k

theorem indexed' : g'.Indexed where
  nodes := h.nodes ▸ h.indexed.nodes
  pins := h.pin_keys ▸ h.indexed.pins
  properties := h.properties ▸ h.indexed.properties

end Reading

/-! ## Writing to both -/

/-- The pin that both write to holds the same from then on. -/
theorem withValue (h : g.Twin seen g') {p : PinId} {pin : Pin} {v : Value}
    (hp : g.pins.get? p = some pin) (htype : v.type = pin.type) :
    (g.withValue p v).Twin (fun q => seen q ∨ q = p) (g'.withValue p v) := by
  obtain ⟨pin', hp', hblank⟩ := h.pin hp
  obtain ⟨-, -, -, -, -, htype'⟩ := Pin.blank_eq_blank hblank
  have hframe : (g.withValue p v).frame = g.frame := withValue_frame h.indexed hp htype
  have hframe' : (g'.withValue p v).frame = g'.frame :=
    withValue_frame h.indexed' hp' (htype.trans htype'.symm)
  refine ⟨?_, h.properties, fun q hq => ?_, h.links, h.indexed.of_frame hframe⟩
  · rw [hframe, hframe', h.frame]
    rfl
  · simp only [Graph.withValue, Table.get?_modify]
    by_cases hqp : q = p
    · subst hqp
      rw [hp, hp']
      simp only [Option.map_some, if_true]
      rw [Pin.eq_of_blank hblank]
    · rw [h.contents q (hq.resolve_right hqp)]

theorem withProperties (h : g.Twin seen g') (properties : Table PropertyId Property)
    (hkeys : properties.keys.Nodup) :
    Twin seen { g with properties := properties } { g' with properties := properties } where
  frame := congrArg (fun f => { f with properties := properties.map .blank }) h.frame
  properties := rfl
  contents := h.contents
  links := h.links
  indexed := ⟨h.indexed.nodes, h.indexed.pins, hkeys⟩

theorem setBehavior (h : g.Twin seen g') (k : NodeId) (b : Option Behavior) :
    (setBehavior k b g).Twin seen (setBehavior k b g') where
  frame := congrArg (FlowGraph.setBehavior k b) h.frame
  properties := h.properties
  contents := h.contents
  links := h.links
  indexed := setBehavior_indexed h.indexed k b

/-- A value is written to the pin of both graphs, or refused by both for the same reason. -/
theorem setPin_cases (h : g.Twin seen g') (p : PinId) (v : Value) :
    (∃ cause, setPin p v g = ⟨.error cause, g, []⟩ ∧ setPin p v g' = ⟨.error cause, g', []⟩) ∨
    ∃ pin, g.pins.get? p = some pin ∧ v.type = pin.type ∧
      setPin p v g = ⟨.ok (), g.withValue p v, []⟩ ∧
      setPin p v g' = ⟨.ok (), g'.withValue p v, []⟩ := by
  simp only [setPin, Edit.current_bind]
  cases hp : g.pins.get? p with
  | none =>
    rw [h.pin_none hp]
    exact .inl ⟨_, rfl, rfl⟩
  | some pin =>
    obtain ⟨pin', hp', hblank⟩ := h.pin hp
    obtain ⟨-, -, -, -, -, htype⟩ := Pin.blank_eq_blank hblank
    have hcopy : pin'.value.copy v = pin.value.copy v := by
      rw [Value.copy, Value.copy, show pin'.value.type = pin.value.type from htype]
    rw [hp']
    simp only [hcopy]
    cases hv : pin.value.copy v with
    | error cause => exact .inl ⟨_, rfl, rfl⟩
    | ok w =>
      obtain ⟨hsame, rfl⟩ := Value.copy_eq_ok_iff.mp hv
      exact .inr ⟨pin, rfl, hsame, rfl, rfl⟩

/-- A value is written to the property of both graphs, or refused by both for the same reason. -/
theorem setProperty_cases (h : g.Twin seen g') (p : PropertyId) (v : Value) :
    (∃ cause, setProperty p v g = ⟨.error cause, g, []⟩ ∧
      setProperty p v g' = ⟨.error cause, g', []⟩) ∨
    ∃ h₁ h₁', h₁.Twin seen h₁' ∧ h₁.frame = g.frame ∧
      setProperty p v g = ⟨.ok (), h₁, [.announced (.propertyModified p) h₁]⟩ ∧
      setProperty p v g' = ⟨.ok (), h₁', [.announced (.propertyModified p) h₁']⟩ := by
  have hframe := setProperty_frame h.indexed p v
  have hprops : g'.properties.get? p = g.properties.get? p := by rw [h.properties]
  simp only [setProperty, Edit.current_bind, hprops] at hframe ⊢
  cases hp : g.properties.get? p with
  | none => exact .inl ⟨_, rfl, rfl⟩
  | some q =>
    simp only [hp] at hframe ⊢
    cases hv : q.value.copy v with
    | error cause => exact .inl ⟨_, rfl, rfl⟩
    | ok w =>
      simp only [hv] at hframe ⊢
      have htwin := h.withProperties (g.properties.modify p fun q => { q with value := w })
        (by rw [Table.keys_modify]; exact h.indexed.properties)
      refine .inr ⟨_, _, htwin, hframe, rfl, ?_⟩
      rw [← h.properties]
      rfl

end Twin

end Graph

end FlowGraph
