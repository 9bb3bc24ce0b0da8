import FlowGraph.Proofs.Document.Load
import FlowGraph.Proofs.Document.Saved
import Mathlib.Data.List.Forall2

/-!
# Which documents are accepted

A document is refused for its version, its counter, the ids of its records or a record that is bad
on its own.  What a good record is (`Document.DescribesNode` and its siblings) is said field by
field: what has to be there, what may be, and of which kind.  A field that refers to another entity
only has to hold a number of 64 bits, so a document stays good when such a number is replaced by
another one or whole records are left out (`GraphDocument.Good.repoints`).
-/

namespace FlowGraph

theorem mapError_eq_ok {ε ε' α : Type} {r : Except ε α} {f : ε → ε'} {a : α} :
    r.mapError f = .ok a ↔ r = .ok a := by
  cases r <;> simp [Except.mapError]

/-! ## Good records -/

namespace Document

/-- The field is there and can be read. -/
def Holds {α : Type} (x : Document) (key : String) (read : Json → Json.Reading α) : Prop :=
  ∃ v, x.get? key = some v ∧ ∃ a, read v = .ok a

/-- The field can be read unless it is absent or `null`. -/
def MayHold {α : Type} (x : Document) (key : String) (read : Json → Json.Reading α) : Prop :=
  ∀ v, x.get? key = some v → v = .null ∨ ∃ a, read v = .ok a

/-- The record names a type of values, and its content, if it has one, is of this type. -/
def DescribesValue (x : Document) : Prop :=
  ∃ tag size type, (∃ v, x.get? "type" = some v ∧ Json.readString v = .ok tag) ∧
    (∃ v, x.get? "size" = some v ∧ Json.readCount v = .ok size) ∧
    ValueType.ofTag? tag size = some type ∧
    ∀ v, x.get? "value" = some v → ∃ a, Value.read type v = .ok a

/-- The record names a registered type of nodes, and its state, if it has one, suits this type. -/
def DescribesBehavior (x : Document) (registry : Registry) : Prop :=
  ∃ type fresh, (∃ v, x.get? "type" = some v ∧ Json.readString v = .ok type) ∧
    registry.behavior? type = some fresh ∧
    ∀ v, x.get? "state" = some v → ∃ b, fresh.loadState v = .ok b

structure DescribesProperty (x : Document) : Prop where
  id : x.Holds "id" Json.readNat64
  name : x.Holds "name" Json.readString
  value : x.DescribesValue
  parent : x.MayHold "parent" Json.readNat64

structure DescribesNode (registry : Registry) (x : Document) : Prop where
  id : x.Holds "id" Json.readNat64
  behavior : x.DescribesBehavior registry
  name : x.MayHold "name" Json.readString
  inputs : x.MayHold "inputs" Json.readNats
  outputs : x.MayHold "outputs" Json.readNats

structure DescribesPin (x : Document) : Prop where
  id : x.Holds "id" Json.readNat64
  node : x.Holds "node" Json.readNat64
  name : x.Holds "name" Json.readString
  direction : x.Holds "direction" Direction.read
  value : x.DescribesValue
  links : x.MayHold "links" Json.readNats

structure DescribesLink (x : Document) : Prop where
  id : x.Holds "id" Json.readNat64
  start : x.Holds "start" Json.readNat64
  finish : x.Holds "end" Json.readNat64

/-- The id of a record. -/
def id? (x : Document) : Option Nat := (x.get? "id").bind fun v => (Json.readNat64 v).toOption

variable {x : Document} {key : String}

theorem holds_iff {α : Type} {read : Json → Json.Reading α} :
    x.Holds key read ↔ ∃ a, x.require key read = .ok a := by
  simp only [require_eq_ok_iff]
  exact ⟨fun ⟨v, hv, a, ha⟩ => ⟨a, v, hv, ha⟩, fun ⟨a, v, hv, ha⟩ => ⟨v, hv, a, ha⟩⟩

theorem mayHold_iff {α : Type} {read : Json → Json.Reading α} :
    x.MayHold key read ↔ ∃ a, x.optional key read = .ok a := by
  unfold MayHold optional
  cases x.get? key with
  | none => simp
  | some v =>
    cases v with
    | null => simp
    | bool _ | int _ | float _ | string _ | list _ | object _ =>
      simp only [Option.some.injEq, forall_eq', reduceCtorEq, false_or]
      generalize read _ = r
      cases r <;> simp [Except.mapError, Except.map]

theorem id?_of_require {n : Nat} (h : x.require "id" Json.readNat64 = .ok n) : x.id? = some n := by
  obtain ⟨v, hv, hn⟩ := require_eq_ok_iff.mp h
  simp [id?, hv, hn, Except.toOption]

theorem describesValue_iff : x.DescribesValue ↔ ∃ v, x.readValue = .ok v := by
  simp only [DescribesValue, readValue, bind_eq_ok, ← require_eq_ok_iff]
  constructor
  · rintro ⟨tag, size, type, htag, hsize, htype, hvalue⟩
    cases hv : x.get? "value" with
    | none => exact ⟨_, tag, htag, size, hsize, by simp only [htype]; rfl⟩
    | some v =>
      obtain ⟨a, ha⟩ := hvalue v hv
      refine ⟨a, tag, htag, size, hsize, ?_⟩
      simp only [htype, Value.load, Value.type_ofType, mapError_eq_ok, ha]
  · rintro ⟨a, tag, htag, size, hsize, ha⟩
    cases htype : ValueType.ofTag? tag size with
    | none => simp [htype] at ha
    | some type =>
      refine ⟨tag, size, type, htag, hsize, htype, fun v hv => ⟨a, ?_⟩⟩
      simpa only [htype, hv, Value.load, Value.type_ofType, mapError_eq_ok] using ha

theorem exists_restore_iff {registry : Registry} (id : NodeId) {type : String}
    {state : Option Json} : (∃ b, registry.restore id type state = .ok b) ↔
      ∃ fresh, registry.behavior? type = some fresh ∧
        ∀ v, state = some v → ∃ b, fresh.loadState v = .ok b := by
  unfold Registry.restore
  cases registry.behavior? type with
  | none => simp
  | some fresh =>
    cases state with
    | none => simp
    | some v => simp [mapError_eq_ok]

theorem describesProperty_iff : x.DescribesProperty ↔ ∃ a, PropertyRecord.read x = .ok a := by
  simp only [PropertyRecord.read, bind_eq_ok]
  constructor
  · rintro ⟨hid, hname, hvalue, hparent⟩
    obtain ⟨id, hid⟩ := holds_iff.mp hid
    obtain ⟨name, hname⟩ := holds_iff.mp hname
    obtain ⟨value, hvalue⟩ := describesValue_iff.mp hvalue
    obtain ⟨parent, hparent⟩ := mayHold_iff.mp hparent
    exact ⟨_, id, hid, name, hname, value, hvalue, parent, hparent, rfl⟩
  · rintro ⟨a, id, hid, name, hname, value, hvalue, parent, hparent, -⟩
    exact ⟨holds_iff.mpr ⟨id, hid⟩, holds_iff.mpr ⟨name, hname⟩,
      describesValue_iff.mpr ⟨value, hvalue⟩, mayHold_iff.mpr ⟨parent, hparent⟩⟩

theorem describesNode_iff {registry : Registry} :
    x.DescribesNode registry ↔ ∃ a, NodeRecord.read registry x = .ok a := by
  simp only [NodeRecord.read, bind_eq_ok]
  constructor
  · rintro ⟨hid, ⟨type, fresh, htype, hfresh, hstate⟩, hname, hinputs, houtputs⟩
    obtain ⟨id, hid⟩ := holds_iff.mp hid
    obtain ⟨b, hb⟩ := (exists_restore_iff ⟨id⟩).mpr ⟨fresh, hfresh, hstate⟩
    obtain ⟨name, hname⟩ := mayHold_iff.mp hname
    obtain ⟨inputs, hinputs⟩ := mayHold_iff.mp hinputs
    obtain ⟨outputs, houtputs⟩ := mayHold_iff.mp houtputs
    exact ⟨_, id, hid, type, require_eq_ok_iff.mpr htype, b, hb, name, hname, inputs, hinputs,
      outputs, houtputs, rfl⟩
  · rintro ⟨a, id, hid, type, htype, b, hb, name, hname, inputs, hinputs, outputs, houtputs, -⟩
    obtain ⟨fresh, hfresh, hstate⟩ := (exists_restore_iff _).mp ⟨b, hb⟩
    exact ⟨holds_iff.mpr ⟨id, hid⟩, ⟨type, fresh, require_eq_ok_iff.mp htype, hfresh, hstate⟩,
      mayHold_iff.mpr ⟨name, hname⟩, mayHold_iff.mpr ⟨inputs, hinputs⟩,
      mayHold_iff.mpr ⟨outputs, houtputs⟩⟩

theorem describesPin_iff : x.DescribesPin ↔ ∃ a, PinRecord.read x = .ok a := by
  simp only [PinRecord.read, bind_eq_ok]
  constructor
  · rintro ⟨hid, hnode, hname, hdirection, hvalue, hlinks⟩
    obtain ⟨id, hid⟩ := holds_iff.mp hid
    obtain ⟨node, hnode⟩ := holds_iff.mp hnode
    obtain ⟨name, hname⟩ := holds_iff.mp hname
    obtain ⟨direction, hdirection⟩ := holds_iff.mp hdirection
    obtain ⟨value, hvalue⟩ := describesValue_iff.mp hvalue
    obtain ⟨links, hlinks⟩ := mayHold_iff.mp hlinks
    exact ⟨_, id, hid, node, hnode, name, hname, direction, hdirection, value, hvalue, links,
      hlinks, rfl⟩
  · rintro ⟨a, id, hid, node, hnode, name, hname, direction, hdirection, value, hvalue, links,
      hlinks, -⟩
    exact ⟨holds_iff.mpr ⟨id, hid⟩, holds_iff.mpr ⟨node, hnode⟩, holds_iff.mpr ⟨name, hname⟩,
      holds_iff.mpr ⟨direction, hdirection⟩, describesValue_iff.mpr ⟨value, hvalue⟩,
      mayHold_iff.mpr ⟨links, hlinks⟩⟩

theorem describesLink_iff : x.DescribesLink ↔ ∃ a, Link.read x = .ok a := by
  simp only [Link.read, bind_eq_ok]
  constructor
  · rintro ⟨hid, hstart, hfinish⟩
    obtain ⟨id, hid⟩ := holds_iff.mp hid
    obtain ⟨start, hstart⟩ := holds_iff.mp hstart
    obtain ⟨finish, hfinish⟩ := holds_iff.mp hfinish
    exact ⟨_, id, hid, start, hstart, finish, hfinish, rfl⟩
  · rintro ⟨a, id, hid, start, hstart, finish, hfinish, -⟩
    exact ⟨holds_iff.mpr ⟨id, hid⟩, holds_iff.mpr ⟨start, hstart⟩,
      holds_iff.mpr ⟨finish, hfinish⟩⟩

end Document

/-! ## The id of a record -/

theorem PropertyRecord.id?_of_read {x : Document} {a : PropertyRecord}
    (h : PropertyRecord.read x = .ok a) : x.id? = some a.property.id.number := by
  simp only [PropertyRecord.read, bind_eq_ok] at h
  obtain ⟨id, hid, name, -, value, -, parent, -, h⟩ := h
  cases h
  exact Document.id?_of_require hid

theorem NodeRecord.id?_of_read {registry : Registry} {x : Document} {a : NodeRecord}
    (h : NodeRecord.read registry x = .ok a) : x.id? = some a.node.id.number := by
  simp only [NodeRecord.read, bind_eq_ok] at h
  obtain ⟨id, hid, type, -, b, -, name, -, inputs, -, outputs, -, h⟩ := h
  cases h
  exact Document.id?_of_require hid

theorem PinRecord.id?_of_read {x : Document} {a : PinRecord} (h : PinRecord.read x = .ok a) :
    x.id? = some a.pin.id.number := by
  simp only [PinRecord.read, bind_eq_ok] at h
  obtain ⟨id, hid, node, -, name, -, direction, -, value, -, links, -, h⟩ := h
  cases h
  exact Document.id?_of_require hid

theorem Link.id?_of_read {x : Document} {a : Link} (h : Link.read x = .ok a) :
    x.id? = some a.id.number := by
  simp only [Link.read, bind_eq_ok] at h
  obtain ⟨id, hid, start, -, finish, -, h⟩ := h
  cases h
  exact Document.id?_of_require hid

section Reading

variable {α : Type} {read : Document → Except DocumentError α} {xs : List Document}

/-- Records can be read together if each of them can be read. -/
theorem exists_forall₂_read :
    (∃ as, List.Forall₂ (fun x a => read x = .ok a) xs as) ↔ ∀ x ∈ xs, ∃ a, read x = .ok a := by
  induction xs with
  | nil => exact ⟨fun _ => by simp, fun _ => ⟨[], .nil⟩⟩
  | cons x xs ih =>
    rw [List.forall_mem_cons, ← ih]
    constructor
    · rintro ⟨_, _ | ⟨ha, has⟩⟩
      exact ⟨⟨_, ha⟩, _, has⟩
    · rintro ⟨⟨a, ha⟩, as, has⟩
      exact ⟨a :: as, .cons ha has⟩

theorem filterMap_id? {idOf : α → Nat} (hid : ∀ {x a}, read x = .ok a → x.id? = some (idOf a))
    {as : List α} (h : List.Forall₂ (fun x a => read x = .ok a) xs as) :
    xs.filterMap Document.id? = as.map idOf := by
  induction h with
  | nil => rfl
  | cons ha _ ih => rw [List.filterMap_cons, hid ha, List.map_cons, ih]

end Reading

/-! ## Good documents -/

namespace GraphDocument

/-- The ids of all records. -/
def recordIds (d : GraphDocument) : List Nat :=
  (d.properties ++ d.nodes ++ d.pins ++ d.links).filterMap Document.id?

/-- All that loading asks of a document: nothing about what its references lead to. -/
structure Good (registry : Registry) (d : GraphDocument) : Prop where
  version : d.version ≤ documentVersion
  counter : d.nextId ≤ maxDocumentId
  properties : ∀ x ∈ d.properties, x.DescribesProperty
  nodes : ∀ x ∈ d.nodes, x.DescribesNode registry
  pins : ∀ x ∈ d.pins, x.DescribesPin
  links : ∀ x ∈ d.links, x.DescribesLink
  distinct : d.recordIds.Nodup
  inRange : ∀ i ∈ d.recordIds, i ≤ maxDocumentId

variable {registry : Registry} {d : GraphDocument}

theorem recordIds_eq {r : Records}
    (hproperties : List.Forall₂ (fun x a => PropertyRecord.read x = .ok a) d.properties r.properties)
    (hnodes : List.Forall₂ (fun x a => NodeRecord.read registry x = .ok a) d.nodes r.nodes)
    (hpins : List.Forall₂ (fun x a => PinRecord.read x = .ok a) d.pins r.pins)
    (hlinks : List.Forall₂ (fun x a => Link.read x = .ok a) d.links r.links) :
    d.recordIds = r.allIds := by
  simp only [recordIds, Records.allIds, List.filterMap_append,
    filterMap_id? PropertyRecord.id?_of_read hproperties,
    filterMap_id? NodeRecord.id?_of_read hnodes, filterMap_id? PinRecord.id?_of_read hpins,
    filterMap_id? Link.id?_of_read hlinks]

/-- A document is accepted exactly if it is good. -/
theorem good_iff_load : d.Good registry ↔ ∃ g repairs, d.load registry = .ok (g, repairs) := by
  constructor
  · intro h
    obtain ⟨properties, hproperties⟩ := exists_forall₂_read.mpr fun x hx =>
      Document.describesProperty_iff.mp (h.properties x hx)
    obtain ⟨nodes, hnodes⟩ := exists_forall₂_read.mpr fun x hx =>
      Document.describesNode_iff.mp (h.nodes x hx)
    obtain ⟨pins, hpins⟩ := exists_forall₂_read.mpr fun x hx =>
      Document.describesPin_iff.mp (h.pins x hx)
    obtain ⟨links, hlinks⟩ := exists_forall₂_read.mpr fun x hx =>
      Document.describesLink_iff.mp (h.links x hx)
    have hids : d.recordIds = Records.allIds ⟨properties, nodes, pins, links, d.recordIds.reverse⟩ :=
      recordIds_eq hproperties hnodes hpins hlinks
    have htakes : Takes [] d.recordIds := ⟨h.inRange, by simp, h.distinct⟩
    have hread := readAll_eq_ok.mpr ⟨hproperties, hnodes, hpins, hlinks, hids ▸ htakes,
      congrArg List.reverse hids⟩
    exact ⟨_, _, load_eq_ok.mpr ⟨h.version, h.counter, _, hread, rfl, rfl⟩⟩
  · rintro ⟨g, repairs, h⟩
    obtain ⟨hversion, hcounter, r, hread, -, -⟩ := load_eq_ok.mp h
    obtain ⟨hproperties, hnodes, hpins, hlinks, htakes, -⟩ := readAll_eq_ok.mp hread
    have hids := recordIds_eq hproperties hnodes hpins hlinks
    exact {
      version := hversion
      counter := hcounter
      properties := fun x hx =>
        Document.describesProperty_iff.mpr (exists_forall₂_read.mp ⟨_, hproperties⟩ x hx)
      nodes := fun x hx => Document.describesNode_iff.mpr (exists_forall₂_read.mp ⟨_, hnodes⟩ x hx)
      pins := fun x hx => Document.describesPin_iff.mpr (exists_forall₂_read.mp ⟨_, hpins⟩ x hx)
      links := fun x hx => Document.describesLink_iff.mpr (exists_forall₂_read.mp ⟨_, hlinks⟩ x hx)
      distinct := hids ▸ htakes.distinct
      inRange := hids ▸ htakes.inRange }

end GraphDocument

/-! ## References that lead elsewhere -/

namespace Json

/-- The same value, or any number of 64 bits in place of a number. -/
def Repoints (v v' : Json) : Prop := v = v' ∨ ∃ m n, v = .nat m ∧ v' = .nat n ∧ n ≤ lastNumber

/-- The same value, or a list with some entries replaced. -/
def RepointsEntries (v v' : Json) : Prop :=
  v = v' ∨ ∃ items items', v = .list items ∧ v' = .list items' ∧ List.Forall₂ Repoints items items'

/-- The same state, or one with another property, which is a field by name or the first by
    position. -/
def RepointsProperty (v v' : Json) : Prop :=
  v = v' ∨
  (∃ fields fields', v = .object fields ∧ v' = .object fields' ∧
    Option.Rel Repoints (fields.lookup "property") (fields'.lookup "property") ∧
    ∀ name ≠ "property", fields'.lookup name = fields.lookup name) ∨
  ∃ u u' rest, v = .list (u :: rest) ∧ v' = .list (u' :: rest) ∧ Repoints u u'

/-- What the reader accepts, it accepts after the change as well. -/
def Tolerates {α : Type} (change : Json → Json → Prop) (read : Json → Reading α) : Prop :=
  ∀ v v', change v v' → (∃ a, read v = .ok a) → ∃ a, read v' = .ok a

variable {α : Type} {read : Json → Reading α}

theorem tolerates_eq : Tolerates Eq read := by
  rintro v _ rfl h
  exact h

theorem Tolerates.map {change : Json → Json → Prop} (h : Tolerates change read) {β : Type}
    (f : α → β) : Tolerates change fun v => (read v).map f := by
  rintro v v' hv ⟨b, hb⟩
  cases hr : read v with
  | error e => simp [hr, Except.map] at hb
  | ok a =>
    obtain ⟨a', ha'⟩ := h v v' hv ⟨a, hr⟩
    exact ⟨f a', by simp [ha', Except.map]⟩

/-- A reader of numbers does not care which number it is. -/
theorem tolerates_repoints (hread : ∀ m n : Nat, n ≤ lastNumber → (∃ a, read (.nat m) = .ok a) →
    ∃ a, read (.nat n) = .ok a) : Tolerates Repoints read := by
  rintro v _ (rfl | ⟨m, n, rfl, rfl, hn⟩) h
  · exact h
  · exact hread m n hn h

theorem readNat64_repoints : Tolerates Repoints readNat64 :=
  tolerates_repoints fun _ n hn _ => ⟨n, readNat64_nat hn⟩

theorem readString_repoints : Tolerates Repoints readString :=
  tolerates_repoints fun _ _ _ ⟨_, h⟩ => nomatch h

theorem readSingle_repoints : Tolerates Repoints readSingle :=
  tolerates_repoints fun _ n _ _ => ⟨Float32.ofInt n, rfl⟩

theorem Tolerates.option (h : Tolerates Repoints read) : Tolerates Repoints (readOption read) := by
  rintro v _ (rfl | ⟨m, n, rfl, rfl, hn⟩) hv
  · exact hv
  · exact h.map some (.nat m) (.nat n) (.inr ⟨m, n, rfl, rfl, hn⟩) hv

theorem exists_mapM_iff {items : List Json} :
    (∃ as, items.mapM read = .ok as) ↔ ∀ v ∈ items, ∃ a, read v = .ok a := by
  induction items with
  | nil => exact ⟨fun _ => by simp, fun _ => ⟨[], rfl⟩⟩
  | cons v items ih =>
    rw [List.forall_mem_cons, ← ih]
    simp only [List.mapM_cons, bind_eq_ok]
    constructor
    · rintro ⟨_, a, ha, as, has, -⟩
      exact ⟨⟨a, ha⟩, as, has⟩
    · rintro ⟨⟨a, ha⟩, as, has⟩
      exact ⟨_, a, ha, as, has, rfl⟩

theorem Repoints.null {v : Json} (h : Repoints .null v) : v = .null := by
  rcases h with rfl | ⟨m, n, h, -⟩
  · rfl
  · cases h

theorem RepointsEntries.null {v : Json} (h : RepointsEntries .null v) : v = .null := by
  rcases h with rfl | ⟨items, items', h, -⟩
  · rfl
  · cases h

theorem readNats_repoints : Tolerates RepointsEntries readNats := by
  rintro v _ (rfl | ⟨items, items', rfl, rfl, hitems⟩) h
  · exact h
  · refine exists_mapM_iff.mpr ?_
    replace h := exists_mapM_iff.mp h
    induction hitems with
    | nil => simp
    | cons hv _ ih =>
      rw [List.forall_mem_cons] at h ⊢
      exact ⟨readNat64_repoints _ _ hv h.1, ih h.2⟩

/-- A record of one field can be read as long as what stands in the field can. -/
theorem readRecord_repoints (h : Tolerates Repoints read) (record field : String) (default : α) :
    Tolerates RepointsProperty (readRecord record field default read) := by
  rintro v _ (rfl | ⟨fields, fields', rfl, rfl, hproperty, hother⟩ | ⟨u, u', rest, rfl, rfl, hu⟩) hv
  · exact hv
  · have hfield : Option.Rel Repoints (fields.lookup field) (fields'.lookup field) := by
      by_cases hname : field = "property"
      · rwa [hname]
      · rw [hother field hname]
        cases fields.lookup field with
        | none => exact .none
        | some u => exact .some (.inl rfl)
    simp only [readRecord] at hv ⊢
    revert hv
    generalize fields.lookup field = o at hfield ⊢
    generalize fields'.lookup field = o' at hfield ⊢
    cases hfield with
    | none => exact fun hv => hv
    | some hu => exact h _ _ hu
  · simp only [readRecord, bind_eq_ok] at hv ⊢
    obtain ⟨b, a, ha, hb⟩ := hv
    obtain ⟨a', ha'⟩ := h u u' hu ⟨a, ha⟩
    cases hrest : rest.isEmpty with
    | false => simp [hrest] at hb
    | true => exact ⟨a', a', ha', rfl⟩

theorem RepointsProperty.isNull {v v' : Json} (h : RepointsProperty v v') :
    v'.isNull = v.isNull := by
  rcases h with rfl | ⟨_, _, rfl, rfl, -, -⟩ | ⟨_, _, _, rfl, rfl, -⟩ <;> rfl

end Json

open Json in
/-- A state can be restored whichever property it names. -/
theorem Behavior.loadState_repoints (b : Behavior) : Tolerates RepointsProperty b.loadState := by
  intro v v' h hv
  have hbinding : ∀ record, Tolerates RepointsProperty (readBinding record) := fun record =>
    readRecord_repoints (readNat64_repoints.map PropertyId.mk).option record "property" none
  unfold loadState at hv ⊢
  rw [h.isNull]
  cases hnull : v.isNull with
  | true => exact ⟨b, rfl⟩
  | false =>
    simp only [hnull, Bool.false_eq_true, if_false] at hv ⊢
    cases b with
    | eventBegin | arithmetic _ | scripted _ => exact ⟨_, rfl⟩
    | logValue _ => exact (readRecord_repoints readString_repoints _ _ _).map logValue v v' h hv
    | floatConstant _ =>
      exact (readRecord_repoints readSingle_repoints _ _ _).map floatConstant v v' h hv
    | getVariable _ => exact (hbinding _).map getVariable v v' h hv
    | setVariable _ => exact (hbinding _).map setVariable v v' h hv

/-! ## Records whose references lead elsewhere -/

namespace Document

/-- What a field of the record holds is related to what it holds in the other record. -/
def Changes (change : String → Json → Json → Prop) (x x' : Document) : Prop :=
  ∀ key, Option.Rel (change key) (x.get? key) (x'.get? key)

/-- The parent of a property. -/
def propertyReferences (key : String) : Json → Json → Prop :=
  if key = "parent" then Json.Repoints else Eq

/-- The pins of a node and the property it is bound to. -/
def nodeReferences (key : String) : Json → Json → Prop :=
  if key = "inputs" ∨ key = "outputs" then Json.RepointsEntries
  else if key = "state" then Json.RepointsProperty
  else Eq

/-- The node of a pin and its links. -/
def pinReferences (key : String) : Json → Json → Prop :=
  if key = "node" then Json.Repoints
  else if key = "links" then Json.RepointsEntries
  else Eq

/-- The two ends of a link. -/
def linkReferences (key : String) : Json → Json → Prop :=
  if key = "start" ∨ key = "end" then Json.Repoints else Eq

section Changes

variable {change : String → Json → Json → Prop} {x x' : Document} {key : String}

/-- It is enough to compare the records field by field. -/
theorem Changes.of_fields (h : List.Forall₂ (fun e e' => e'.1 = e.1 ∧ change e.1 e.2 e'.2)
    x.fields x'.fields) : x.Changes change x' := by
  intro key
  obtain ⟨fields⟩ := x
  obtain ⟨fields'⟩ := x'
  simp only [get?] at h ⊢
  induction h with
  | nil => exact .none
  | @cons e e' _ _ he _ ih =>
    obtain ⟨name, v⟩ := e
    obtain ⟨name', v'⟩ := e'
    obtain ⟨hname, hv⟩ : name' = name ∧ change name v v' := he
    subst hname
    rw [lookup_cons, lookup_cons]
    by_cases hkey : key = name'
    · rw [if_pos hkey, if_pos hkey, hkey]
      exact .some hv
    · rw [if_neg hkey, if_neg hkey]
      exact ih

theorem Changes.of_get? (h : x.Changes change x') {v' : Json} (hv' : x'.get? key = some v') :
    ∃ v, x.get? key = some v ∧ change key v v' := by
  have hkey := h key
  rw [hv'] at hkey
  generalize ho : x.get? key = o at hkey
  cases hkey with
  | some hv => exact ⟨_, rfl, hv⟩

theorem Changes.get?_eq (h : x.Changes change x') (heq : change key = Eq) :
    x'.get? key = x.get? key := by
  have hkey := h key
  rw [heq] at hkey
  generalize x.get? key = o at hkey ⊢
  generalize x'.get? key = o' at hkey ⊢
  cases hkey with
  | none => rfl
  | some hv => rw [hv]

variable {α : Type} {read : Json → Json.Reading α}

theorem Changes.holds (h : x.Changes change x') (ht : Json.Tolerates (change key) read)
    (hx : x.Holds key read) : x'.Holds key read := by
  obtain ⟨v, hv, ha⟩ := hx
  have hkey := h key
  rw [hv] at hkey
  generalize ho : x'.get? key = o at hkey
  cases hkey with
  | some hv => exact ⟨_, ho, ht _ _ hv ha⟩

theorem Changes.mayHold (h : x.Changes change x') (ht : Json.Tolerates (change key) read)
    (hnull : ∀ v', change key .null v' → v' = .null) (hx : x.MayHold key read) :
    x'.MayHold key read := by
  intro v' hv'
  obtain ⟨v, hv, hchange⟩ := h.of_get? hv'
  rcases hx v hv with rfl | ha
  · exact .inl (hnull v' hchange)
  · exact .inr (ht v v' hchange ha)

theorem Changes.describesValue (h : x.Changes change x') (htype : change "type" = Eq)
    (hsize : change "size" = Eq) (hvalue : change "value" = Eq) (hx : x.DescribesValue) :
    x'.DescribesValue := by
  rw [DescribesValue, h.get?_eq htype, h.get?_eq hsize, h.get?_eq hvalue]
  exact hx

theorem DescribesProperty.changes (h : x.Changes propertyReferences x')
    (hx : x.DescribesProperty) : x'.DescribesProperty where
  id := h.holds Json.tolerates_eq hx.id
  name := h.holds Json.tolerates_eq hx.name
  value := h.describesValue rfl rfl rfl hx.value
  parent := h.mayHold Json.readNat64_repoints (fun _ => Json.Repoints.null) hx.parent

theorem DescribesNode.changes {registry : Registry} (h : x.Changes nodeReferences x')
    (hx : x.DescribesNode registry) : x'.DescribesNode registry where
  id := h.holds Json.tolerates_eq hx.id
  behavior := by
    obtain ⟨type, fresh, htype, hfresh, hstate⟩ := hx.behavior
    refine ⟨type, fresh, by rwa [h.get?_eq rfl], hfresh, fun v' hv' => ?_⟩
    obtain ⟨v, hv, hchange⟩ := h.of_get? hv'
    exact fresh.loadState_repoints v v' hchange (hstate v hv)
  name := h.mayHold Json.tolerates_eq (fun _ => Eq.symm) hx.name
  inputs := h.mayHold Json.readNats_repoints (fun _ => Json.RepointsEntries.null) hx.inputs
  outputs := h.mayHold Json.readNats_repoints (fun _ => Json.RepointsEntries.null) hx.outputs

theorem DescribesPin.changes (h : x.Changes pinReferences x') (hx : x.DescribesPin) :
    x'.DescribesPin where
  id := h.holds Json.tolerates_eq hx.id
  node := h.holds Json.readNat64_repoints hx.node
  name := h.holds Json.tolerates_eq hx.name
  direction := h.holds Json.tolerates_eq hx.direction
  value := h.describesValue rfl rfl rfl hx.value
  links := h.mayHold Json.readNats_repoints (fun _ => Json.RepointsEntries.null) hx.links

theorem DescribesLink.changes (h : x.Changes linkReferences x') (hx : x.DescribesLink) :
    x'.DescribesLink where
  id := h.holds Json.tolerates_eq hx.id
  start := h.holds Json.readNat64_repoints hx.start
  finish := h.holds Json.readNat64_repoints hx.finish

/-- The records of a section where some were left out and the others changed. -/
def Thinned (change : String → Json → Json → Prop) (xs xs' : List Document) : Prop :=
  ∃ kept, kept.Sublist xs ∧ List.Forall₂ (Changes change) kept xs'

variable {xs xs' : List Document}

theorem Thinned.forall {P : Document → Prop} (h : Thinned change xs xs')
    (hP : ∀ {x x'}, x.Changes change x' → P x → P x') (hxs : ∀ x ∈ xs, P x) : ∀ x' ∈ xs', P x' := by
  obtain ⟨kept, hkept, hchanges⟩ := h
  replace hxs : ∀ x ∈ kept, P x := fun x hx => hxs x (hkept.subset hx)
  clear hkept
  induction hchanges with
  | nil => simp
  | cons hx _ ih =>
    rw [List.forall_mem_cons] at hxs ⊢
    exact ⟨hP hx hxs.1, ih hxs.2⟩

theorem Thinned.ids (h : Thinned change xs xs') (hid : change "id" = Eq) :
    (xs'.filterMap id?).Sublist (xs.filterMap id?) := by
  obtain ⟨kept, hkept, hchanges⟩ := h
  have hsame : xs'.filterMap id? = kept.filterMap id? := by
    clear hkept
    induction hchanges with
    | nil => rfl
    | cons hx _ ih => simp only [List.filterMap_cons, id?, hx.get?_eq hid, ih]
  rw [hsame]
  exact hkept.filterMap id?

end Changes

end Document

namespace GraphDocument

/-- Any records are left out, and any references of the others lead elsewhere. -/
structure Repoints (d d' : GraphDocument) : Prop where
  version : d'.version = d.version
  name : d'.name = d.name
  nextId : d'.nextId = d.nextId
  properties : Document.Thinned Document.propertyReferences d.properties d'.properties
  nodes : Document.Thinned Document.nodeReferences d.nodes d'.nodes
  pins : Document.Thinned Document.pinReferences d.pins d'.pins
  links : Document.Thinned Document.linkReferences d.links d'.links

variable {registry : Registry} {d d' : GraphDocument}

theorem Repoints.recordIds (h : d.Repoints d') : d'.recordIds.Sublist d.recordIds := by
  simp only [GraphDocument.recordIds, List.filterMap_append]
  exact (((h.properties.ids rfl).append (h.nodes.ids rfl)).append (h.pins.ids rfl)).append
    (h.links.ids rfl)

theorem Good.repoints (hd : d.Good registry) (h : d.Repoints d') : d'.Good registry where
  version := h.version ▸ hd.version
  counter := h.nextId ▸ hd.counter
  properties := h.properties.forall Document.DescribesProperty.changes hd.properties
  nodes := h.nodes.forall Document.DescribesNode.changes hd.nodes
  pins := h.pins.forall Document.DescribesPin.changes hd.pins
  links := h.links.forall Document.DescribesLink.changes hd.links
  distinct := hd.distinct.sublist h.recordIds
  inRange i hi := hd.inRange i (h.recordIds.subset hi)

end GraphDocument

/-- A document is accepted exactly if it is good: what its references lead to is never asked.  So an
    accepted document is still accepted when records are left out or references lead elsewhere. -/
theorem only_bad_records_are_refused (registry : Registry) (d : GraphDocument) :
    ((∃ g repairs, d.load registry = .ok (g, repairs)) ↔ d.Good registry) ∧
    ∀ d', (∃ g repairs, d.load registry = .ok (g, repairs)) → d.Repoints d' →
      ∃ g repairs, d'.load registry = .ok (g, repairs) := by
  refine ⟨GraphDocument.good_iff_load.symm, fun d' hd h => ?_⟩
  exact GraphDocument.good_iff_load.mp ((GraphDocument.good_iff_load.mpr hd).repoints h)

/-- A document with a record of each kind, whose references all lead to one number. -/
def pointing (n : Nat) : GraphDocument where
  properties := [⟨[("id", .nat 1), ("name", .string "speed"), ("type", .string "float"),
    ("size", .nat 1), ("parent", .nat n)]⟩]
  nodes := [⟨[("id", .nat 2), ("type", .string "get_variable"), ("outputs", .list [.nat n]),
    ("state", .object [("property", .nat n)])]⟩]
  pins := [⟨[("id", .nat 3), ("name", .string "Value"), ("direction", .string "Output"),
    ("node", .nat n), ("type", .string "float"), ("size", .nat 1), ("links", .list [.nat n])]⟩]
  links := [⟨[("id", .nat 4), ("start", .nat n), ("end", .nat n)]⟩]

theorem pointing_repoints {m n : Nat} (hn : n ≤ lastNumber) :
    (pointing m).Repoints { pointing n with properties := [] } := by
  have hnumber : Json.Repoints (.nat m) (.nat n) := .inr ⟨m, n, rfl, rfl, hn⟩
  have hentries : Json.RepointsEntries (.list [.nat m]) (.list [.nat n]) :=
    .inr ⟨_, _, rfl, rfl, .cons hnumber .nil⟩
  exact {
    version := rfl
    name := rfl
    nextId := rfl
    properties := ⟨[], List.nil_sublist _, .nil⟩
    nodes := ⟨_, .refl _, .cons (.of_fields (.cons ⟨rfl, rfl⟩ (.cons ⟨rfl, rfl⟩
      (.cons ⟨rfl, hentries⟩ (.cons ⟨rfl, .inr (.inl ⟨_, _, rfl, rfl, .some hnumber,
        fun name hname => by simp [Document.lookup_cons, hname]⟩)⟩ .nil))))) .nil⟩
    pins := ⟨_, .refl _, .cons (.of_fields (.cons ⟨rfl, rfl⟩ (.cons ⟨rfl, rfl⟩ (.cons ⟨rfl, rfl⟩
      (.cons ⟨rfl, hnumber⟩ (.cons ⟨rfl, rfl⟩ (.cons ⟨rfl, rfl⟩
        (.cons ⟨rfl, hentries⟩ .nil)))))))) .nil⟩
    links := ⟨_, .refl _, .cons (.of_fields (.cons ⟨rfl, rfl⟩ (.cons ⟨rfl, hnumber⟩
      (.cons ⟨rfl, hnumber⟩ .nil)))) .nil⟩ }

theorem pointing_nowhere_is_accepted :
    (pointing 1).Good .builtin ∧
      (pointing 1).Repoints { pointing lastNumber with properties := [] } ∧
      ∃ g repairs, GraphDocument.load .builtin { pointing lastNumber with properties := [] } =
        .ok (g, repairs) := by
  have hload : ∃ g repairs, (pointing 1).load .builtin = .ok (g, repairs) := ⟨_, _, rfl⟩
  have hrepoints := pointing_repoints (m := 1) (Nat.le_refl lastNumber)
  obtain ⟨hgood, hstill⟩ := only_bad_records_are_refused .builtin (pointing 1)
  exact ⟨hgood.mp hload, hrepoints, hstill _ hload hrepoints⟩

end FlowGraph
