import FlowGraph.Proofs.Document.Records
import FlowGraph.Proofs.Precision

/-!
# Saved records are read back

What an entity writes into its document is what reading makes of it, up to the references that only
the whole graph can restore.  Two things would get in the way and are excluded: an id above the
highest of a document, and a float that is infinite or not a number, which has no untyped form
(`Value.isFinite`, `Behavior.isFinite`).
-/

namespace FlowGraph

/-! ## Fields -/

namespace Document

variable {d : Document} {key : String} {v : Json}

theorem lookup_cons (k other : String) (w : Json) (rest : List (String × Json)) :
    ((other, w) :: rest).lookup k = if k = other then some w else rest.lookup k := by
  rw [List.lookup_cons]
  by_cases hk : k = other
  · simp [hk]
  · simp [hk, beq_false_of_ne hk]

theorem lookup_put (key k : String) (v : Json) (fields : List (String × Json)) :
    (put key v fields).lookup k = if k = key then some v else fields.lookup k := by
  induction fields with
  | nil => rw [put, lookup_cons]
  | cons field rest ih =>
    obtain ⟨other, w⟩ := field
    rw [put, lookup_cons]
    by_cases ho : other = key
    · rw [if_pos ho, lookup_cons, ho]
      split <;> rfl
    · rw [if_neg ho, lookup_cons, ih]
      by_cases hk : k = key
      · have hne : k ≠ other := fun heq => ho (heq.symm.trans hk)
        rw [if_neg hne, if_pos hk, if_pos hk]
      · rw [if_neg hk, if_neg hk]

@[simp] theorem get?_set (d : Document) (key k : String) (v : Json) :
    (d.set key v).get? k = if k = key then some v else d.get? k := lookup_put key k v d.fields

variable {α : Type} {read : Json → Json.Reading α} {a : α}

theorem require_eq_ok (h : d.get? key = some v) (hr : read v = .ok a) :
    d.require key read = .ok a := by
  simp only [require, h, hr]
  rfl

theorem optional_eq_some (h : d.get? key = some v) (hv : v.isNull = false) (hr : read v = .ok a) :
    d.optional key read = .ok (some a) := by
  unfold optional
  rw [h]
  cases v with
  | null => cases hv
  | _ =>
    simp only [hr]
    rfl

theorem optional_eq_none (h : d.get? key = none) : d.optional key read = .ok none := by
  unfold optional
  rw [h]

end Document

/-! ## Numbers -/

namespace Json

theorem readBetween_nat {high n : Nat} (wanted : Wanted) (h : n ≤ high) :
    readBetween 0 high wanted (.nat n) = .ok n := by
  have hrange : (0 ≤ (n : Int) && (n : Int) ≤ high) = true := by simp [h]
  simp only [readBetween, nat]
  rw [if_pos hrange]

theorem readNat64_nat {n : Nat} (h : n ≤ 0xffffffffffffffff) : readNat64 (.nat n) = .ok n := by
  have hread : readBetween 0 0xffffffffffffffff .nat64 (.nat n) = .ok n := readBetween_nat _ h
  exact congrArg (Except.map Int.toNat) hread

theorem readCount_nat {n : Nat} (h : n ≤ 0xffffffffffffffff) : readCount (.nat n) = .ok n := by
  have hread : readBetween 0 0xffffffffffffffff .count (.nat n) = .ok n := readBetween_nat _ h
  exact congrArg (Except.map Int.toNat) hread

theorem readNats_list {ns : List Nat} (h : ∀ n ∈ ns, n ≤ 0xffffffffffffffff) :
    readNats (.list (ns.map .nat)) = .ok ns := by
  simp only [readNats]
  induction ns with
  | nil => rfl
  | cons n ns ih =>
    have hn := readNat64_nat (h n List.mem_cons_self)
    have hns := ih fun i hi => h i (List.mem_cons_of_mem n hi)
    rw [List.map_cons, List.mapM_cons, hn, hns]
    rfl

variable {x y z w : Float32}

theorem single_eq_float (h : x.isFinite = true) : single x = .float (Number.widen x) :=
  if_pos ((Number.isFinite_widen x).trans h)

theorem readSingle_single (h : x.isFinite = true) : readSingle (single x) = .ok x := by
  rw [single_eq_float h]
  show Except.ok (Number.narrow (Number.widen x)) = _
  rw [Number.narrow_widen h]

theorem readSingles_list (xs : List Float32) (h : ∀ x ∈ xs, x.isFinite = true) :
    readSingles xs.length (.list (xs.map single)) = .ok xs := by
  have hread : (xs.map single).mapM readSingle = .ok xs := by
    induction xs with
    | nil => rfl
    | cons x xs ih =>
      have hx := readSingle_single (h x List.mem_cons_self)
      have hxs := ih fun y hy => h y (List.mem_cons_of_mem x hy)
      rw [List.map_cons, List.mapM_cons, hx, hxs]
      rfl
  have htake : (xs.map single).take xs.length = xs.map single :=
    List.take_of_length_le (Nat.le_of_eq (List.length_map _))
  simp only [readSingles, htake, hread, List.length_map, Nat.lt_irrefl, if_false]
  rfl

end Json

/-! ## Values -/

/-- No float in the value is infinite or not a number. -/
def Value.isFinite : Value → Bool
  | .float x => x.isFinite
  | .float2 x y => x.isFinite && y.isFinite
  | .float3 x y z => x.isFinite && y.isFinite && z.isFinite
  | .float4 x y z w => x.isFinite && y.isFinite && z.isFinite && w.isFinite
  | _ => true

theorem Value.read_toJson {v : Value} (h : v.isFinite = true) : read v.type v.toJson = .ok v := by
  cases v with
  | flow => rfl
  | float x => exact congrArg (Except.map Value.float) (Json.readSingle_single h)
  | float2 x y =>
    simp only [isFinite, Bool.and_eq_true] at h
    have hread := Json.readSingles_list [x, y] (by simp [h])
    exact bind_eq_ok.mpr ⟨_, hread, rfl⟩
  | float3 x y z =>
    simp only [isFinite, Bool.and_eq_true] at h
    have hread := Json.readSingles_list [x, y, z] (by simp [h])
    exact bind_eq_ok.mpr ⟨_, hread, rfl⟩
  | float4 x y z w =>
    simp only [isFinite, Bool.and_eq_true] at h
    have hread := Json.readSingles_list [x, y, z, w] (by simp [h])
    exact bind_eq_ok.mpr ⟨_, hread, rfl⟩
  | int n =>
    have hrange : (-0x80000000 ≤ n.toInt && n.toInt ≤ 0x7fffffff) = true := by
      have hlow := n.le_toInt
      have hhigh := n.toInt_lt
      simp only [Bool.and_eq_true, decide_eq_true_eq]
      omega
    have hread : Json.readBetween (-0x80000000) 0x7fffffff .int32 (.int n.toInt) = .ok n.toInt := by
      rw [Json.readBetween, if_pos hrange]
    show Except.map Value.int (Except.map Int32.ofInt (Json.readBetween _ _ _ (.int n.toInt))) = _
    rw [hread]
    exact congrArg (fun n => Except.ok (Value.int n)) (Int32.ofInt_toInt n)
  | bool b => rfl
  | string s => rfl
  | texture handle =>
    have hread := Json.readNat64_nat (n := handle.toNat) (Nat.le_of_lt_succ handle.toNat_lt)
    show Except.map (fun n => Value.texture (UInt64.ofNat n))
      (Json.readNat64 (.nat handle.toNat)) = _
    rw [hread]
    exact congrArg (fun n => Except.ok (Value.texture n)) (UInt64.ofNat_toNat)

/-- Only a flow has no content to write. -/
theorem Value.isNull_toJson {v : Value} (h : v.isFinite = true) :
    v.toJson.isNull = decide (v = .flow) := by
  cases v with
  | float x =>
    show (Json.single x).isNull = _
    rw [Json.single_eq_float h]
    rfl
  | _ => rfl

/-! ## Values in documents -/

namespace Document

theorem get?_setValue (d : Document) (v : Value) {k : String} (htype : k ≠ "type")
    (hsize : k ≠ "size") (hvalue : k ≠ "value") : (d.setValue v).get? k = d.get? k := by
  unfold setValue
  by_cases hnull : v.toJson.isNull = true
  · simp [hnull, htype, hsize]
  · simp [hnull, htype, hsize, hvalue]

theorem get?_setValue_type (d : Document) (v : Value) :
    (d.setValue v).get? "type" = some (.string v.type.tag) := by
  unfold setValue
  by_cases hnull : v.toJson.isNull = true <;> simp [hnull]

theorem get?_setValue_size (d : Document) (v : Value) :
    (d.setValue v).get? "size" = some (.nat v.type.size) := by
  unfold setValue
  by_cases hnull : v.toJson.isNull = true <;> simp [hnull]

theorem get?_setValue_value {d : Document} {v : Value} (h : v.isFinite = true)
    (hd : d.get? "value" = none) :
    (d.setValue v).get? "value" = if v = .flow then none else some v.toJson := by
  unfold setValue
  rw [Value.isNull_toJson h]
  by_cases hflow : v = .flow <;> simp [hflow, hd]

/-- The fields of a value are enough to read it. -/
theorem readValue_eq_ok {d : Document} {v : Value} (h : v.isFinite = true)
    (htype : d.get? "type" = some (.string v.type.tag))
    (hsize : d.get? "size" = some (.nat v.type.size))
    (hvalue : d.get? "value" = if v = .flow then none else some v.toJson) :
    d.readValue = .ok v := by
  have htag : d.require "type" Json.readString = .ok v.type.tag := require_eq_ok htype rfl
  have hcount : v.type.size ≤ 0xffffffffffffffff := by cases v.type <;> decide
  have hsize' := require_eq_ok hsize (Json.readCount_nat hcount)
  simp only [readValue, htag, hsize', bind, Except.bind, ValueType.ofTag?_tag_size, hvalue]
  by_cases hflow : v = .flow
  · rw [if_pos hflow, hflow]
    rfl
  · rw [if_neg hflow]
    simp only [Value.load, Value.type_ofType, Value.read_toJson h]
    rfl

end Document

/-! ## Links and properties -/

/-- The number can be an id of a document. -/
abbrev IsDocumentId (n : Nat) : Prop := n ≤ maxDocumentId

theorem readNat64_of_isDocumentId {n : Nat} (h : IsDocumentId n) :
    Json.readNat64 (.nat n) = .ok n :=
  Json.readNat64_nat (Nat.le_trans h (by decide))

theorem require_id {d : Document} {key : String} {n : Nat} (h : IsDocumentId n)
    (hd : d.get? key = some (.nat n)) : d.require key Json.readNat64 = .ok n :=
  Document.require_eq_ok hd (readNat64_of_isDocumentId h)

theorem optional_ids {d : Document} {key : String} {ns : List Nat} (h : ∀ n ∈ ns, IsDocumentId n)
    (hd : d.get? key = some (.list (ns.map .nat))) : d.optional key Json.readNats = .ok (some ns) :=
  Document.optional_eq_some hd rfl
    (Json.readNats_list fun n hn => Nat.le_trans (h n hn) (by decide))

theorem Link.read_toDocument {l : Link} (hid : IsDocumentId l.id.number)
    (hstart : IsDocumentId l.start.number) (hfinish : IsDocumentId l.finish.number) :
    Link.read l.toDocument = .ok l := by
  have hid : l.toDocument.require "id" Json.readNat64 = .ok l.id.number := require_id hid rfl
  have hstart : l.toDocument.require "start" Json.readNat64 = .ok l.start.number :=
    require_id hstart rfl
  have hfinish : l.toDocument.require "end" Json.readNat64 = .ok l.finish.number :=
    require_id hfinish rfl
  exact bind_eq_ok.mpr ⟨_, hid, bind_eq_ok.mpr ⟨_, hstart, bind_eq_ok.mpr ⟨_, hfinish, rfl⟩⟩⟩

theorem PropertyRecord.read_toDocument {p : Property} (hid : IsDocumentId p.id.number)
    (hparent : ∀ q, p.parent = some q → IsDocumentId q.number) (h : p.value.isFinite = true) :
    PropertyRecord.read p.toDocument = .ok ⟨{ p with parent := none }, p.parent⟩ := by
  -- The parent comes last and hides no other field.
  have hget : ∀ {k}, k ≠ "parent" → p.toDocument.get? k =
      ((Document.ofFields [("id", .nat p.id.number), ("name", .string p.name)]).setValue
        p.value).get? k := by
    intro k hk
    unfold Property.toDocument
    cases p.parent with
    | none => rfl
    | some q => rw [Document.get?_set, if_neg hk]
  have hfield : ∀ {k}, k ≠ "parent" → k ≠ "type" → k ≠ "size" → k ≠ "value" →
      p.toDocument.get? k =
        (Document.ofFields [("id", .nat p.id.number), ("name", .string p.name)]).get? k := by
    intro k hp ht hs hv
    rw [hget hp, Document.get?_setValue _ _ ht hs hv]
  have hid : p.toDocument.require "id" Json.readNat64 = .ok p.id.number :=
    require_id hid (hfield (by decide) (by decide) (by decide) (by decide))
  have hname : p.toDocument.require "name" Json.readString = .ok p.name :=
    Document.require_eq_ok (hfield (by decide) (by decide) (by decide) (by decide)) rfl
  have hvalue : p.toDocument.readValue = .ok p.value := by
    refine Document.readValue_eq_ok h ?_ ?_ ?_
    · rw [hget (by decide), Document.get?_setValue_type]
    · rw [hget (by decide), Document.get?_setValue_size]
    · rw [hget (by decide), Document.get?_setValue_value h rfl]
  have hparent : p.toDocument.optional "parent" Json.readNat64 =
      .ok (p.parent.map PropertyId.number) := by
    unfold Property.toDocument
    cases hp : p.parent with
    | none =>
      refine Document.optional_eq_none ?_
      rw [Document.get?_setValue _ _ (by decide) (by decide) (by decide)]
      rfl
    | some q =>
      refine Document.optional_eq_some ?_ rfl (readNat64_of_isDocumentId (hparent q hp))
      rw [Document.get?_set, if_pos rfl]
  have hback : (p.parent.map PropertyId.number).map PropertyId.mk = p.parent := by
    cases p.parent <;> rfl
  refine bind_eq_ok.mpr ⟨_, hid, bind_eq_ok.mpr ⟨_, hname, bind_eq_ok.mpr ⟨_, hvalue,
    bind_eq_ok.mpr ⟨_, hparent, ?_⟩⟩⟩⟩
  exact congrArg (fun q => Except.ok (PropertyRecord.mk { p with parent := none } q)) hback

/-! ## Pins -/

theorem PinRecord.read_toDocument {p : Pin} (hid : IsDocumentId p.id.number)
    (hnode : IsDocumentId p.node.number) (hlinks : ∀ l ∈ p.links, IsDocumentId l.number)
    (h : p.value.isFinite = true) :
    PinRecord.read p.toDocument = .ok ⟨{ p with links := [] }, p.links.map LinkId.number⟩ := by
  have hget : ∀ {k}, k ≠ "links" → p.toDocument.get? k =
      ((Document.ofFields [("id", .nat p.id.number), ("name", .string p.name),
        ("direction", p.direction.toJson), ("node", .nat p.node.number)]).setValue
        p.value).get? k := by
    intro k hk
    unfold Pin.toDocument
    rw [Document.get?_set, if_neg hk]
  have hfield : ∀ {k}, k ≠ "links" → k ≠ "type" → k ≠ "size" → k ≠ "value" →
      p.toDocument.get? k =
        (Document.ofFields [("id", .nat p.id.number), ("name", .string p.name),
          ("direction", p.direction.toJson), ("node", .nat p.node.number)]).get? k := by
    intro k hl ht hs hv
    rw [hget hl, Document.get?_setValue _ _ ht hs hv]
  have hid : p.toDocument.require "id" Json.readNat64 = .ok p.id.number :=
    require_id hid (hfield (by decide) (by decide) (by decide) (by decide))
  have hnode : p.toDocument.require "node" Json.readNat64 = .ok p.node.number :=
    require_id hnode (hfield (by decide) (by decide) (by decide) (by decide))
  have hname : p.toDocument.require "name" Json.readString = .ok p.name :=
    Document.require_eq_ok (hfield (by decide) (by decide) (by decide) (by decide)) rfl
  have hdirection : p.toDocument.require "direction" Direction.read = .ok p.direction :=
    Document.require_eq_ok (hfield (by decide) (by decide) (by decide) (by decide))
      (by cases p.direction <;> rfl)
  have hvalue : p.toDocument.readValue = .ok p.value := by
    refine Document.readValue_eq_ok h ?_ ?_ ?_
    · rw [hget (by decide), Document.get?_setValue_type]
    · rw [hget (by decide), Document.get?_setValue_size]
    · rw [hget (by decide), Document.get?_setValue_value h rfl]
  have hlinks : p.toDocument.optional "links" Json.readNats =
      .ok (some (p.links.map LinkId.number)) := by
    refine optional_ids (by simpa using hlinks) ?_
    unfold Pin.toDocument
    rw [Document.get?_set, if_pos rfl, List.map_map]
    rfl
  exact bind_eq_ok.mpr ⟨_, hid, bind_eq_ok.mpr ⟨_, hnode, bind_eq_ok.mpr ⟨_, hname,
    bind_eq_ok.mpr ⟨_, hdirection, bind_eq_ok.mpr ⟨_, hvalue, bind_eq_ok.mpr ⟨_, hlinks, rfl⟩⟩⟩⟩⟩⟩

/-! ## Nodes -/

/-- A constant to save is neither infinite nor not a number. -/
def Behavior.isFinite : Behavior → Bool
  | .floatConstant x => x.isFinite
  | _ => true

/-- The registry makes new behaviors of the kind: of the same built-in kind, or the very same. -/
def Registry.Makes (registry : Registry) (b : Behavior) : Prop :=
  ∃ fresh, registry.behavior? b.kind = some fresh ∧
    (fresh.kind = b.kind ∧ fresh.isBuiltin = true ∧ b.isBuiltin = true ∨ fresh = b)

theorem Behavior.loadState_binding {p : Option PropertyId}
    (hp : ∀ q, p = some q → q.number ≤ lastNumber) (record : String) :
    readBinding record (bindingState p) = .ok p := by
  cases p with
  | none => rfl
  | some q =>
    show Except.map some (Except.map PropertyId.mk (Json.readNat64 (.nat q.number))) = _
    rw [Json.readNat64_nat (hp q rfl)]
    rfl

/-- The behavior without the state it saves. -/
def Behavior.stateless : Behavior → Behavior
  | .logValue _ => .logValue ""
  | .floatConstant _ => .floatConstant 0
  | .getVariable _ => .getVariable none
  | .setVariable _ => .setVariable none
  | b => b

/-- A built-in kind is known by its name. -/
theorem behavior?_builtin {b : Behavior} (h : b.isBuiltin = true) :
    Registry.builtin.behavior? b.kind = some b.stateless := by
  cases b with
  | arithmetic op => cases op <;> rfl
  | scripted script => cases h
  | _ => rfl

/-- The built-in types make all built-in behaviors. -/
theorem makes_builtin {b : Behavior} (h : b.isBuiltin = true) : Registry.builtin.Makes b := by
  refine ⟨b.stateless, behavior?_builtin h, .inl ⟨?_, ?_, h⟩⟩
  · cases b <;> rfl
  · cases b with
    | scripted script => cases h
    | _ => rfl

/-- Two built-in behaviors of one kind differ in their saved state only. -/
theorem Behavior.stateless_eq {a b : Behavior} (hkind : a.kind = b.kind)
    (ha : a.isBuiltin = true) (hb : b.isBuiltin = true) : a.stateless = b.stateless := by
  have hnew := behavior?_builtin ha
  rw [hkind, behavior?_builtin hb] at hnew
  exact (Option.some.inj hnew).symm

/-- A new behavior of the kind takes on the saved state and is the behavior that was saved. -/
theorem Behavior.loadState_saveState {fresh b : Behavior}
    (hsame : fresh.kind = b.kind ∧ fresh.isBuiltin = true ∧ b.isBuiltin = true ∨ fresh = b)
    (hfinite : b.isFinite = true) (hbound : ∀ p, b.bound = some p → p.number ≤ lastNumber) :
    fresh.loadState b.saveState = .ok b := by
  have hstateless : fresh.stateless = b.stateless := by
    rcases hsame with ⟨hkind, hfresh, hb⟩ | rfl
    · exact stateless_eq hkind hfresh hb
    · rfl
  cases b <;> cases fresh <;> simp only [stateless] at hstateless <;> cases hstateless
  case eventBegin => rfl
  case logValue => rfl
  case floatConstant x y =>
    show Except.map floatConstant (Json.readSingle (.single x)) = _
    rw [Json.readSingle_single hfinite]
    rfl
  case arithmetic => rfl
  case getVariable p q =>
    exact congrArg (Except.map getVariable) (loadState_binding hbound "GetVariable")
  case setVariable p q =>
    exact congrArg (Except.map setVariable) (loadState_binding hbound "SetVariable")
  case scripted script =>
    show (if script.state.isNull then _ else _) = _
    split <;> rfl

theorem restore_saved {registry : Registry} {b : Behavior} (hmakes : registry.Makes b)
    (hfinite : b.isFinite = true) (hbound : ∀ p, b.bound = some p → IsDocumentId p.number)
    (id : NodeId) :
    registry.restore id b.kind (if b.saveState.isNull then none else some b.saveState) = .ok b := by
  obtain ⟨fresh, hfresh, hsame⟩ := hmakes
  have hload := Behavior.loadState_saveState hsame hfinite fun p hp =>
    Nat.le_trans (hbound p hp) (by decide)
  unfold Registry.restore
  rw [hfresh]
  by_cases hnull : b.saveState.isNull = true
  · have hsaved : fresh.loadState b.saveState = .ok fresh := if_pos hnull
    rw [hload] at hsaved
    rw [if_pos hnull]
    exact congrArg Except.ok (Except.ok.inj hsaved).symm
  · rw [if_neg hnull]
    simp only [hload]
    rfl

theorem NodeRecord.read_toDocument {registry : Registry} {n : Node} {b : Behavior}
    (hb : n.behavior = some b) (htype : n.type = b.kind) (hflow : n.flow = b.hasFlow)
    (hmakes : registry.Makes b) (hfinite : b.isFinite = true)
    (hbound : ∀ p, b.bound = some p → IsDocumentId p.number) (hid : IsDocumentId n.id.number)
    (hpins : ∀ p ∈ n.pins, IsDocumentId p.number) :
    NodeRecord.read registry n.toDocument =
      .ok ⟨{ n with inputs := [], outputs := [] }, n.inputs.map PinId.number,
        n.outputs.map PinId.number⟩ := by
  have hget : ∀ {k}, k ≠ "state" → n.toDocument.get? k =
      (Document.ofFields [("id", .nat n.id.number), ("type", .string n.type),
        ("name", .string n.name), ("inputs", .list (n.inputs.map fun pin => .nat pin.number)),
        ("outputs", .list (n.outputs.map fun pin => .nat pin.number))]).get? k := by
    intro k hk
    simp only [Node.toDocument, hb, Option.map_some]
    split
    · rfl
    · rw [Document.get?_set, if_neg hk]
  have hstate : n.toDocument.get? "state" =
      if b.saveState.isNull then none else some b.saveState := by
    simp only [Node.toDocument, hb, Option.map_some]
    split
    · rfl
    · rw [Document.get?_set, if_pos rfl]
  have hid : n.toDocument.require "id" Json.readNat64 = .ok n.id.number :=
    require_id hid (hget (by decide))
  have htype' : n.toDocument.require "type" Json.readString = .ok n.type :=
    Document.require_eq_ok (hget (by decide)) rfl
  have hrestore : registry.restore n.id n.type (n.toDocument.get? "state") = .ok b := by
    rw [hstate, htype]
    exact restore_saved hmakes hfinite hbound n.id
  have hname : n.toDocument.optional "name" Json.readString = .ok (some n.name) :=
    Document.optional_eq_some (hget (by decide)) rfl rfl
  have hlist : ∀ {ids : List PinId} {key : String}, (∀ p ∈ ids, p ∈ n.pins) →
      n.toDocument.get? key = some (.list (ids.map fun pin => .nat pin.number)) →
      n.toDocument.optional key Json.readNats = .ok (some (ids.map PinId.number)) := by
    intro ids key hmem hkey
    refine optional_ids (fun i hi => ?_) (by rw [hkey, List.map_map]; rfl)
    obtain ⟨p, hp, rfl⟩ := List.mem_map.mp hi
    exact hpins p (hmem p hp)
  have hinputs : n.toDocument.optional "inputs" Json.readNats =
      .ok (some (n.inputs.map PinId.number)) :=
    hlist (fun p hp => List.mem_append_left _ hp) (hget (by decide))
  have houtputs : n.toDocument.optional "outputs" Json.readNats =
      .ok (some (n.outputs.map PinId.number)) :=
    hlist (fun p hp => List.mem_append_right _ hp) (hget (by decide))
  refine bind_eq_ok.mpr ⟨_, hid, bind_eq_ok.mpr ⟨_, htype', bind_eq_ok.mpr ⟨b, hrestore,
    bind_eq_ok.mpr ⟨_, hname, bind_eq_ok.mpr ⟨_, hinputs, bind_eq_ok.mpr ⟨_, houtputs, ?_⟩⟩⟩⟩⟩⟩
  have hnode : Node.ofBehavior n.id n.name b = { n with inputs := [], outputs := [] } := by
    rw [Node.ofBehavior, ← htype, ← hflow, ← hb]
  exact congrArg (fun m => Except.ok (NodeRecord.mk m (n.inputs.map PinId.number)
    (n.outputs.map PinId.number))) hnode

end FlowGraph
