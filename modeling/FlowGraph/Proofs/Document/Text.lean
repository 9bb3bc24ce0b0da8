import FlowGraph.Document.Text
import FlowGraph.Proofs.Ron.Untyped

/-!
# The text of a saved graph is read back

A graph document that is written as text and read again is the same document: the same records in
the same order, the same keys in the same order, the same values.
-/

namespace FlowGraph

open Ron (Readable ReadsBack)
open Ron.Term (Restorable)

/-! ## Documents -/

namespace Document

/-- A key that is not there yet goes to the end. -/
theorem put_of_not_mem {key : String} {fields : List (String × Json)}
    (h : key ∉ fields.map (·.1)) (v : Json) : put key v fields = fields ++ [(key, v)] := by
  induction fields with
  | nil => rfl
  | cons f fields ih =>
    simp only [List.map_cons, List.mem_cons, not_or] at h
    rw [put, if_neg (Ne.symm h.1), ih h.2, List.cons_append]

theorem foldl_set (rest : List (String × Json)) : ∀ before : List (String × Json),
    ((before ++ rest).map (·.1)).Nodup →
    rest.foldl (fun (d : Document) (key, value) => d.set key value) ⟨before⟩ =
      (⟨before ++ rest⟩ : Document) := by
  induction rest with
  | nil => intro before _; simp
  | cons f rest ih =>
    intro before h
    have hnew : f.1 ∉ before.map (·.1) := by
      intro hmem
      rw [List.map_append, List.nodup_append] at h
      exact h.2.2 _ hmem _ (by simp) rfl
    show rest.foldl _ (⟨put f.1 f.2 before⟩ : Document) = _
    rw [put_of_not_mem hnew, ih _ (by simpa using h), List.append_assoc]
    rfl

/-- Fields with different keys are a document as they stand. -/
theorem ofFields_of_nodup {d : Document} (h : (d.fields.map (·.1)).Nodup) :
    ofFields d.fields = d := by
  rw [ofFields, show ({} : Document) = ⟨[]⟩ from rfl, foldl_set d.fields [] (by simpa using h),
    List.nil_append]

/-- All values in the document. -/
def values (d : Document) : List Json := Json.partsFields d.fields

theorem ofTerm?_toTerm {d : Document} (hkeys : (d.fields.map (·.1)).Nodup)
    (hproper : ∀ v ∈ d.values, v.isProper = true) : ofTerm? d.toTerm = some d := by
  rw [toTerm, ofTerm?, Ron.Term.toEntries?_ofFields d.fields hproper, Option.map_some,
    ofFields_of_nodup hkeys]

theorem readable_toTerm {d : Document} {levels : Nat}
    (hnesting : 2 * Json.nestingFields d.fields ≤ levels)
    (hrestorable : ∀ v ∈ d.values, Restorable v) :
    Readable (levels + 2) d.toTerm := by
  have hentries := Ron.Term.readable_ofFields d.fields hnesting hrestorable
  exact .map (fun e he => (hentries e he).1) (fun e he => (hentries e he).2)

end Document

/-! ## Graphs -/

namespace GraphDocument

/-- All records of the document. -/
def records (d : GraphDocument) : List Document := d.nodes ++ d.pins ++ d.links ++ d.properties

/-- All values in the records. -/
def values (d : GraphDocument) : List Json := d.records.flatMap Document.values

/-- All floats among the values. -/
def floats (d : GraphDocument) : List Float :=
  d.values.filterMap fun
    | .float x => some x
    | _ => none

/-- What holds of every document that is held in memory: the next id has 64 bits, no record has two
    fields with one key, and the values are what untyped values can be. -/
structure IsWellFormed (d : GraphDocument) : Prop where
  nextId_fits : (Ron.IntType.nat 64).holds d.nextId = true
  keys_nodup : ∀ r ∈ d.records, (r.fields.map (·.1)).Nodup
  proper : ∀ v ∈ d.values, v.isProper = true

variable {d : GraphDocument}

/-- Records that are read from their own terms are read from a list of these. -/
theorem readList_map {rs : List Document} (h : ∀ r ∈ rs, Document.ofTerm? r.toTerm = some r) :
    Ron.Term.readList Document.ofTerm? (.list (rs.map Document.toTerm)) = some rs := by
  rw [Ron.Term.readList]
  induction rs with
  | nil => rfl
  | cons r rs ih =>
    rw [List.map_cons, List.mapM_cons, h r List.mem_cons_self,
      ih fun r hr => h r (List.mem_cons_of_mem _ hr)]
    rfl

theorem readNat_int {bits n : Nat} (h : (Ron.IntType.nat bits).holds n = true) :
    Ron.Term.readNat bits (.int n none) = some n := by
  simp [Ron.Term.readNat, Ron.Term.readInt, h]

/-- A version that is not refused fits its field. -/
theorem version_fits (hversion : d.version ≤ documentVersion) :
    (Ron.IntType.nat 32).holds d.version = true := by
  obtain h | h := Nat.le_one_iff_eq_zero_or_eq_one.1 hversion <;> rw [h] <;> decide

theorem mem_records {r : Document} :
    r ∈ d.records ↔ r ∈ d.nodes ∨ r ∈ d.pins ∨ r ∈ d.links ∨ r ∈ d.properties := by
  simp [records]

/-- The term of a document means that document. -/
theorem ofTerm?_toTerm (h : d.IsWellFormed) (hversion : d.version ≤ documentVersion) :
    ofTerm? false d.toTerm = some d := by
  have hrecords : ∀ r ∈ d.records, Document.ofTerm? r.toTerm = some r := by
    intro r hr
    refine Document.ofTerm?_toTerm (h.keys_nodup r hr) fun v hv => h.proper v ?_
    exact List.mem_flatMap.2 ⟨r, hr, hv⟩
  have hnodes := readList_map fun r hr => hrecords r (mem_records.2 (.inl hr))
  have hpins := readList_map fun r hr => hrecords r (mem_records.2 (.inr (.inl hr)))
  have hlinks := readList_map fun r hr => hrecords r (mem_records.2 (.inr (.inr (.inl hr))))
  have hproperties := readList_map fun r hr =>
    hrecords r (mem_records.2 (.inr (.inr (.inr hr))))
  have hversion' : Ron.Term.readNat 32 (.int d.version none) = some d.version :=
    readNat_int (version_fits hversion)
  have hnextId : Ron.Term.readNat 64 (.int d.nextId none) = some d.nextId := readNat_int h.nextId_fits
  simp [ofTerm?, toTerm, Ron.Term.recordFields?, Ron.Term.recordFields?.accepts,
    Ron.Term.field?, Ron.Term.string?, hversion', hnextId, hnodes, hpins, hlinks, hproperties]

theorem nestingFields_le {fields : List (String × Json)} {n : Nat}
    (h : ∀ f ∈ fields, f.2.nesting ≤ n) : Json.nestingFields fields ≤ n := by
  induction fields with
  | nil => exact Nat.zero_le n
  | cons f fields ih =>
    rw [Json.nestingFields]
    exact Nat.max_le.2 ⟨h f List.mem_cons_self, ih fun g hg => h g (List.mem_cons_of_mem _ hg)⟩

/-- The term of a document can be read back.  Of the levels the reader has, the record, the lists
    and the maps take six, and each level of a value two more. -/
theorem readable_toTerm (hnextId : (Ron.IntType.nat 64).holds d.nextId = true)
    (hversion : d.version ≤ documentVersion)
    (hnesting : ∀ r ∈ d.records, ∀ f ∈ r.fields, f.2.nesting ≤ 61)
    (hrestorable : ∀ v ∈ d.values, Restorable v) : Readable Ron.maxDepth d.toTerm := by
  have hrecord : ∀ r ∈ d.records, Readable 124 r.toTerm := by
    intro r hr
    have hfields : 2 * Json.nestingFields r.fields ≤ 122 := by
      have := nestingFields_le (hnesting r hr)
      omega
    exact Document.readable_toTerm hfields fun v hv =>
      hrestorable v (List.mem_flatMap.2 ⟨r, hr, hv⟩)
  have hlist : ∀ rs : List Document, (∀ r ∈ rs, r ∈ d.records) →
      Readable 126 (.list (rs.map Document.toTerm)) := by
    intro rs hrs
    refine .list fun t ht => ?_
    obtain ⟨r, hr, rfl⟩ := List.mem_map.1 ht
    exact hrecord r (hrs r hr)
  have hversionWord : Ron.isWord d.version = true :=
    Ron.isWord_of_nat (by decide) (version_fits hversion)
  have hnextIdWord : Ron.isWord d.nextId = true := Ron.isWord_of_nat (by decide) hnextId
  refine .struct (by decide) (by decide) (by decide) (by simp) ?_ ?_ <;>
    simp only [List.forall_mem_cons, List.not_mem_nil, false_implies, implies_true, and_true]
  · decide
  refine ⟨.int hversionWord, .string _ _, .int hnextIdWord, hlist _ ?_, hlist _ ?_, hlist _ ?_,
    hlist _ ?_⟩ <;> intro r hr <;> simp [mem_records, hr]

/-- A document is read back from its text as it was written: the same records with the same keys in
    the same order, and every value the one it was.  Thirty levels of lists and objects are well
    within what the reader allows; of the library of numbers it is assumed that it reads the floats
    in the document back from their texts. -/
theorem ofText_toText (h : d.IsWellFormed) (hversion : d.version ≤ documentVersion)
    (hnesting : ∀ r ∈ d.records, ∀ f ∈ r.fields, f.2.nesting ≤ 30)
    (hback : ∀ x ∈ d.floats, ReadsBack x) : ofText d.toText = .ok d := by
  have hrestorable : ∀ v ∈ d.values, Restorable v := by
    intro v hv
    refine ⟨h.proper v hv, ?_⟩
    rintro x rfl
    exact hback x (List.mem_filterMap.2 ⟨.float x, hv, rfl⟩)
  have hreadable : Readable Ron.maxDepth d.toTerm :=
    readable_toTerm h.nextId_fits hversion
      (fun r hr f hf => Nat.le_trans (hnesting r hr f hf) (by decide)) hrestorable
  have hparsed := Ron.parse?_toText hreadable
  have hcheck : d.checkVersion = .ok () := by
    rw [checkVersion, if_neg (Nat.not_lt.2 hversion)]
  simp only [ofText, toText, hparsed, Option.bind_some, ofTerm?_toTerm h hversion, hcheck]
  rfl

/-- A document with every kind of value, among them the text of each kind of escape, both zeros, an
    integral float, a long one and empty brackets. -/
def assorted : GraphDocument where
  version := 1
  name := "a \"graph\" — it\x27s \\ \u0000\t\r\n\u001b\u200b"
  nextId := 0xffffffffffffffff
  nodes := [
    ⟨[("id", .int 3), ("type", .string "add"), ("", .null), ("ß: \x7b", .bool true),
      ("state", .object [
        ("empty", .list []),
        ("nested", .list [.list [.object []], .float 0.1, .float (-0.0), .float 0.0]),
        ("z", .bool false)])]⟩]
  pins := [⟨[]⟩, ⟨[("value", .float 1e21), ("other", .int (-9223372036854775808))]⟩]
  properties := [⟨[("b", .float (-12.5)), ("a", .int 18446744073709551615), ("c", .float 3.0)]⟩]

theorem assorted_text_returns : ofText assorted.toText = .ok assorted :=
  ofText_toText ⟨by decide, by decide +kernel, by decide +kernel⟩ (by decide) (by decide +kernel)
    (by decide +kernel)

end GraphDocument

end FlowGraph
