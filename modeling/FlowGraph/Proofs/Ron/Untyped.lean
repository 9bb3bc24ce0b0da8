import FlowGraph.Proofs.Ron.Terms

/-!
# Untyped values as terms

Which untyped values come back from the terms they are written as, and which of these terms come
back from their text.  Each level of lists and objects costs the reader of terms two levels.
-/

namespace FlowGraph.Json

/-! ## Shape of a value -/

mutual

/-- How deep lists and objects nest. -/
def nesting : Json → Nat
  | .list items => nestingItems items + 1
  | .object fields => nestingFields fields + 1
  | _ => 0

def nestingItems : List Json → Nat
  | [] => 0
  | v :: rest => max (nesting v) (nestingItems rest)

def nestingFields : List (String × Json) → Nat
  | [] => 0
  | (_, v) :: rest => max (nesting v) (nestingFields rest)

end

mutual

/-- A value and all values in it. -/
def parts : Json → List Json
  | .list items => .list items :: partsItems items
  | .object fields => .object fields :: partsFields fields
  | v => [v]

def partsItems : List Json → List Json
  | [] => []
  | v :: rest => parts v ++ partsItems rest

def partsFields : List (String × Json) → List Json
  | [] => []
  | (_, v) :: rest => parts v ++ partsFields rest

end

/-- What a single value has to be to stand in a document: an integer of 64 bits, a finite float, or
    an object whose fields stand in the order of their names. -/
def isProper : Json → Bool
  | .int n => Ron.isWord n
  | .float x => Number.isFinite x
  | .object fields => decide ((fields.map (·.1)).Pairwise (· < ·))
  | _ => true

/-! ## Objects -/

/-- A field whose name comes after all others goes to the end. -/
theorem insertField_last {name : String} {fields : List (String × Json)}
    (h : ∀ f ∈ fields, f.1 < name) (v : Json) :
    insertField name v fields = fields ++ [(name, v)] := by
  induction fields with
  | nil => rfl
  | cons f fields ih =>
    have hlt : f.1 < name := h f List.mem_cons_self
    have hne : name ≠ f.1 := by
      rintro rfl
      exact String.lt_irrefl _ hlt
    rw [insertField, if_neg hne, if_neg (String.lt_asymm hlt),
      ih fun g hg => h g (List.mem_cons_of_mem _ hg), List.cons_append]

theorem foldl_insertField (rest : List (String × Json)) : ∀ before : List (String × Json),
    ((before ++ rest).map (·.1)).Pairwise (· < ·) →
    rest.foldl (fun acc (name, value) => insertField name value acc) before = before ++ rest := by
  induction rest with
  | nil => intro before _; simp
  | cons f rest ih =>
    intro before h
    have hlast : ∀ g ∈ before, g.1 < f.1 := by
      intro g hg
      rw [List.map_append, List.pairwise_append] at h
      exact h.2.2 _ (List.mem_map_of_mem hg) _ (by simp)
    show rest.foldl _ (insertField f.1 f.2 before) = _
    rw [insertField_last hlast, ih _ (by simpa using h), List.append_assoc]
    rfl

/-- Fields in the order of their names are an object as they stand. -/
theorem ofFields_of_pairwise {fields : List (String × Json)}
    (h : (fields.map (·.1)).Pairwise (· < ·)) : ofFields fields = .object fields := by
  rw [ofFields, foldl_insertField fields [] (by simpa using h), List.nil_append]

end FlowGraph.Json

namespace FlowGraph.Ron.Term

open Json (parts partsItems partsFields nesting nestingItems nestingFields)

/-! ## Values from terms -/

mutual

/-- An untyped value is what its term means. -/
theorem toJson?_ofJson : ∀ v : Json, (∀ p ∈ parts v, p.isProper = true) →
    toJson? (ofJson v) = some v
  | .null, _ => rfl
  | .bool _, _ => rfl
  | .int _, _ => rfl
  | .float x, h => by
    have hfinite : Number.isFinite x = true := h (.float x) (by simp [parts])
    simp [ofJson, toJson?, Json.double, hfinite]
  | .string _, _ => rfl
  | .list items, h => by
    have hitems := toJsons?_ofJsons items fun p hp => h p (by simp [parts, hp])
    rw [ofJson, toJson?, hitems, Option.map_some]
  | .object fields, h => by
    have hfields := toEntries?_ofFields fields fun p hp => h p (by simp [parts, hp])
    have hsorted : (Json.object fields).isProper = true := h _ (by simp [parts])
    rw [ofJson, toJson?, hfields, Option.map_some,
      Json.ofFields_of_pairwise (by simpa [Json.isProper] using hsorted)]

theorem toJsons?_ofJsons : ∀ items : List Json, (∀ p ∈ partsItems items, p.isProper = true) →
    toJsons? (ofJsons items) = some items
  | [], _ => rfl
  | v :: rest, h => by
    have hv := toJson?_ofJson v fun p hp => h p (by simp [partsItems, hp])
    have hrest := toJsons?_ofJsons rest fun p hp => h p (by simp [partsItems, hp])
    simp [ofJsons, toJsons?, hv, hrest]

theorem toEntries?_ofFields : ∀ fields : List (String × Json),
    (∀ p ∈ partsFields fields, p.isProper = true) →
    toEntries? (ofFields fields) = some fields
  | [], _ => rfl
  | (key, v) :: rest, h => by
    have hv := toJson?_ofJson v fun p hp => h p (by simp [partsFields, hp])
    have hrest := toEntries?_ofFields rest fun p hp => h p (by simp [partsFields, hp])
    simp [ofFields, toEntries?, string?, hv, hrest]

end

/-! ## Terms from text -/

/-- The value is proper, and the text of a float in it reads back. -/
def Restorable (p : Json) : Prop :=
  p.isProper = true ∧ ∀ x, p = .float x → ReadsBack x

mutual

/-- The term of a value that nests no deeper than the levels allow can be read back. -/
theorem readable_ofJson : ∀ (v : Json) {levels : Nat}, 2 * nesting v ≤ levels →
    (∀ p ∈ parts v, Restorable p) → Readable levels (ofJson v)
  | .null, _, _, _ => .unit _
  | .bool b, _, _, _ => .bool _ b
  | .int n, _, _, h => .int (h (.int n) (by simp [parts])).1
  | .float x, _, _, h => by
    have hx := h (.float x) (by simp [parts])
    exact .float hx.1 (hx.2 x rfl)
  | .string s, _, _, _ => .string _ s
  | .list items, levels, hlevels, h => by
    simp only [nesting] at hlevels
    obtain ⟨levels, rfl⟩ : ∃ n, levels = n + 2 := ⟨levels - 2, by omega⟩
    exact .list (readable_ofJsons items (by omega) fun p hp => h p (by simp [parts, hp]))
  | .object fields, levels, hlevels, h => by
    simp only [nesting] at hlevels
    obtain ⟨levels, rfl⟩ : ∃ n, levels = n + 2 := ⟨levels - 2, by omega⟩
    have hentries : ∀ e ∈ ofFields fields, Readable levels e.1 ∧ Readable levels e.2 :=
      readable_ofFields fields (by omega) fun p hp => h p (by simp [parts, hp])
    exact .map (fun e he => (hentries e he).1) (fun e he => (hentries e he).2)

theorem readable_ofJsons : ∀ (items : List Json) {levels : Nat},
    2 * nestingItems items ≤ levels → (∀ p ∈ partsItems items, Restorable p) →
    ∀ t ∈ ofJsons items, Readable levels t
  | [], _, _, _ => by simp [ofJsons]
  | v :: rest, levels, hlevels, h => by
    simp only [nestingItems] at hlevels
    have hv : Readable levels (ofJson v) :=
      readable_ofJson v (by omega) fun p hp => h p (by simp [partsItems, hp])
    have hrest : ∀ t ∈ ofJsons rest, Readable levels t :=
      readable_ofJsons rest (by omega) fun p hp => h p (by simp [partsItems, hp])
    simpa [ofJsons] using ⟨hv, hrest⟩

theorem readable_ofFields : ∀ (fields : List (String × Json)) {levels : Nat},
    2 * nestingFields fields ≤ levels → (∀ p ∈ partsFields fields, Restorable p) →
    ∀ e ∈ ofFields fields, Readable levels e.1 ∧ Readable levels e.2
  | [], _, _, _ => by simp [ofFields]
  | (key, v) :: rest, levels, hlevels, h => by
    simp only [nestingFields] at hlevels
    have hv : Readable levels (ofJson v) :=
      readable_ofJson v (by omega) fun p hp => h p (by simp [partsFields, hp])
    have hrest : ∀ e ∈ ofFields rest, Readable levels e.1 ∧ Readable levels e.2 :=
      readable_ofFields rest (by omega) fun p hp => h p (by simp [partsFields, hp])
    intro e he
    rcases List.mem_cons.1 he with rfl | he
    · exact ⟨.string _ key, hv⟩
    · exact hrest e he

end

end FlowGraph.Ron.Term
