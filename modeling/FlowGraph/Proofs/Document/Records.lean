import FlowGraph.Document.Load
import FlowGraph.Proofs.Table

/-!
# Reading the records of a document

Reading goes through the records in order and gives up at the first that is bad, so it succeeds
exactly if every record is good on its own, no id is above the highest allowed one and no id comes
twice (`readRecords_eq_ok`).  The four tables are then filled from lists without a repeated id,
which makes them keyed from the start.
-/

namespace FlowGraph

theorem bind_eq_ok {ε α β : Type} {x : Except ε α} {f : α → Except ε β} {b : β} :
    (x >>= f) = .ok b ↔ ∃ a, x = .ok a ∧ f a = .ok b := by
  cases x with
  | error e => exact ⟨fun h => (nomatch h), fun ⟨_, ha, _⟩ => (nomatch ha)⟩
  | ok a =>
    refine ⟨fun h => ⟨a, rfl, h⟩, ?_⟩
    rintro ⟨_, ha, h⟩
    cases ha
    exact h

theorem require_eq_ok_iff {α : Type} {d : Document} {key : String} {read : Json → Json.Reading α}
    {a : α} : d.require key read = .ok a ↔ ∃ v, d.get? key = some v ∧ read v = .ok a := by
  unfold Document.require
  cases d.get? key with
  | none => simp
  | some v => cases hv : read v <;> simp [Except.mapError, hv]

theorem takeId_eq_ok {used used' : List Nat} {id : Nat} :
    takeId used id = .ok used' ↔ id ≤ maxDocumentId ∧ id ∉ used ∧ used' = id :: used := by
  unfold takeId
  by_cases hmax : id > maxDocumentId
  · rw [if_pos hmax]
    exact ⟨fun h => (nomatch h), fun h => absurd h.1 (Nat.not_le_of_gt hmax)⟩
  · by_cases hm : id ∈ used
    · rw [if_neg hmax, if_pos hm]
      exact ⟨fun h => (nomatch h), fun h => absurd hm h.2.1⟩
    · rw [if_neg hmax, if_neg hm]
      constructor
      · intro h
        cases h
        exact ⟨Nat.le_of_not_gt hmax, hm, rfl⟩
      · rintro ⟨-, -, rfl⟩
        rfl

section Reading

variable {α : Type} {read : Document → Except DocumentError α} {idOf : α → Nat}

/-- The ids may be taken one after the other: all in range, none in use, none twice. -/
structure Takes (used ids : List Nat) : Prop where
  inRange : ∀ i ∈ ids, i ≤ maxDocumentId
  unused : ∀ i ∈ ids, i ∉ used
  distinct : ids.Nodup

theorem takes_cons {used ids : List Nat} {i : Nat} :
    Takes used (i :: ids) ↔ i ≤ maxDocumentId ∧ i ∉ used ∧ Takes (i :: used) ids := by
  constructor
  · intro h
    obtain ⟨hi, hids⟩ := List.nodup_cons.mp h.distinct
    refine ⟨h.inRange i List.mem_cons_self, h.unused i List.mem_cons_self,
      fun j hj => h.inRange j (List.mem_cons_of_mem i hj), fun j hj hm => ?_, hids⟩
    rcases List.mem_cons.mp hm with rfl | hm
    · exact hi hj
    · exact h.unused j (List.mem_cons_of_mem i hj) hm
  · rintro ⟨hmax, hi, h⟩
    refine ⟨fun j hj => ?_, fun j hj => ?_, List.nodup_cons.mpr ⟨fun hm => ?_, h.distinct⟩⟩
    · rcases List.mem_cons.mp hj with rfl | hj
      · exact hmax
      · exact h.inRange j hj
    · rcases List.mem_cons.mp hj with rfl | hj
      · exact hi
      · exact fun hm => h.unused j hj (List.mem_cons_of_mem i hm)
    · exact h.unused i hm List.mem_cons_self

theorem readRecords_eq_ok {docs : List Document} :
    ∀ {used : List Nat} {as : List α} {used' : List Nat},
      readRecords read idOf used docs = .ok (as, used') ↔
        List.Forall₂ (fun d a => read d = .ok a) docs as ∧ Takes used (as.map idOf) ∧
          used' = (as.map idOf).reverse ++ used := by
  induction docs with
  | nil =>
    intro used as used'
    simp only [readRecords, Except.ok.injEq, Prod.mk.injEq]
    constructor
    · rintro ⟨rfl, rfl⟩
      exact ⟨.nil, ⟨by simp, by simp, List.nodup_nil⟩, rfl⟩
    · rintro ⟨h, -, rfl⟩
      cases h
      exact ⟨rfl, rfl⟩
  | cons d docs ih =>
    intro used as used'
    simp only [readRecords, bind_eq_ok, takeId_eq_ok]
    constructor
    · rintro ⟨a, ha, _, ⟨hmax, hused, rfl⟩, ⟨as', used''⟩, hrest, h⟩
      cases h
      obtain ⟨hread, htakes, rfl⟩ := ih.mp hrest
      refine ⟨.cons ha hread, takes_cons.mpr ⟨hmax, hused, htakes⟩, ?_⟩
      rw [List.map_cons, List.reverse_cons, List.append_assoc]
      rfl
    · rintro ⟨hread, htakes, rfl⟩
      cases hread with
      | @cons _ a _ as' ha hread =>
        obtain ⟨hmax, hused, htakes⟩ := takes_cons.mp htakes
        refine ⟨a, ha, _, ⟨hmax, hused, rfl⟩, _, ih.mpr ⟨hread, htakes, rfl⟩, ?_⟩
        rw [List.map_cons, List.reverse_cons, List.append_assoc]
        rfl

end Reading

/-- The ids of the records, kind after kind. -/
def Records.allIds (r : Records) : List Nat :=
  r.properties.map (·.property.id.number) ++ r.nodes.map (·.node.id.number) ++
    r.pins.map (·.pin.id.number) ++ r.links.map (·.id.number)

theorem takes_append {used ids ids' : List Nat} :
    Takes used (ids ++ ids') ↔ Takes used ids ∧ Takes (ids.reverse ++ used) ids' := by
  induction ids generalizing used with
  | nil =>
    refine ⟨fun h => ⟨⟨by simp, by simp, List.nodup_nil⟩, h⟩, fun h => h.2⟩
  | cons i ids ih =>
    rw [List.cons_append, takes_cons, takes_cons, ih, List.reverse_cons, List.append_assoc]
    simp only [and_assoc, List.singleton_append]

/-- Reading all records succeeds exactly if each is good and their ids may be taken together. -/
theorem readAll_eq_ok {registry : Registry} {d : GraphDocument} {r : Records} :
    d.readAll registry = .ok r ↔
      List.Forall₂ (fun d a => PropertyRecord.read d = .ok a) d.properties r.properties ∧
      List.Forall₂ (fun d a => NodeRecord.read registry d = .ok a) d.nodes r.nodes ∧
      List.Forall₂ (fun d a => PinRecord.read d = .ok a) d.pins r.pins ∧
      List.Forall₂ (fun d a => Link.read d = .ok a) d.links r.links ∧
      Takes [] r.allIds ∧ r.ids = r.allIds.reverse := by
  obtain ⟨properties, nodes, pins, links, ids⟩ := r
  simp only [GraphDocument.readAll, bind_eq_ok, Prod.exists, readRecords_eq_ok, Records.allIds,
    takes_append, List.reverse_append, List.append_assoc, List.append_nil]
  constructor
  · rintro ⟨ps, _, ⟨hp, htp, rfl⟩, ns, _, ⟨hn, htn, rfl⟩, qs, _, ⟨hq, htq, rfl⟩, ls, _,
      ⟨hl, htl, rfl⟩, h⟩
    cases h
    exact ⟨hp, hn, hq, hl, ⟨htp, htn, htq, htl⟩, rfl⟩
  · rintro ⟨hp, hn, hq, hl, ⟨htp, htn, htq, htl⟩, rfl⟩
    exact ⟨_, _, ⟨hp, htp, rfl⟩, _, _, ⟨hn, htn, rfl⟩, _, _, ⟨hq, htq, rfl⟩, _, _,
      ⟨hl, htl, rfl⟩, rfl⟩

/-! ## Filling the tables -/

section Filling

variable {κ α β : Type} [DecidableEq κ]

/-- A table filled from a list without repeated ids holds the entries of the list, in order. -/
theorem entries_foldl_insert (idOf : β → κ) (f : β → α) (xs : List β) :
    ∀ {t : Table κ α}, (∀ x ∈ xs, idOf x ∉ t.keys) → (xs.map idOf).Nodup →
      (xs.foldl (fun t x => t.insert (idOf x) (f x)) t).entries =
        t.entries ++ xs.map fun x => (idOf x, f x) := by
  induction xs with
  | nil => simp
  | cons x xs ih =>
    intro t hfresh hnodup
    obtain ⟨hx, hxs⟩ := List.nodup_cons.mp hnodup
    have hkey : idOf x ∉ t.keys := hfresh x List.mem_cons_self
    rw [List.foldl_cons, ih ?_ hxs, Table.entries_insert_of_not_mem hkey, List.append_assoc]
    · rfl
    · intro y hy
      rw [Table.keys_insert, if_neg hkey, List.mem_append, List.mem_singleton, not_or]
      exact ⟨hfresh y (List.mem_cons_of_mem x hy), fun heq => hx (heq ▸ List.mem_map_of_mem hy)⟩

theorem foldl_insert_eq (idOf : β → κ) (f : β → α) {xs : List β} (h : (xs.map idOf).Nodup) :
    xs.foldl (fun t x => t.insert (idOf x) (f x)) ({} : Table κ α) =
      ⟨xs.map fun x => (idOf x, f x)⟩ :=
  Table.ext (entries_foldl_insert idOf f xs (by simp [Table.keys]) h)

omit [DecidableEq κ] in
theorem keyed_of_list {idOf : α → κ} (f : β → α) {xs : List β}
    (h : (xs.map fun x => idOf (f x)).Nodup) :
    (⟨xs.map fun x => (idOf (f x), f x)⟩ : Table κ α).Keyed idOf where
  nodup := by simpa [Table.keys, Function.comp_def] using h
  id_eq he := by
    obtain ⟨x, -, rfl⟩ := List.mem_map.mp he
    rfl

theorem mem_of_get?_list {idOf : β → κ} {f : β → α} {xs : List β} {k : κ} {a : α}
    (h : (⟨xs.map fun x => (idOf x, f x)⟩ : Table κ α).get? k = some a) :
    ∃ x ∈ xs, idOf x = k ∧ f x = a := by
  obtain ⟨x, hx, heq⟩ := List.mem_map.mp (Table.mem_entries_of_get? h)
  exact ⟨x, hx, (Prod.mk.inj heq).1, (Prod.mk.inj heq).2⟩

end Filling

end FlowGraph
