import FlowGraph.Proofs.Bindings
import FlowGraph.Proofs.Document.RoundTrip
import FlowGraph.Proofs.Document.Survival

/-!
# Loading what was loaded

A graph that was loaded is saved and loaded as it is, provided that its numbers can be written, with
one exception.  The counter goes on one above the highest id of a record, and the highest id that a
record may have is also the highest counter that a document may have.  So a record under the very
last id makes a graph whose document is refused (`loaded_graph_loads_again`).
-/

namespace FlowGraph

open FlowGraph.Graph

/-! ## Loading makes built-in nodes of built-in types -/

theorem Behavior.isBuiltin_loadState {b b' : Behavior} {state : Json}
    (h : b.loadState state = .ok b') : b'.isBuiltin = b.isBuiltin := by
  have hmap : ∀ {α : Type} {x : Json.Reading α} {f : α → Behavior}, Except.map f x = .ok b' →
      ∃ a, b' = f a := by
    intro α x f hx
    cases x with
    | error e => cases hx
    | ok a =>
      cases hx
      exact ⟨a, rfl⟩
  unfold loadState at h
  split at h
  · cases h
    rfl
  · cases b with
    | eventBegin | arithmetic op | scripted script =>
      cases h
      rfl
    | logValue | floatConstant | getVariable | setVariable =>
      obtain ⟨a, rfl⟩ := hmap h
      rfl

theorem restore_isBuiltin {id : NodeId} {type : String} {state : Option Json} {b : Behavior}
    (h : Registry.builtin.restore id type state = .ok b) : b.isBuiltin = true := by
  have hfresh : ∀ fresh, Registry.builtin.behavior? type = some fresh →
      fresh.isBuiltin = true := by
    intro fresh hf
    obtain ⟨t, ht, rfl⟩ := Option.map_eq_some_iff.mp hf
    have hall : ∀ t ∈ Registry.builtin.types, t.fresh.isBuiltin = true := by decide
    exact hall t (List.mem_of_find?_eq_some ht)
  unfold Registry.restore at h
  cases hf : Registry.builtin.behavior? type with
  | none => simp [hf] at h
  | some fresh =>
    cases state with
    | none =>
      simp only [hf] at h
      cases h
      exact hfresh b hf
    | some json =>
      cases hload : fresh.loadState json with
      | error e => simp [hf, hload, Except.mapError] at h
      | ok b' =>
        simp only [hf, hload, Except.mapError] at h
        cases h
        exact (Behavior.isBuiltin_loadState hload).trans (hfresh fresh hf)

theorem NodeRecord.read_isBuiltin {d : Document} {x : NodeRecord}
    (h : NodeRecord.read .builtin d = .ok x) : ∀ b ∈ x.node.behavior, b.isBuiltin = true := by
  simp only [NodeRecord.read, bind_eq_ok] at h
  obtain ⟨id, -, type, -, b, hb, name, -, inputs, -, outputs, -, h⟩ := h
  cases h
  intro b' hb'
  cases hb'
  exact restore_isBuiltin hb

namespace Graph

variable {g : Graph} {d : GraphDocument} {repairs : List Repair}

theorem load_isBuiltin (h : d.load .builtin = .ok (g, repairs)) :
    ∀ n ∈ g.nodes.values, ∀ b ∈ n.behavior, b.isBuiltin = true := by
  obtain ⟨-, -, r, hr, rfl, -⟩ := load_eq_ok.mp h
  obtain ⟨-, hnodes, -, -, htakes, -⟩ := readAll_eq_ok.mp hr
  have hrestored := ((readAll_fresh hr).survives htakes d.name .builtin).nodes
  intro n hn b hb
  rw [show (_ : Graph).nodes = _ from hrestored, Table.values, List.map_map] at hn
  obtain ⟨x, hx, rfl⟩ := List.mem_map.mp hn
  obtain ⟨b', hb', rfl⟩ := Option.map_eq_some_iff.mp hb
  obtain ⟨doc, hdoc⟩ := exists_read_of_mem hnodes hx
  rw [Behavior.boundAmong, Behavior.isBuiltin_keepBound]
  exact NodeRecord.read_isBuiltin hdoc b' hb'

/-- What each of the stages keeps holds of the restored graph. -/
theorem restore_keeps {Q : Graph → Prop} (hparents : ∀ g x, Q g → Q (restoreParent g x).1)
    (hpins : ∀ g x, Q g → Q (restorePins g x).1) (horphans : ∀ g x, Q g → Q (dropOrphan g x).1)
    (hlinks : ∀ g x, Q g → Q (restoreLink g x).1)
    (hbindings : ∀ g x, Q g → Q (restoreBinding g x).1) (r : Records) {g : Graph} (h : Q g) :
    Q (r.restore g).1 := by
  have hstart : Q (g, ([] : List Repair)).1 := h
  have hplaced := restoreEach_keeps restorePins hpins r.nodes
    (restoreEach_keeps restoreParent hparents r.properties hstart)
  exact restoreEach_keeps restoreBinding hbindings _
    (restoreEach_keeps checkLinks (fun _ _ hq => hq) r.pins
      (restoreEach_keeps restoreLink hlinks r.links
        (restoreEach_keeps dropOrphan horphans _ hplaced)))

theorem load_registry {registry : Registry} (h : d.load registry = .ok (g, repairs)) :
    g.registry = registry := by
  obtain ⟨-, -, r, -, rfl, -⟩ := load_eq_ok.mp h
  refine restore_keeps (Q := fun g => g.registry = registry) (fun g x hq => ?parents)
    (fun g x hq => ?pins) (fun _ _ hq => hq) (fun g x hq => ?links) (fun g x hq => ?bindings) r
    (g := r.entities d.name registry) rfl
  case parents =>
    rcases restoreParent_cases g x with hg | ⟨_, -, -, -, hg⟩ <;> rw [hg] <;> exact hq
  case pins =>
    rw [restorePins_graph]
    exact hq
  case links =>
    rcases restoreLink_cases g x with hg | ⟨_, _, -, -, -, -, hg⟩ <;> rw [hg] <;> exact hq
  case bindings =>
    rcases restoreBinding_cases g x with hg | ⟨_, _, _, -, -, -, -, hg⟩ <;> rw [hg] <;> exact hq

/-! ## The counter after loading -/

/-- The counter of a loaded graph may be saved, unless a record has the last id there is. -/
theorem load_nextId {registry : Registry} {r : Records} (h : d.load registry = .ok (g, repairs))
    (hr : d.readAll registry = .ok r) :
    (maxDocumentId ∈ r.allIds → g.nextId = maxDocumentId + 1) ∧
      (maxDocumentId ∉ r.allIds → g.nextId ≤ maxDocumentId) := by
  obtain ⟨-, hnext, r', hr', rfl, -⟩ := load_eq_ok.mp h
  rw [hr] at hr'
  cases hr'
  obtain ⟨-, -, -, -, htakes, hids⟩ := readAll_eq_ok.mp hr
  have hmem : ∀ i, i ∈ r.ids ↔ i ∈ r.allIds := fun i => by rw [hids, List.mem_reverse]
  refine ⟨fun hlast => ?_, fun hlast => ?_⟩
  · have hle : r.ids.foldl max 0 ≤ maxDocumentId :=
      foldl_max_le r.ids (Nat.zero_le _) fun i hi => htakes.inRange i ((hmem i).mp hi)
    have hge := (le_foldl_max r.ids 0).2 maxDocumentId ((hmem _).mpr hlast)
    show max d.nextId _ = _
    omega
  · have hlt : r.ids.foldl max 0 + 1 ≤ maxDocumentId := foldl_max_lt (by decide) fun i hi =>
      Nat.lt_of_le_of_ne (htakes.inRange i ((hmem i).mp hi)) fun heq =>
        hlast (heq ▸ (hmem i).mp hi)
    exact Nat.max_le.mpr ⟨hnext, hlt⟩

/-! ## Loading again -/

/-- A document whose counter is above the highest id is refused. -/
theorem load_idOutOfRange {registry : Registry} (hversion : d.version ≤ documentVersion)
    (hnext : d.nextId > maxDocumentId) : d.load registry = .error (.idOutOfRange d.nextId) := by
  simp only [GraphDocument.load, checkVersion_eq_ok.mpr hversion, if_pos hnext]
  rfl

/-- What is made of a document with the built-in types comes back when it is saved and loaded, and
    nothing of it is left out, unless a record has the last id there is.  Then the counter of the
    graph is above the highest that is accepted, and what is saved cannot be loaded. -/
theorem loaded_graph_loads_again {r : Records} (h : d.load .builtin = .ok (g, repairs))
    (hr : d.readAll .builtin = .ok r)
    (hconstants : ∀ n ∈ g.nodes.values, ∀ b ∈ n.behavior, b.isFinite = true)
    (hpins : ∀ p ∈ g.pins.values, p.value.isFinite = true)
    (hproperties : ∀ p ∈ g.properties.values, p.value.isFinite = true) :
    g.toDocument.load .builtin =
      if maxDocumentId ∈ r.allIds then .error (.idOutOfRange (maxDocumentId + 1))
      else .ok (g, []) := by
  obtain ⟨hlast, hroom⟩ := load_nextId h hr
  by_cases hm : maxDocumentId ∈ r.allIds
  · rw [if_pos hm, ← hlast hm]
    refine load_idOutOfRange (Nat.le_refl _) ?_
    show g.nextId > maxDocumentId
    rw [hlast hm]
    exact Nat.lt_succ_self _
  · have hs : g.Savable .builtin :=
      { makes := fun n hn b hb => makes_builtin (load_isBuiltin h n hn b hb)
        constants := hconstants
        pins := hpins
        properties := hproperties
        bound := fun n hn b hb p hp => by
          have hget := (load_sound h).1.intact.nodes.get?_of_mem_values hn
          refine load_bound h n.id p ?_
          rw [boundTo, hget, Option.bind_some, Node.bound, Option.mem_def.mp hb]
          exact hp
        nextId := hroom hm }
    rw [if_neg hm, (load_sound h).1.load_toDocument hs (Starts.loaded h).nextId_pos,
      ← load_registry h]

/-- A document with one property, under the given id. -/
def oneProperty (id : Nat) : GraphDocument where
  name := "one"
  properties := [(Property.mk ⟨id⟩ "on" (.bool false) none).toDocument]

theorem oneProperty_loads_again :
    ∃ g, (oneProperty 7).load .builtin = .ok (g, []) ∧ g.properties.keys = [⟨7⟩] ∧
      g.toDocument.load .builtin = .ok (g, []) := by
  have hload : (oneProperty 7).load .builtin = .ok (_, []) := rfl
  have hread : (oneProperty 7).readAll .builtin = .ok _ := rfl
  refine ⟨_, hload, by decide +kernel, ?_⟩
  rw [loaded_graph_loads_again hload hread (by decide +kernel) (by decide +kernel)
    (by decide +kernel)]
  exact if_neg (by decide +kernel)

/-- Under the last id that is accepted, it is loaded, but not what is saved of it. -/
theorem oneProperty_last_refused :
    ∃ g, (oneProperty 9223372036854775807).load .builtin = .ok (g, []) ∧
      g.nodes.values = [] ∧ g.pins.values = [] ∧ g.properties.values.map (·.value) = [.bool false] ∧
      g.toDocument.load .builtin = .error (.idOutOfRange 9223372036854775808) :=
  ⟨_, rfl, rfl, rfl, rfl, rfl⟩

end Graph

end FlowGraph
