import FlowGraph.Proofs.Document.Survival

/-!
# Pin lists of a loaded graph

Of a saved list of pins, loading drops those that are missing or not the node's own on that side.
It does not look for repetition: a pin of the node that the record names twice is listed twice, and
the node then finds it at two places among its value pins.  So a loaded list repeats a pin exactly
as often as the record does (`pin_lists_repeat_as_saved`).
-/

namespace FlowGraph

open FlowGraph.Graph

/-- On this side, the record names none of these pins more than once. -/
def NodeRecord.NamesOnce (x : NodeRecord) (side : Direction) (among : PinId → Bool) : Prop :=
  ∀ p, among p = true → (x.listed side).count p.number ≤ 1

/-- Two places among the value pins of a node are never the same pin. -/
def Graph.ValuePinsApart (g : Graph) (id : NodeId) (side : Direction) : Prop :=
  ∀ i j p, g.valuePin? id side i = some p → g.valuePin? id side j = some p → i = j

theorem nodup_iff_places {α : Type} {xs : List α} :
    xs.Nodup ↔ ∀ (i j : Nat) (x : α), xs[i]? = some x → xs[j]? = some x → i = j := by
  rw [List.nodup_iff_getElem?_ne_getElem?]
  constructor
  · intro h i j x hi hj
    obtain ⟨hin, -⟩ := List.getElem?_eq_some_iff.mp hi
    obtain ⟨hjn, -⟩ := List.getElem?_eq_some_iff.mp hj
    rcases Nat.lt_trichotomy i j with hij | hij | hij
    · exact absurd (hi.trans hj.symm) (h i j hij hjn)
    · exact hij
    · exact absurd (hj.trans hi.symm) (h j i hij hin)
  · intro h i j hij hj heq
    have hx : xs[j]? = some xs[j] := List.getElem?_eq_getElem hj
    exact absurd (h i j _ (heq.trans hx) hx) (Nat.ne_of_lt hij)

theorem NodeRecord.count_listed (x : NodeRecord) (side : Direction) (among : PinId → Bool)
    (p : PinId) : (((x.listed side).map PinId.mk).filter among).count p =
      if among p then (x.listed side).count p.number else 0 := by
  split
  · next hp =>
    rw [List.count_filter hp]
    exact List.count_map_of_injective _ PinId.mk (fun _ _ => PinId.mk.inj) p.number
  · next hp => exact List.count_eq_zero_of_not_mem fun hm => hp (List.mem_filter.mp hm).2

/-- The pins left of a saved list are all different exactly if the record names none of them more
    than once. -/
theorem NodeRecord.namesOnce_iff {x : NodeRecord} {side : Direction} {among : PinId → Bool} :
    (((x.listed side).map PinId.mk).filter among).Nodup ↔ x.NamesOnce side among := by
  rw [List.nodup_iff_count_le_one]
  refine forall_congr' fun p => ?_
  rw [x.count_listed side among p]
  by_cases hp : among p = true
  · rw [if_pos hp]
    exact ⟨fun h _ => h, fun h => h hp⟩
  · rw [if_neg hp]
    exact ⟨fun _ h => absurd h hp, fun _ => Nat.zero_le 1⟩

/-- Each node of a loaded graph has the record it was read from, and lists on each side the pins of
    the record that are its own. -/
theorem Records.Survives.listed {r : Records} {g : Graph} (h : r.Survives g) {id : NodeId}
    {n : Node} (hn : g.nodes.get? id = some n) :
    ∃ x ∈ r.nodes, x.node.id = id ∧ ∀ side,
      n.pinsOf side = ((x.listed side).map PinId.mk).filter (g.owns id side) := by
  rw [h.nodes] at hn
  obtain ⟨x, hx, rfl, rfl⟩ := mem_of_get?_list hn
  refine ⟨x, hx, rfl, fun side => ?_⟩
  cases side <;> rfl

/-- The value pins of a node are its listed pins without the flow pins. -/
theorem valuePinsApart_iff {g : Graph} {id : NodeId} {n : Node} (hn : g.nodes.get? id = some n)
    (side : Direction) :
    g.ValuePinsApart id side ↔
      ((n.pinsOf side).filter fun p => (g.pins.get? p).any (!·.isFlow)).Nodup := by
  have hplace : ∀ i, g.valuePin? id side i
      = ((n.pinsOf side).filter fun p => (g.pins.get? p).any (!·.isFlow))[i]? := by
    intro i
    simp only [valuePin?, hn, Option.map_some, Option.bind_some]
  rw [nodup_iff_places]
  simp only [Graph.ValuePinsApart, hplace]

/-- Whatever document is accepted, a node of the loaded graph lists a pin of its own exactly as
    often as its record does, and no other pin.  So its list repeats no pin exactly if the record
    names none of its pins twice, and likewise for its value pins by place. -/
theorem pin_lists_repeat_as_saved {registry : Registry} {d : GraphDocument} {g : Graph}
    {repairs : List Repair} (h : d.load registry = .ok (g, repairs)) :
    ∃ r, d.readAll registry = .ok r ∧ ∀ id n, g.nodes.get? id = some n →
      ∃ x ∈ r.nodes, x.node.id = id ∧ ∀ side,
        (∀ p, (n.pinsOf side).count p =
          if g.owns id side p then (x.listed side).count p.number else 0) ∧
        ((n.pinsOf side).Nodup ↔ x.NamesOnce side (g.owns id side)) ∧
        (g.ValuePinsApart id side ↔
          x.NamesOnce side fun p => g.owns id side p && (g.pins.get? p).any (!·.isFlow)) := by
  obtain ⟨-, -, r, hr, rfl, -⟩ := load_eq_ok.mp h
  obtain ⟨-, -, -, -, htakes, -⟩ := readAll_eq_ok.mp hr
  have hsurvives := (readAll_fresh hr).survives htakes d.name registry
  refine ⟨r, hr, fun id n hn => ?_⟩
  obtain ⟨x, hx, hid, hlisted⟩ := hsurvives.listed hn
  refine ⟨x, hx, hid, fun side => ⟨fun p => ?_, ?_, ?_⟩⟩
  · rw [hlisted side]
    exact x.count_listed side _ p
  · rw [hlisted side]
    exact NodeRecord.namesOnce_iff
  · rw [valuePinsApart_iff hn, hlisted side, List.filter_filter]
    simp only [Bool.and_comm]
    exact NodeRecord.namesOnce_iff

/-- A document whose only record of a node, a sum, names the first of its inputs twice. -/
def doubled : GraphDocument where
  name := "doubled"
  nodes := [
    { Node.ofBehavior ⟨1⟩ "sum" (.arithmetic .add) with
      inputs := [⟨2⟩, ⟨2⟩], outputs := [⟨3⟩, ⟨9⟩, ⟨9⟩] }.toDocument]
  pins := [
    (Pin.ofSpec ⟨2⟩ ⟨1⟩ ⟨"A", .input, .float 0⟩).toDocument,
    (Pin.ofSpec ⟨3⟩ ⟨1⟩ ⟨"Result", .output, .float 0⟩).toDocument]

theorem doubled_lists_one_pin_twice :
    ∃ g r, doubled.load .builtin = .ok (g, r) ∧ ∃ n, g.nodes.get? ⟨1⟩ = some n ∧
      n.inputs = [⟨2⟩, ⟨2⟩] ∧
      g.valuePin? ⟨1⟩ .input 0 = some ⟨2⟩ ∧ g.valuePin? ⟨1⟩ .input 1 = some ⟨2⟩ := by
  have hload : doubled.load .builtin = .ok (_, _) := rfl
  exact ⟨_, _, hload, _, rfl, rfl, rfl, rfl⟩

theorem doubled_repeats_only_inputs :
    ∃ (g : Graph) (r : List Repair) (x : NodeRecord), doubled.load .builtin = .ok (g, r) ∧
      x.inputs = [2, 2] ∧ x.outputs = [3, 9, 9] ∧
      x.NamesOnce .output (g.owns ⟨1⟩ .output) ∧ g.ValuePinsApart ⟨1⟩ .output ∧
      ¬ x.NamesOnce .input (g.owns ⟨1⟩ .input) ∧ ¬ g.ValuePinsApart ⟨1⟩ .input := by
  have hload : doubled.load .builtin = .ok (_, _) := rfl
  have hread : doubled.readAll .builtin = .ok _ := rfl
  obtain ⟨r, hr, hnodes⟩ := pin_lists_repeat_as_saved hload
  obtain ⟨x, hx, -, hsides⟩ := hnodes ⟨1⟩ _ rfl
  obtain ⟨-, hinputs, -⟩ := hsides .input
  obtain ⟨-, houtputs, hapart⟩ := hsides .output
  have honce : x.NamesOnce .output _ := houtputs.mp (List.nodup_singleton _)
  cases hread.symm.trans hr
  cases List.mem_singleton.mp hx
  refine ⟨_, _, _, hload, rfl, rfl, honce, ?_, fun h => ?_, fun h => ?_⟩
  · exact hapart.mpr fun p hp => honce p (Bool.and_eq_true_iff.mp hp).1
  · exact absurd (hinputs.mpr h) (by decide +kernel)
  · exact absurd (h 0 1 ⟨2⟩ rfl rfl) Nat.zero_ne_one

end FlowGraph
