import FlowGraph.Proofs.Graph.Allocation
import FlowGraph.Proofs.Run

/-!
# Numbers over a run

The numbers a run gives out grow from one to the next, and they begin above all that a document
mentions.  So no number names two entities, not even one after the other, and every table lists the
entities in the order in which they were made.
-/

namespace FlowGraph

/-! ## What is left and what is new -/

/-- The keys are some of the old ones and new ones behind them, which have numbers of the list, in
    the order of the list. -/
def Appends {κ : Type} (number : κ → Nat) (old new : List κ) (issued : List Nat) : Prop :=
  ∃ kept fresh, new = kept ++ fresh ∧ kept.Sublist old ∧ (fresh.map number).Sublist issued

section Appends

variable {κ : Type} {number : κ → Nat} {old mid new : List κ} {first later issued : List Nat}

theorem Appends.of_sublist (h : new.Sublist old) : Appends number old new issued :=
  ⟨new, [], (List.append_nil new).symm, h, List.nil_sublist issued⟩

theorem Appends.same (h : new = old) : Appends number old new issued := .of_sublist (h ▸ .refl _)

theorem Appends.insert {α : Type} [DecidableEq κ] {t : Table κ α} {k : κ} (hk : k ∉ t.keys) (a : α) :
    Appends number t.keys (t.insert k a).keys [number k] :=
  ⟨t.keys, [k], by rw [Table.keys_insert, if_neg hk], .refl _, .refl _⟩

/-- Of the keys that were new, those that are left are still new. -/
theorem Appends.trans (h : Appends number old mid first) (h' : Appends number mid new later) :
    Appends number old new (first ++ later) := by
  obtain ⟨kept, fresh, rfl, hkept, hfresh⟩ := h
  obtain ⟨kept', fresh', rfl, hkept', hfresh'⟩ := h'
  obtain ⟨left, right, rfl, hleft, hright⟩ := List.sublist_append_iff.mp hkept'
  refine ⟨left, right ++ fresh', List.append_assoc _ _ _, hleft.trans hkept, ?_⟩
  rw [List.map_append]
  exact ((hright.map number).trans hfresh).append hfresh'

theorem Appends.mem {k : κ} (h : Appends number old new issued) (hk : k ∈ new) :
    k ∈ old ∨ number k ∈ issued := by
  obtain ⟨kept, fresh, rfl, hkept, hfresh⟩ := h
  rcases List.mem_append.mp hk with hk | hk
  · exact .inl (hkept.subset hk)
  · exact .inr (hfresh.subset (List.mem_map_of_mem hk))

end Appends

/-! ## The counter -/

theorem nextNumber_eq {n : Nat} (h : n + 1 < lastNumber) : nextNumber n = n + 1 := by
  unfold nextNumber
  omega

namespace Edit

variable {α : Type} {e : Edit α} {g : Graph} {issued issued' : List Nat}

/-- The counter goes on by as many numbers as are asked for, unless it comes to its end. -/
theorem Issues.nextId_eq (h : e.Issues g issued) : g.nextId ≤ lastNumber →
    (e g).graph.nextId = min (g.nextId + issued.length) lastNumber := by
  induction h with
  | none h =>
    intro hlast
    rw [h, List.length_nil, Nat.add_zero, Nat.min_eq_left hlast]
  | allocate => exact fun _ => rfl
  | @bind α β m f g first later _ _ ih ih' =>
    intro hlast
    have hfirst := ih hlast
    have hlater := ih' (by omega)
    rw [bind_graph, List.length_append, hlater, hfirst]
    omega

/-- As long as the counter has room, the numbers are those from the counter on. -/
theorem Issues.eq_range' (h : e.Issues g issued) : g.nextId + issued.length < lastNumber →
    issued = List.range' g.nextId issued.length := by
  induction h with
  | none _ => exact fun _ => rfl
  | allocate => exact fun _ => rfl
  | @bind α β m f g first later hm _ ih ih' =>
    intro hroom
    rw [List.length_append] at hroom ⊢
    have hmid := hm.nextId_eq (by omega)
    have hfirst := ih (by omega)
    have hlater := ih' (by omega)
    rw [← List.range'_append_1, ← hfirst,
      show g.nextId + first.length = (m g).graph.nextId by omega, ← hlater]

/-- How far the counter went tells the numbers that were asked for. -/
theorem Issues.of_nextId (h : e.Issues g issued) {n : Nat}
    (hend : (e g).graph.nextId = g.nextId + n) (hroom : g.nextId + n < lastNumber) :
    issued = List.range' g.nextId n := by
  have hnext := h.nextId_eq (by omega)
  obtain rfl : issued.length = n := by omega
  exact h.eq_range' hroom

/-- There is no doubt which numbers an edit asks for. -/
theorem Issues.unique (h : e.Issues g issued) (h' : e.Issues g issued')
    (hroom : g.nextId + issued.length < lastNumber) : issued' = issued := by
  have hend := h.nextId_eq (by omega)
  rw [h'.of_nextId (hend.trans (Nat.min_eq_left (by omega))) hroom, ← h.eq_range' hroom]

end Edit

namespace Graph

variable {g g' g'' : Graph} {first later issued : List Nat}

/-- Every table lists what is left of its entities and behind them the new ones, in the order in
    which they got their numbers. -/
structure Grows (g g' : Graph) (issued : List Nat) : Prop where
  nodes : Appends NodeId.number g.nodes.keys g'.nodes.keys issued
  pins : Appends PinId.number g.pins.keys g'.pins.keys issued
  links : Appends LinkId.number g.links.keys g'.links.keys issued
  properties : Appends PropertyId.number g.properties.keys g'.properties.keys issued

theorem Grows.trans (h : g.Grows g' first) (h' : g'.Grows g'' later) :
    g.Grows g'' (first ++ later) :=
  ⟨h.nodes.trans h'.nodes, h.pins.trans h'.pins, h.links.trans h'.links,
    h.properties.trans h'.properties⟩

theorem Shrinks.grows (h : g.Shrinks g') : g.Grows g' issued :=
  ⟨.of_sublist h.nodes, .of_sublist h.pins, .of_sublist h.links, .of_sublist h.properties⟩

/-- Whatever is in use was in use before or has one of the numbers. -/
theorem Grows.mem_ids (h : g.Grows g' issued) {i : Nat} (hi : i ∈ g'.ids) :
    i ∈ g.ids ∨ i ∈ issued := by
  rw [mem_ids_iff] at hi ⊢
  rcases hi with hi | hi | hi | hi
  · exact (h.nodes.mem hi).imp_left .inl
  · exact (h.pins.mem hi).imp_left fun hi => .inr (.inl hi)
  · exact (h.links.mem hi).imp_left fun hi => .inr (.inr (.inl hi))
  · exact (h.properties.mem hi).imp_left fun hi => .inr (.inr (.inr hi))

/-- All ids in use are below the counter. -/
def Below (g : Graph) : Prop := ∀ i ∈ g.ids, i < g.nextId

theorem Evolves.nextId_eq (h : g.Evolves g' issued) :
    g.nextId + issued.length < lastNumber → g'.nextId = g.nextId + issued.length := by
  induction h with
  | shrinks h => exact fun _ => h.nextId
  | counted | withNode | withPin | withLink | withProperty => exact nextNumber_eq
  | @trans g g' g'' first later _ _ ih ih' =>
    intro hroom
    rw [List.length_append] at hroom ⊢
    have hfirst := ih (by omega)
    have hlater := ih' (by omega)
    omega

/-- The numbers given out are those from the counter on. -/
theorem Evolves.lt_nextId (h : g.Evolves g' issued) :
    g.nextId + issued.length < lastNumber → ∀ i ∈ issued, i < g.nextId + issued.length := by
  induction h with
  | shrinks h => simp
  | counted | withNode | withPin | withLink | withProperty => simp
  | @trans g g' g'' first later h _ ih ih' =>
    intro hroom i hi
    rw [List.length_append] at hroom ⊢
    have hmid := h.nextId_eq (by omega)
    rcases List.mem_append.mp hi with hi | hi
    · have := ih (by omega) i hi
      omega
    · have := ih' (by omega) i hi
      omega

/-- Below the counter is what was below it and what it gave out. -/
theorem Evolves.keeps_below (h : g.Evolves g' issued) (hroom : g.nextId + issued.length < lastNumber)
    (hgrows : g.Grows g' issued) (hbelow : g.Below) : g'.Below := by
  intro i hi
  have hnext := h.nextId_eq hroom
  rcases hgrows.mem_ids hi with hi | hi
  · have := hbelow i hi
    omega
  · have := h.lt_nextId hroom i hi
    omega

/-- As long as the counter has room, what is new comes under numbers that were not in use. -/
theorem Evolves.grows (h : g.Evolves g' issued) :
    g.Below → g.nextId + issued.length < lastNumber → g.Grows g' issued := by
  induction h with
  | shrinks h => exact fun _ _ => h.grows
  | counted g => exact fun _ _ => ⟨.same rfl, .same rfl, .same rfl, .same rfl⟩
  | withNode g n =>
    refine fun hbelow _ => ⟨.insert (fun hm => ?_) n, .same rfl, .same rfl, .same rfl⟩
    exact Nat.lt_irrefl _ (hbelow _ (mem_ids_iff.mpr (.inl hm)))
  | withPin g node spec =>
    refine fun hbelow _ =>
      ⟨.same (Table.keys_modify _ _ _), .insert (fun hm => ?_) _, .same rfl, .same rfl⟩
    exact Nat.lt_irrefl _ (hbelow _ (mem_ids_iff.mpr (.inr (.inl hm))))
  | withLink g a b =>
    refine fun hbelow _ => ⟨.same rfl, .same ?_, .insert (fun hm => ?_) _, .same rfl⟩
    · exact (Table.keys_modify _ _ _).trans (Table.keys_modify _ _ _)
    · exact Nat.lt_irrefl _ (hbelow _ (mem_ids_iff.mpr (.inr (.inr (.inl hm)))))
  | withProperty g name v parent =>
    refine fun hbelow _ => ⟨.same rfl, .same rfl, .same rfl, .insert (fun hm => ?_) _⟩
    exact Nat.lt_irrefl _ (hbelow _ (mem_ids_iff.mpr (.inr (.inr (.inr hm)))))
  | @trans g g' g'' first later h h' ih ih' =>
    intro hbelow hroom
    rw [List.length_append] at hroom
    have hfirst : g.nextId + first.length < lastNumber := by omega
    have hgrows := ih hbelow hfirst
    have hnext := h.nextId_eq hfirst
    exact hgrows.trans (ih' (h.keeps_below hfirst hgrows hbelow) (by omega))

/-- No operation repeats a key in a table, whether or not the counter has room. -/
theorem Evolves.indexed (h : g.Evolves g' issued) : g.Indexed → g'.Indexed := by
  have hinsert : ∀ {κ α : Type} [DecidableEq κ] {t : Table κ α} (k : κ) (a : α), t.keys.Nodup →
      (t.insert k a).keys.Nodup := by
    intro κ α _ t k a ht
    rw [Table.keys_insert]
    split
    · exact ht
    · next hk =>
      refine List.nodup_append.mpr ⟨ht, List.nodup_singleton k, ?_⟩
      rintro b hb c hc rfl
      exact hk (List.mem_singleton.mp hc ▸ hb)
  induction h with
  | shrinks h =>
    exact fun hg => ⟨hg.nodes.sublist h.nodes, hg.pins.sublist h.pins,
      hg.properties.sublist h.properties⟩
  | counted g => exact fun hg => ⟨hg.nodes, hg.pins, hg.properties⟩
  | withNode g n => exact fun hg => ⟨hinsert _ _ hg.nodes, hg.pins, hg.properties⟩
  | withPin g node spec =>
    refine fun hg => ⟨?_, hinsert _ _ hg.pins, hg.properties⟩
    rw [show (g.withPin node spec).nodes.keys = g.nodes.keys from Table.keys_modify _ _ _]
    exact hg.nodes
  | withLink g a b =>
    refine fun hg => ⟨hg.nodes, ?_, hg.properties⟩
    rw [show (g.withLink a b).pins.keys = g.pins.keys from
      (Table.keys_modify _ _ _).trans (Table.keys_modify _ _ _)]
    exact hg.pins
  | withProperty g name v parent => exact fun hg => ⟨hg.nodes, hg.pins, hinsert _ _ hg.properties⟩
  | trans _ _ ih ih' => exact fun hg => ih' (ih hg)

/-! ## Runs -/

theorem performAll_booked (commands : List Command) : Edit.Booked (Command.performAll commands) :=
  .forM perform_booked commands

/-- Every graph that a run comes to has tables without repeated keys, however many ids it asked
    for. -/
theorem Starts.indexed_performAll {start : Graph} (h : start.Starts) (commands : List Command) :
    (Command.performAll commands start).graph.Indexed := by
  obtain ⟨issued, hbooks⟩ := performAll_booked commands start
  exact hbooks.evolves.indexed h.sound.intact.indexed

/-- Some operations lead to the graph from an empty or a loaded one, however many ids they asked
    for. -/
def Reachable (g : Graph) : Prop :=
  ∃ start commands, Starts start ∧ (Command.performAll commands start).graph = g

theorem Reachable.indexed {g : Graph} (h : g.Reachable) : g.Indexed := by
  obtain ⟨start, commands, hstart, rfl⟩ := h
  exact hstart.indexed_performAll commands

/-! ## Documents -/

/-- Once the records of a document are read, there is a number to go on with. -/
theorem resumes {registry : Registry} {d : GraphDocument} {r : Records}
    (h : d.readAll registry = .ok r) : ∃ next, resumeAt d.nextId r.ids = .ok next := by
  obtain ⟨-, -, -, -, htakes, hids⟩ := readAll_eq_ok.mp h
  refine ⟨_, (resumeAt_eq_ok fun i hi => ?_).mpr rfl⟩
  rw [hids, List.mem_reverse] at hi
  exact htakes.inRange i hi

/-- The counter of a loaded graph is above the ids of all records, restored or not. -/
theorem load_above_records {registry : Registry} {d : GraphDocument} {g : Graph}
    {repairs : List Repair} {r : Records} (h : d.load registry = .ok (g, repairs))
    (hr : d.readAll registry = .ok r) : ∀ j ∈ r.allIds, j < g.nextId := by
  obtain ⟨-, -, r', hr', rfl, -⟩ := load_eq_ok.mp h
  cases hr.symm.trans hr'
  obtain ⟨-, -, -, -, -, hids⟩ := readAll_eq_ok.mp hr
  intro j hj
  have hle : j ≤ r.ids.foldl max 0 :=
    (le_foldl_max r.ids 0).2 j (by rw [hids]; exact List.mem_reverse.mpr hj)
  show j < max d.nextId _
  omega

/-! ## Two parts of a run -/

/-- What is known of the numbers of a run in two parts, which led from the start to `g` and on to
    `g'`, when these were asked for. -/
structure CountsUp (start g g' : Graph) (first later : List Nat) : Prop where
  /-- No number is in use twice, and all are below the counter. -/
  numbered : g'.Numbered
  /-- Each number is above those before it. -/
  increasing : (first ++ later).Pairwise (· < ·)
  /-- The numbers start where the counter was. -/
  since : ∀ i ∈ first ++ later, start.nextId ≤ i
  /-- The numbers of the second part are above all that were in use before it, though they may have
      become free since. -/
  above : ∀ j ∈ g.ids, ∀ i ∈ later, j < i
  /-- Each table has what is left of the start in front and then the new, in the order of the
      numbers. -/
  grows : start.Grows g' (first ++ later)

theorem Starts.counts_up {start : Graph} (hs : start.Starts) {before after : List Command}
    {first later : List Nat} (hfirst : (Command.performAll before).Books start first)
    (hlater : (Command.performAll after).Books (Command.performAll before start).graph later)
    (hroom : start.nextId + (first.length + later.length) < lastNumber) :
    start.CountsUp (Command.performAll before start).graph
      (Command.performAll after (Command.performAll before start).graph).graph first later := by
  have hmid := hfirst.evolves.nextId_eq (by omega)
  have hend := hlater.evolves.nextId_eq (by omega)
  have hrange : later = List.range' (Command.performAll before start).graph.nextId later.length :=
    hlater.issues.eq_range' (by omega)
  have hwhole : first ++ later = List.range' start.nextId (first.length + later.length) := by
    rw [← List.range'_append_1, ← hmid, ← hrange, ← hfirst.issues.eq_range' (by omega)]
  have hsound : (Command.performAll before start).graph.Sound :=
    performAll_keeps (fun c _ hg hlast => hg.perform c hlast) hs.sound (by omega)
  constructor
  case numbered =>
    exact (performAll_keeps (fun c _ hg hlast => hg.perform c hlast) hsound (by omega)).numbered
  case increasing =>
    rw [hwhole]
    exact List.pairwise_lt_range'
  case since =>
    intro i hi
    rw [hwhole, List.mem_range'_1] at hi
    exact hi.1
  case above =>
    intro j hj i hi
    rw [hrange, List.mem_range'_1] at hi
    exact Nat.lt_of_lt_of_le (hsound.numbered.below j hj) hi.1
  case grows =>
    exact (hfirst.evolves.trans hlater.evolves).grows hs.sound.numbered.below
      (by rw [List.length_append]; exact hroom)

/-- A number is never given out again.  Whatever a run did before and does after, it asks for certain
    numbers.  If they are fewer than there are above the highest id of a document, they grow and lie
    above all that are or were in use; after loading, that includes the ids of the records that were
    not restored.  And no document is refused for want of a number to go on with. -/
theorem numbers_never_come_again {start : Graph} (hs : start.Starts)
    (before after : List Command) :
    (∃ first later, (Command.performAll before).Issues start first ∧
      (Command.performAll after).Issues (Command.performAll before start).graph later) ∧
    (∀ first later, (Command.performAll before).Issues start first →
      (Command.performAll after).Issues (Command.performAll before start).graph later →
      first.length + later.length < 0x7fffffffffffffff →
      start.CountsUp (Command.performAll before start).graph
        (Command.performAll after (Command.performAll before start).graph).graph first later ∧
      ∀ registry d repairs r, GraphDocument.load registry d = .ok (start, repairs) →
        GraphDocument.readAll registry d = .ok r → ∀ j ∈ r.allIds, ∀ i ∈ first ++ later, j < i) ∧
    ∀ registry d r, GraphDocument.readAll registry d = .ok r →
      ∃ next, resumeAt d.nextId r.ids = .ok next := by
  obtain ⟨first, hfirst⟩ := performAll_booked before start
  obtain ⟨later, hlater⟩ := performAll_booked after (Command.performAll before start).graph
  refine ⟨⟨first, later, hfirst.issues, hlater.issues⟩, ?_, fun _ _ _ => resumes⟩
  intro first' later' hfirst' hlater' hids
  have hstart := hs.nextId_le
  have hroom : start.nextId + (first'.length + later'.length) < lastNumber := by
    simp only [maxDocumentId, lastNumber] at hstart ⊢
    omega
  have hmid := hfirst'.nextId_eq (by omega)
  -- The lists are those of the accounts.
  obtain rfl := hfirst'.unique hfirst.issues (by omega)
  obtain rfl := hlater'.unique hlater.issues (by omega)
  have hcounts := hs.counts_up hfirst hlater hroom
  refine ⟨hcounts, fun registry d repairs r hload hread j hj i hi => ?_⟩
  exact Nat.lt_of_lt_of_le (load_above_records hload hread j hj) (hcounts.since i hi)

/-- A document whose only record is a link between pins that are not there. -/
def cutLoose : GraphDocument where
  name := "cut loose"
  links := [(Link.mk ⟨9⟩ ⟨1⟩ ⟨2⟩).toDocument]

theorem cutLoose_number_stays_taken :
    ∃ g, cutLoose.load .builtin = .ok (g, [.linkDangling ⟨9⟩]) ∧
      g.CountsUp (Command.performAll [.addNode (.floatConstant 1)] g).graph
        (Command.performAll [.deleteNode ⟨10⟩, .addNode (.floatConstant 2)]
          (Command.performAll [.addNode (.floatConstant 1)] g).graph).graph [10, 11] [12, 13] ∧
      ∀ i ∈ [10, 11] ++ [12, 13], 9 < i := by
  have hload : cutLoose.load .builtin =
      .ok ({ Graph.new "cut loose" .builtin with nextId := 10 }, [.linkDangling ⟨9⟩]) := rfl
  have hread : cutLoose.readAll .builtin = .ok ⟨[], [], [], [⟨⟨9⟩, ⟨1⟩, ⟨2⟩⟩], [9]⟩ := rfl
  refine ⟨_, hload, ?_⟩
  obtain ⟨⟨first, later, hfirst, hlater⟩, hnumbers, -⟩ :=
    numbers_never_come_again (.loaded hload) [.addNode (.floatConstant 1)]
      [.deleteNode ⟨10⟩, .addNode (.floatConstant 2)]
  obtain rfl : first = [10, 11] := hfirst.of_nextId (n := 2) (by decide +kernel) (by decide)
  obtain rfl : later = [12, 13] := hlater.of_nextId (n := 2) (by decide +kernel) (by decide)
  obtain ⟨hgrown, hrecords⟩ := hnumbers _ _ hfirst hlater (by decide)
  exact ⟨hgrown, hrecords _ _ _ _ hload hread 9 (by decide)⟩

end Graph

end FlowGraph
