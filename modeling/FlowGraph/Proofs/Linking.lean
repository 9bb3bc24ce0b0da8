import FlowGraph.Proofs.Cascades
import FlowGraph.Proofs.Graph.CutLinks
import FlowGraph.Proofs.Graph.Relayout
import FlowGraph.Proofs.Refusals

/-!
# What a new link replaces

An input has room for one link.  A new link evicts the old one, which has another end that may be
any output: that of the new link, when two pins are linked again, or one that has no part in it
otherwise.  `Graph.Connects` says what becomes of the pins in each of these cases, and that nothing
else changes.  It is stated for the input and the output, since either of them may be given first.
-/

namespace FlowGraph

/-- Linking an input leaves it with the new link only. -/
theorem Pin.connect_input {p : Pin} (hd : p.direction = .input) (l : LinkId) :
    p.connect l = { p with links := [l] } := by
  simp only [connect, hd]

theorem Pin.connect_output {p : Pin} (hd : p.direction = .output) (l : LinkId) :
    p.connect l = { p with links := p.links ++ [l] } := by
  simp only [connect, hd]

namespace Graph

open Edit

/-- What linking an input with an output does to a graph. -/
structure Connects (g : Graph) (i o : Pin) (link : Link) (g' : Graph) : Prop where
  fresh : link.id.number ∉ g.ids
  /-- There is one link at most to be evicted. -/
  single : i.links.length ≤ 1
  /-- It is the only link that goes, and the new one comes last. -/
  links : g'.links.entries =
    (g.links.entries.filter fun e => !i.links.contains e.1) ++ [(link.id, link)]
  keys : g'.pins.keys = g.pins.keys
  input : g'.pins.get? i.id = some { i with links := [link.id] }
  /-- The output loses the evicted link if that was its own. -/
  output : g'.pins.get? o.id =
    some { o with links := (o.links.filter fun l => !i.links.contains l) ++ [link.id] }
  /-- Another pin that fed the input loses the evicted link and nothing else. -/
  source : ∀ s pin, g.feedingPin? i.id = some s → s ≠ o.id → g.pins.get? s = some pin →
    g'.pins.get? s = some { pin with links := pin.links.filter fun l => !i.links.contains l }
  others : ∀ k, k ≠ i.id → k ≠ o.id → g.feedingPin? i.id ≠ some k →
    g'.pins.get? k = g.pins.get? k
  feeds : g'.feedingPin? i.id = some o.id
  rest : g' = { g with nextId := nextNumber g.nextId, pins := g'.pins, links := g'.links }

variable {g : Graph}

theorem ne_of_direction {p q : PinId} {a b : Pin} (ha : g.pins.get? p = some a)
    (hb : g.pins.get? q = some b) (hd : a.direction ≠ b.direction) : p ≠ q := by
  rintro rfl
  rw [ha] at hb
  cases hb
  exact hd rfl

/-- A pin that has a link of an input on its list feeds this input, unless it is the input. -/
theorem Intact.feedingPin?_of_shared (h : g.Intact) {i : Pin} (hi : g.pins.get? i.id = some i)
    (hd : i.direction = .input) {k : PinId} {pin : Pin} (hk : g.pins.get? k = some pin)
    (hne : k ≠ i.id) {l : LinkId} (hl : l ∈ pin.links) (hli : l ∈ i.links) :
    g.feedingPin? i.id = some k := by
  rw [h.entered hk, mem_linksAt_iff h.links] at hl
  rw [h.entered hi, mem_linksAt_iff h.links] at hli
  obtain ⟨link, hlink, hinv⟩ := hl
  obtain ⟨link', hlink', hinv'⟩ := hli
  cases hlink.symm.trans hlink'
  rw [← Link.isSome_otherEnd?] at hinv'
  obtain ⟨q, hq⟩ := Option.isSome_iff_exists.mp hinv'
  obtain rfl := (Link.eq_of_involves hq hinv).resolve_left hne
  exact h.feedingPin?_of_otherEnd hi hd hlink hq

section Connect

variable {i o : Pin} {link : Link} (h : g.Sound) (hi : g.pins.get? i.id = some i)
  (ho : g.pins.get? o.id = some o) (hdi : i.direction = .input) (hdo : o.direction = .output)
  (hlink : link.otherEnd? i.id = some o.id)

include hi ho hdi hdo hlink in
/-- A pin of the graph in which the input gave up its link and the new link was added. -/
theorem get?_pin_relinked {k : PinId} {pin : Pin} (hk : g.pins.get? k = some pin) :
    (addLink link (g.withoutLinks i.links).counted).pins.get? k =
      some (if k = i.id ∨ k = o.id then (pin.without i.links).connect link.id
        else pin.without i.links) := by
  have hne : i.id ≠ o.id := ne_of_direction hi ho (by simp [hdi, hdo])
  have hends : link.start ≠ link.finish := by
    rcases Link.otherEnd?_eq_some.mp hlink with ⟨hs, hf⟩ | ⟨hf, hs⟩
    · rwa [hs, hf]
    · rw [hs, hf]
      exact hne.symm
  have hinv : link.involves k = true ↔ k = i.id ∨ k = o.id := by
    refine ⟨Link.eq_of_involves hlink, ?_⟩
    rintro (rfl | rfl)
    · exact (Link.involves_of_otherEnd? hlink).1
    · exact (Link.involves_of_otherEnd? hlink).2
  rw [get?_pin_addLink hends]
  simp only [counted, withoutLinks, Table.get?_map, hk, Option.map_some, hinv]

include h hi ho hdi hdo hlink in
theorem Sound.connects (hid : link.id = ⟨g.nextId⟩) :
    g.Connects i o link (addLink link (g.withoutLinks i.links).counted) := by
  have hview := fun {k pin} (hk : g.pins.get? k = some pin) =>
    get?_pin_relinked hi ho hdi hdo hlink hk
  have hnew : link.id ∉ (g.withoutLinks i.links).links.keys := by
    rw [hid, withoutLinks, Table.keys_filter]
    exact fun hm => h.numbered.fresh_link (List.mem_of_mem_filter hm)
  have hkeys : (addLink link (g.withoutLinks i.links).counted).pins.keys = g.pins.keys := by
    simp only [Graph.addLink, Table.keys_modify, Graph.counted, withoutLinks, Table.keys_map]
  have hinput : (addLink link (g.withoutLinks i.links).counted).pins.get? i.id =
      some { i with links := [link.id] } := by
    rw [hview hi, if_pos (.inl rfl), Pin.connect_input (p := i.without i.links) hdi]
    rfl
  refine {
    fresh := hid ▸ h.numbered.fresh
    single := h.intact.fed hi hdi
    links := ?_
    keys := hkeys
    input := hinput
    output := ?_
    source := fun s pin hs hne hp => ?_
    others := fun k hki hko hnot => ?_
    feeds := ?_
    rest := rfl }
  · exact Table.entries_insert_of_not_mem hnew link
  · rw [hview ho, if_pos (.inr rfl), Pin.connect_output (p := o.without i.links) hdo]
    rfl
  · have hsi : s ≠ i.id := by
      obtain ⟨-, q, -, -, hq, hdq, -⟩ := h.intact.feeding hs
      exact ne_of_direction hq hi (by simp [hdq, hdi])
    rw [hview hp, if_neg (by simp [hsi, hne])]
    rfl
  · cases hk : g.pins.get? k with
    | none => exact Table.get?_eq_none (hkeys ▸ Table.not_mem_keys_of_none hk)
    | some pin =>
      rw [hview hk, if_neg (by simp [hki, hko]), Pin.without_eq_self]
      exact fun l hl hli => hnot (h.intact.feedingPin?_of_shared hi hdi hk hki hl hli)
  · refine feedingPin?_eq_some.mpr ⟨_, link.id, link, hinput, hdi, rfl, ?_, hlink⟩
    simp [addLink]

end Connect

/-- Whether two pins get linked is said by the pins. -/
theorem Intact.createLink_isOk (h : g.Intact) {a b : PinId} :
    (createLink a b g).answer.isOk = true ↔ ∃ p q, g.pins.get? a = some p ∧
      g.pins.get? b = some q ∧ a ≠ b ∧ p.type = q.type ∧ p.direction ≠ q.direction := by
  rw [createLink_isOk_iff, canConnect?_eq]
  refine exists_congr fun p => exists_congr fun q => and_congr_right fun ha =>
    and_congr_right fun hb => ?_
  rw [Pin.canConnect_iff, h.pins.get?_id ha, h.pins.get?_id hb]
  exact and_congr ne_comm (and_congr eq_comm ne_comm)

/-- The first pin is the input, or the second is. -/
theorem Sound.createLink_connects (h : g.Sound) {a b : PinId} {l : LinkId}
    (hl : (Graph.createLink a b g).answer = .ok l) :
    ∃ i o, i.direction = .input ∧ o.direction = .output ∧
      (g.pins.get? a = some i ∧ g.pins.get? b = some o ∨
        g.pins.get? a = some o ∧ g.pins.get? b = some i) ∧
      g.Connects i o ⟨l, a, b⟩ (Graph.createLink a b g).graph := by
  rcases createLink_cases a b g with ⟨⟨cause, hno⟩, -⟩ | ⟨p, q, ha, hb, hpq, hok, hg⟩
  · rw [hl] at hno
    cases hno
  · rw [h.intact.deleteLinks_takes] at hok hg
    obtain rfl : l = ⟨g.nextId⟩ := by
      rw [hl] at hok
      exact Except.ok.inj hok
    obtain rfl := h.intact.pins.get?_id ha
    obtain rfl := h.intact.pins.get?_id hb
    obtain ⟨-, -, hdir⟩ := Pin.canConnect_iff.mp hpq
    rw [hg]
    cases hd : p.direction with
    | input =>
      have hdq : q.direction = .output := by
        cases hq : q.direction with
        | input => exact absurd (hq.trans hd.symm) hdir
        | output => rfl
      rw [if_pos rfl]
      exact ⟨p, q, hd, hdq, .inl ⟨ha, hb⟩, h.connects ha hb hd hdq
        (Link.otherEnd?_eq_some.mpr (.inl ⟨rfl, rfl⟩)) rfl⟩
    | output =>
      have hdq : q.direction = .input := Direction.input_of_ne hdir (by simp [hd])
      rw [if_neg nofun]
      exact ⟨q, p, hdq, hd, .inr ⟨ha, hb⟩, h.connects hb ha hdq hd
        (Link.otherEnd?_eq_some.mpr (.inr ⟨rfl, rfl⟩)) rfl⟩

/-- Two pins are linked exactly if they are there, are two, and have one type and opposite
    directions.  Then the new link replaces the one that the input had, on the lists of all pins
    concerned, and all else stays as it was. -/
theorem linking_connects_and_evicts {start : Graph} (hs : start.Starts) (h : start.Reaches g)
    (a b : PinId) :
    ((createLink a b g).answer.isOk = true ↔ ∃ p q, g.pins.get? a = some p ∧
      g.pins.get? b = some q ∧ a ≠ b ∧ p.type = q.type ∧ p.direction ≠ q.direction) ∧
    ∀ l, (createLink a b g).answer = .ok l → ∃ i o,
      i.direction = .input ∧ o.direction = .output ∧
      (g.pins.get? a = some i ∧ g.pins.get? b = some o ∨
        g.pins.get? a = some o ∧ g.pins.get? b = some i) ∧
      g.Connects i o ⟨l, a, b⟩ (createLink a b g).graph :=
  ⟨(h.sound hs).intact.createLink_isOk, fun _ hl => (h.sound hs).createLink_connects hl⟩

/-- Two constants, the first of which feeds a log node. -/
def contested : Graph :=
  (Command.performAll
    [.addNode (.floatConstant 1), .addNode (.floatConstant 2), .addNode (.logValue "sum"),
      .createLink ⟨2⟩ ⟨8⟩]
    (Graph.new "contested" .builtin)).graph

/-- The log node is fed by the second constant, or by the first one again. -/
theorem contested_is_fed_anew :
    (∃ i o, contested.Connects i o ⟨⟨11⟩, ⟨8⟩, ⟨4⟩⟩ (createLink ⟨8⟩ ⟨4⟩ contested).graph) ∧
    (∃ i o, contested.Connects i o ⟨⟨11⟩, ⟨8⟩, ⟨2⟩⟩ (createLink ⟨8⟩ ⟨2⟩ contested).graph) ∧
    (createLink ⟨8⟩ ⟨4⟩ contested).graph.pins.values.map Pin.links =
      [[], [⟨11⟩], [], [], [⟨11⟩], []] ∧
    (createLink ⟨8⟩ ⟨2⟩ contested).graph.pins.values.map Pin.links =
      [[⟨11⟩], [], [], [], [⟨11⟩], []] := by
  have hlinks := fun b => linking_connects_and_evicts (.new _ _) (g := contested)
    ⟨⟨_, rfl⟩, by decide +kernel⟩ ⟨8⟩ b
  obtain ⟨i, o, -, -, -, hother⟩ := (hlinks ⟨4⟩).2 ⟨11⟩ rfl
  obtain ⟨i', o', -, -, -, hsame⟩ := (hlinks ⟨2⟩).2 ⟨11⟩ rfl
  exact ⟨⟨i, o, hother⟩, ⟨i', o', hsame⟩, by decide +kernel, by decide +kernel⟩

end Graph

end FlowGraph
