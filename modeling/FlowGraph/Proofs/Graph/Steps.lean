import FlowGraph.Graph.Contents
import FlowGraph.Proofs.Graph.Growth

/-!
# Edits step by step

Two ways to follow a property of the graph through an edit that is made of others.  A view that no
part changes is not changed by the whole (`forM_view`).  A property that each part keeps is kept by
the whole, provided that the counter stays below its end (`forM_steps`); since the counter never
goes back (`Counts`), it is enough to know this of the graph after the edit.
-/

namespace FlowGraph

namespace Edit

variable {α β : Type}

/-- A view of the graph that no step changes. -/
theorem forM_view (view : Graph → β) {f : α → Edit Unit}
    (h : ∀ x g, view (f x g).graph = view g) (xs : List α) (g : Graph) :
    view (xs.forM f g).graph = view g := by
  rw [forM_graph]
  induction xs generalizing g with
  | nil => rfl
  | cons x xs ih => exact (ih _).trans (h x g)

/-- The edit does not turn the counter back, unless it runs it to its end. -/
def Counts (e : Edit α) : Prop :=
  ∀ g, (e g).graph.nextId < lastNumber → g.nextId ≤ (e g).graph.nextId

theorem Counts.forM {f : α → Edit Unit} (h : ∀ x, Counts (f x)) (xs : List α) :
    Counts (xs.forM f) := by
  intro g
  rw [forM_graph]
  induction xs generalizing g with
  | nil => exact fun _ => Nat.le_refl _
  | cons x xs ih =>
    intro hlast
    have hrest := ih _ hlast
    exact Nat.le_trans (h x g (Nat.lt_of_le_of_lt hrest hlast)) hrest

/-- What holds before the first step and is carried on by each step, to one item more, holds of all
    items in the end. -/
theorem forM_steps_prefix {Q : List α → Graph → Prop} {f : α → Edit Unit} (hc : ∀ x, Counts (f x))
    (xs : List α)
    (hstep : ∀ done x g, done ++ [x] <+: xs → Q done g → (f x g).graph.nextId < lastNumber →
      Q (done ++ [x]) (f x g).graph)
    {g : Graph} (h : Q [] g) (hlast : (xs.forM f g).graph.nextId < lastNumber) :
    Q xs (xs.forM f g).graph := by
  suffices hgen : ∀ (rest done : List α) (g : Graph), done ++ rest = xs → Q done g →
      (rest.forM f g).graph.nextId < lastNumber → Q xs (rest.forM f g).graph from
    hgen xs [] g rfl h hlast
  intro rest
  induction rest with
  | nil =>
    rintro done g rfl hq _
    rw [List.append_nil]
    exact hq
  | cons x rest ih =>
    intro done g hxs hq hlast
    have hsofar : (done ++ [x]) ++ rest = xs := by
      rw [← hxs, List.append_assoc, List.singleton_append]
    have hfirst : (f x g).graph.nextId < lastNumber :=
      Nat.lt_of_le_of_lt (Counts.forM hc rest _ hlast) hlast
    exact ih (done ++ [x]) _ hsofar (hstep done x g ⟨rest, hsofar⟩ hq hfirst) hlast

/-- The same where a step does not care which items come after it. -/
theorem forM_steps {Q : List α → Graph → Prop} {f : α → Edit Unit} (hc : ∀ x, Counts (f x))
    (hstep : ∀ done x g, Q done g → (f x g).graph.nextId < lastNumber →
      Q (done ++ [x]) (f x g).graph)
    (xs : List α) {g : Graph} (h : Q [] g) (hlast : (xs.forM f g).graph.nextId < lastNumber) :
    Q xs (xs.forM f g).graph :=
  forM_steps_prefix hc xs (fun done x g _ => hstep done x g) h hlast

end Edit

namespace Graph

open Edit

variable {g : Graph}

/-! ## The counter through the edits of nodes, pins and links -/

theorem deleteLink_nextId (id : LinkId) (g : Graph) :
    (deleteLink id g).graph.nextId = g.nextId := by
  cases h : g.links.get? id with
  | none => rw [deleteLink_graph_of_none h]
  | some link => rw [deleteLink_graph_of_some h]

theorem deleteLinks_nextId (ids : List LinkId) (g : Graph) :
    (deleteLinks ids g).graph.nextId = g.nextId :=
  forM_view (·.nextId) (fun id g => deleteLink_nextId id g) ids g

theorem le_counted (hlast : g.counted.nextId < lastNumber) : g.nextId ≤ g.counted.nextId := by
  have hnext : g.counted.nextId = g.nextId + 1 := nextNumber_of_lt hlast
  omega

theorem addPin_counts (node : NodeId) (spec : PinSpec) : Counts (addPin node spec) :=
  fun _ hlast => le_counted hlast

theorem addPins_counts (node : NodeId) (specs : List PinSpec) : Counts (addPins node specs) :=
  Counts.forM (addPin_counts node) specs

/-! ## Making a link -/

/-- The two outcomes of linking two pins: it is refused and nothing happened, or the input gave up
    its link and the new one is there. -/
theorem createLink_cases (a b : PinId) (g : Graph) :
    ((∃ cause, (createLink a b g).answer = .error cause) ∧ (createLink a b g).graph = g ∧
      (createLink a b g).reports = []) ∨
    ∃ p q, g.pins.get? a = some p ∧ g.pins.get? b = some q ∧ p.canConnect q = true ∧
      (createLink a b g).answer =
        .ok ⟨(deleteLinks (if p.direction = .input then p else q).links g).graph.nextId⟩ ∧
      (createLink a b g).graph =
        (deleteLinks (if p.direction = .input then p else q).links g).graph.withLink a b := by
  cases ha : g.pins.get? a with
  | none => exact .inl (by simp [createLink, ha])
  | some p =>
    cases hb : g.pins.get? b with
    | none => exact .inl (by simp [createLink, ha, hb])
    | some q =>
      by_cases hpq : p.canConnect q = true
      · refine .inr ⟨p, q, rfl, rfl, hpq, ?_, ?_⟩
        · simp [createLink, ha, hb, hpq]
        · simp [createLink, ha, hb, hpq, withLink, counted]
      · exact .inl (by simp [createLink, ha, hb, hpq])

theorem createLink_counts (a b : PinId) : Counts (createLink a b) := by
  intro g hlast
  rcases createLink_cases a b g with ⟨-, hg, -⟩ | ⟨p, q, -, -, -, -, hg⟩
  · exact Nat.le_of_eq (by rw [hg])
  · rw [hg] at hlast ⊢
    have hle := le_counted hlast
    rwa [deleteLinks_nextId] at hle

/-- Drawing a cut link again is linking two pins, or nothing is done. -/
theorem redraw_eq (node : NodeId) (cut : CutLink) (g : Graph) :
    redraw node cut g = ⟨(), g, []⟩ ∨ ∃ a b, redraw node cut g = discard (createLink a b) g := by
  simp only [redraw, current_bind]
  cases g.findPin? node cut.direction cut.name with
  | none => exact .inl rfl
  | some p =>
    cases g.findEnd? node cut.far with
    | none => exact .inl rfl
    | some q => exact .inr ⟨p, q, rfl⟩

theorem redraw_counts (node : NodeId) (cut : CutLink) : Counts (redraw node cut) := by
  intro g hlast
  rcases redraw_eq node cut g with hg | ⟨a, b, hg⟩
  · exact Nat.le_of_eq (by rw [hg])
  · rw [hg] at hlast ⊢
    exact createLink_counts a b g hlast

end Graph

end FlowGraph
