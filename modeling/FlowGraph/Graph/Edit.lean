import FlowGraph.Report

/-!
# Edits

An edit of a graph gives an answer, the graph afterwards and what it reported, oldest first.  Edits
are composed like programs; reports are only ever added, so an edit cannot depend on them.
-/

namespace FlowGraph

structure Edited (α : Type) where
  answer : α
  graph : Graph
  reports : List Report := []

def Edit (α : Type) : Type := Graph → Edited α

namespace Edit

instance : Monad Edit where
  pure a := fun g => ⟨a, g, []⟩
  bind m f := fun g =>
    let first := m g
    let second := f first.answer first.graph
    ⟨second.answer, second.graph, first.reports ++ second.reports⟩

/-- The graph as it stands. -/
def current : Edit Graph := fun g => ⟨g, g, []⟩

def update (f : Graph → Graph) : Edit Unit := fun g => ⟨(), f g, []⟩

def report (r : Report) : Edit Unit := fun g => ⟨(), g, [r]⟩

/-- Tells the observers, with the graph as it stands. -/
def announce (event : Event) : Edit Unit := fun g => ⟨(), g, [.announced event g]⟩

/-- The next number of the counter. -/
def allocate : Edit Nat := fun g => ⟨g.nextId, { g with nextId := nextNumber g.nextId }, []⟩

variable {α β : Type}

@[simp] theorem pure_apply (a : α) (g : Graph) : (pure a : Edit α) g = ⟨a, g, []⟩ := rfl

@[simp] theorem bind_answer (m : Edit α) (f : α → Edit β) (g : Graph) :
    ((m >>= f) g).answer = (f (m g).answer (m g).graph).answer := rfl

@[simp] theorem bind_graph (m : Edit α) (f : α → Edit β) (g : Graph) :
    ((m >>= f) g).graph = (f (m g).answer (m g).graph).graph := rfl

@[simp] theorem bind_reports (m : Edit α) (f : α → Edit β) (g : Graph) :
    ((m >>= f) g).reports = (m g).reports ++ (f (m g).answer (m g).graph).reports := rfl

@[simp] theorem map_answer (f : α → β) (m : Edit α) (g : Graph) :
    ((f <$> m) g).answer = f (m g).answer := rfl

@[simp] theorem map_graph (f : α → β) (m : Edit α) (g : Graph) :
    ((f <$> m) g).graph = (m g).graph := rfl

@[simp] theorem discard_graph (m : Edit α) (g : Graph) : (discard m g).graph = (m g).graph := rfl

@[simp] theorem current_apply (g : Graph) : current g = ⟨g, g, []⟩ := rfl

@[simp] theorem update_apply (f : Graph → Graph) (g : Graph) : update f g = ⟨(), f g, []⟩ := rfl

@[simp] theorem report_apply (r : Report) (g : Graph) : report r g = ⟨(), g, [r]⟩ := rfl

@[simp] theorem announce_apply (e : Event) (g : Graph) :
    announce e g = ⟨(), g, [.announced e g]⟩ := rfl

@[simp] theorem allocate_apply (g : Graph) :
    allocate g = ⟨g.nextId, { g with nextId := nextNumber g.nextId }, []⟩ := rfl

theorem current_bind (f : Graph → Edit α) (g : Graph) : (current >>= f) g = f g g := rfl

theorem update_bind (u : Graph → Graph) (f : Unit → Edit α) (g : Graph) :
    (update u >>= f) g = f () (u g) := rfl

/-- An empty edit before or after changes nothing, and reports keep their order however edits are
    grouped. -/
instance : LawfulMonad Edit := LawfulMonad.mk' Edit
  (fun m => funext fun g => by
    show (⟨(m g).answer, (m g).graph, (m g).reports ++ []⟩ : Edited _) = m g
    rw [List.append_nil])
  (fun _ _ => rfl)
  (fun m f k => funext fun g => by
    show (⟨_, _, ((m g).reports ++ _) ++ _⟩ : Edited _) = ⟨_, _, _ ++ (_ ++ _)⟩
    rw [List.append_assoc]
    rfl)

/-- What a sequence of edits does to the graph, one after the other. -/
theorem forM_graph (f : α → Edit Unit) (xs : List α) (g : Graph) :
    (xs.forM f g).graph = xs.foldl (fun g x => (f x g).graph) g := by
  induction xs generalizing g with
  | nil => rfl
  | cons x xs ih => exact ih _

end Edit

end FlowGraph
