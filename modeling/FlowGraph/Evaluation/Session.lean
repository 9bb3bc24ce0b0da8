import FlowGraph.Graph.Contents

/-!
# Sessions

An evaluator keeps the counters and the outcome of its last pass.  A session is an evaluator at work
on a graph, and an `Eval` is a step of it that may fail: whatever it did before it failed stays
done.  Besides the failures of the domain there is `Stop.exhausted`, the end of a recursion whose
depth was bounded too low; the bound that is used is never too low.
-/

namespace FlowGraph

/-- The number of flow steps a pass may take when nothing else is configured. -/
def defaultFlowSteps : Nat := 1000

structure Evaluator where
  /-- Flow steps after which a pass counts as an infinite loop; at least one. -/
  maxFlowSteps : Nat := defaultFlowSteps
  /-- Steps taken by the last pass. -/
  evaluated : Nat := 0
  /-- Pure nodes evaluated on demand by the last pass. -/
  pulled : Nat := 0
  lastError : Option EvaluationError := none
  /-- The flow nodes evaluated by the last pass, in order. -/
  visited : List NodeId := []
  /-- The pure nodes whose inputs are being resolved right now. -/
  inProgress : List NodeId := []
deriving Repr, Inhabited

/-- An evaluator with the given step limit, raised to one if it is zero. -/
def Evaluator.withLimit (maxFlowSteps : Nat) : Evaluator where
  maxFlowSteps := max maxFlowSteps 1

structure Session where
  evaluator : Evaluator
  graph : Graph
deriving Repr, Inhabited

/-- Why a step ended early. -/
inductive Stop where
  | failed (error : EvaluationError)
  | exhausted
deriving Repr

structure Ran (α : Type) where
  answer : Except Stop α
  session : Session
  reports : List Report := []

def Eval (α : Type) : Type := Session → Ran α

namespace Eval

instance : Monad Eval where
  pure a := fun s => ⟨.ok a, s, []⟩
  bind m f := fun s =>
    match m s with
    | ⟨.ok a, t, before⟩ =>
      let rest := f a t
      ⟨rest.answer, rest.session, before ++ rest.reports⟩
    | ⟨.error stop, t, before⟩ => ⟨.error stop, t, before⟩

variable {α β : Type}

def fail (error : EvaluationError) : Eval α := fun s => ⟨.error (.failed error), s, []⟩

/-- Gives up because the recursion is as deep as it may be. -/
def exhaust : Eval α := fun s => ⟨.error .exhausted, s, []⟩

/-- The graph as it stands. -/
def graph : Eval Graph := fun s => ⟨.ok s.graph, s, []⟩

/-- The evaluator as it stands. -/
def evaluator : Eval Evaluator := fun s => ⟨.ok s.evaluator, s, []⟩

def updateEvaluator (f : Evaluator → Evaluator) : Eval Unit :=
  fun s => ⟨.ok (), { s with evaluator := f s.evaluator }, []⟩

def report (r : Report) : Eval Unit := fun s => ⟨.ok (), s, [r]⟩

/-- Does an edit of the graph. -/
def edit (e : Edit α) : Eval α := fun s =>
  let done := e s.graph
  ⟨.ok done.answer, { s with graph := done.graph }, done.reports⟩

/-- Does an edit that may be refused; a refusal is a failure of the node. -/
def attempt (node : NodeId) (e : Edit (Except GraphError α)) : Eval α := do
  match ← edit e with
  | .ok a => return a
  | .error cause => fail (.graph node cause)

/-- Runs a step and then changes the session, whether or not the step failed. -/
def andFinally (m : Eval α) (f : Session → Session) : Eval α := fun s =>
  let done := m s
  { done with session := f done.session }

@[simp] theorem pure_apply (a : α) (s : Session) : (pure a : Eval α) s = ⟨.ok a, s, []⟩ := rfl

theorem bind_apply (m : Eval α) (f : α → Eval β) (s : Session) :
    (m >>= f) s =
      match (m s).answer with
      | .ok a =>
        ⟨(f a (m s).session).answer, (f a (m s).session).session,
          (m s).reports ++ (f a (m s).session).reports⟩
      | .error stop => ⟨.error stop, (m s).session, (m s).reports⟩ := by
  show (match m s with | ⟨.ok a, t, before⟩ => _ | ⟨.error stop, t, before⟩ => _) = _
  rcases m s with ⟨_ | _, t, before⟩ <;> rfl

/-- A failure ends a step however its parts are grouped. -/
instance : LawfulMonad Eval := LawfulMonad.mk' Eval
  (fun m => funext fun s => by
    show (m >>= pure) s = m s
    rw [bind_apply]
    rcases m s with ⟨_ | _, t, before⟩ <;> simp)
  (fun _ _ => rfl)
  (fun m f k => funext fun s => by
    simp only [bind_apply]
    rcases m s with ⟨_ | a, t, before⟩
    · rfl
    · dsimp only
      cases (f a t).answer <;> simp [List.append_assoc])

end Eval

end FlowGraph
