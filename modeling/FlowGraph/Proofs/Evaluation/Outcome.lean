import FlowGraph.Evaluation.Pass

/-!
# Following a step of an evaluator

Two ways to say what a step does to its session.  `Keeps` is about every outcome alike: what holds
before holds after, also when the step failed halfway.  `Ends` tells the outcomes apart: one
condition for the answer, one for the reason of a failure.  Both have a rule for each way in which
steps are composed, so that a body is followed rule by rule and never run.
-/

namespace FlowGraph.Eval

variable {α β : Type} {P : Session → Prop}

/-! ## What every outcome keeps -/

/-- What holds before the step holds after it, whether or not it failed. -/
def Keeps (P : Session → Prop) (m : Eval α) : Prop := ∀ s, P s → P (m s).session

theorem Keeps.pure (a : α) : Keeps P (pure a : Eval α) := fun _ h => h

theorem Keeps.fail (error : EvaluationError) : Keeps P (fail error : Eval α) := fun _ h => h

theorem Keeps.exhaust : Keeps P (exhaust : Eval α) := fun _ h => h

theorem Keeps.graph : Keeps P graph := fun _ h => h

theorem Keeps.evaluator : Keeps P evaluator := fun _ h => h

theorem Keeps.report (r : Report) : Keeps P (report r) := fun _ h => h

theorem Keeps.bind {m : Eval α} {f : α → Eval β} (hm : Keeps P m) (hf : ∀ a, Keeps P (f a)) :
    Keeps P (m >>= f) := by
  intro s h
  have hs := hm s h
  rw [bind_apply]
  split
  · exact hf _ _ hs
  · exact hs

theorem Keeps.and {Q : Session → Prop} {m : Eval α} (hp : Keeps P m) (hq : Keeps Q m) :
    Keeps (fun s => P s ∧ Q s) m := fun s h => ⟨hp s h.1, hq s h.2⟩

theorem Keeps.edit {e : Edit α} (h : ∀ s, P s → P { s with graph := (e s.graph).graph }) :
    Keeps P (edit e) := fun s hs => h s hs

theorem Keeps.attempt {e : Edit (Except GraphError α)} (node : NodeId)
    (h : ∀ s, P s → P { s with graph := (e s.graph).graph }) : Keeps P (attempt node e) := by
  refine (Keeps.edit h).bind fun answer => ?_
  cases answer with
  | ok a => exact .pure a
  | error cause => exact .fail _

theorem Keeps.forM {f : α → Eval Unit} (h : ∀ x, Keeps P (f x)) (xs : List α) :
    Keeps P (xs.forM f) := by
  induction xs with
  | nil => exact .pure ()
  | cons x xs ih => exact (h x).bind fun _ => ih

/-! ## Telling the outcomes apart -/

/-- The step answers and `Q` holds of the answer, or it fails and `E` holds of the reason. -/
def Ends (m : Eval α) (s : Session) (Q : α → Session → Prop) (E : Stop → Session → Prop) : Prop :=
  match (m s).answer with
  | .ok a => Q a (m s).session
  | .error stop => E stop (m s).session

variable {s : Session} {Q : α → Session → Prop} {E : Stop → Session → Prop}

@[simp] theorem ends_pure {a : α} : (pure a : Eval α).Ends s Q E ↔ Q a s := Iff.rfl

@[simp] theorem ends_fail {error : EvaluationError} :
    (fail error : Eval α).Ends s Q E ↔ E (.failed error) s := Iff.rfl

@[simp] theorem ends_exhaust : (exhaust : Eval α).Ends s Q E ↔ E .exhausted s := Iff.rfl

@[simp] theorem ends_graph {Q : Graph → Session → Prop} : graph.Ends s Q E ↔ Q s.graph s := Iff.rfl

@[simp] theorem ends_evaluator {Q : Evaluator → Session → Prop} :
    evaluator.Ends s Q E ↔ Q s.evaluator s := Iff.rfl

@[simp] theorem ends_updateEvaluator {f : Evaluator → Evaluator} {Q : Unit → Session → Prop} :
    (updateEvaluator f).Ends s Q E ↔ Q () { s with evaluator := f s.evaluator } := Iff.rfl

@[simp] theorem ends_report {r : Report} {Q : Unit → Session → Prop} :
    (report r).Ends s Q E ↔ Q () s := Iff.rfl

@[simp] theorem ends_edit {e : Edit α} :
    (edit e).Ends s Q E ↔ Q (e s.graph).answer { s with graph := (e s.graph).graph } := Iff.rfl

@[simp] theorem ends_andFinally {m : Eval α} {f : Session → Session} :
    (andFinally m f).Ends s Q E ↔ m.Ends s (fun a t => Q a (f t)) fun stop t => E stop (f t) :=
  Iff.rfl

@[simp] theorem ends_bind {m : Eval α} {f : α → Eval β} {Q : β → Session → Prop} :
    (m >>= f).Ends s Q E ↔ m.Ends s (fun a t => (f a).Ends t Q E) E := by
  unfold Ends
  rw [bind_apply]
  cases (m s).answer <;> exact Iff.rfl

/-- An edit that is attempted answers, or is refused. -/
theorem ends_attempt {node : NodeId} {e : Edit (Except GraphError α)} :
    (attempt node e).Ends s Q E ↔
      match (e s.graph).answer with
      | .ok a => Q a { s with graph := (e s.graph).graph }
      | .error cause => E (.failed (.graph node cause)) { s with graph := (e s.graph).graph } := by
  rw [attempt, ends_bind, ends_edit]
  cases (e s.graph).answer <;> exact Iff.rfl

theorem Ends.mono {m : Eval α} {Q' : α → Session → Prop} {E' : Stop → Session → Prop}
    (h : m.Ends s Q E) (hq : ∀ a t, Q a t → Q' a t) (he : ∀ stop t, E stop t → E' stop t) :
    m.Ends s Q' E' := by
  unfold Ends at h ⊢
  cases ha : (m s).answer with
  | ok a =>
    rw [ha] at h
    exact hq a _ h
  | error stop =>
    rw [ha] at h
    exact he stop _ h

/-- How a step ends from a session is a matter of what it does there. -/
theorem Ends.congr {m m' : Eval α} (heq : m' s = m s) (h : m.Ends s Q E) : m'.Ends s Q E := by
  unfold Ends at h ⊢
  rwa [heq]

theorem Keeps.ends {m : Eval α} (hk : Keeps P m) (hs : P s) :
    m.Ends s (fun _ t => P t) fun _ t => P t := by
  unfold Ends
  split <;> exact hk s hs

/-- What a step keeps holds besides whatever else is known of its end. -/
theorem Ends.and_keeps {m : Eval α} (h : m.Ends s Q E) (hk : Keeps P m) (hs : P s) :
    m.Ends s (fun a t => Q a t ∧ P t) fun stop t => E stop t ∧ P t := by
  unfold Ends at h ⊢
  cases ha : (m s).answer with
  | ok a =>
    rw [ha] at h
    exact ⟨h, hk s hs⟩
  | error stop =>
    rw [ha] at h
    exact ⟨h, hk s hs⟩

theorem Ends.ok {m : Eval α} {a : α} (h : m.Ends s Q E) (ha : (m s).answer = .ok a) :
    Q a (m s).session := by
  unfold Ends at h
  rwa [ha] at h

theorem Ends.of_ok {m : Eval α} {a : α} (ha : (m s).answer = .ok a) (hq : Q a (m s).session) :
    m.Ends s Q E := by
  unfold Ends
  rwa [ha]

theorem Ends.error {m : Eval α} {stop : Stop} (h : m.Ends s Q E)
    (ha : (m s).answer = .error stop) : E stop (m s).session := by
  unfold Ends at h
  rwa [ha] at h

/-- Two steps succeed if both do. -/
theorem ok_of_bind_ok {m m' : Eval Unit} {s : Session}
    (h : ((m >>= fun _ => m') s).answer = .ok ()) :
    (m s).answer = .ok () ∧ (m' (m s).session).answer = .ok () := by
  rw [bind_apply] at h
  cases ha : (m s).answer with
  | ok _ =>
    rw [ha] at h
    exact ⟨rfl, h⟩
  | error stop =>
    rw [ha] at h
    cases h

theorem eq_ok_of_isOk {ε : Type} {x : Except ε Unit} (h : x.isOk = true) : x = .ok () := by
  cases x with
  | error stop => cases h
  | ok _ => rfl

/-- What holds before the first step of a loop and is carried on by each step, to one item more,
    holds of all items in the end. -/
theorem ends_forM {I : List α → Session → Prop} {f : α → Eval Unit} (xs : List α) {s : Session}
    (h : I [] s)
    (hstep : ∀ done x t, done ++ [x] <+: xs → I done t →
      (f x).Ends t (fun _ u => I (done ++ [x]) u) E) :
    (xs.forM f).Ends s (fun _ t => I xs t) E := by
  suffices hgen : ∀ (rest done : List α) (t : Session), done ++ rest = xs → I done t →
      (rest.forM f).Ends t (fun _ u => I xs u) E from hgen xs [] s rfl h
  intro rest
  induction rest with
  | nil =>
    intro done t hdone ht
    rw [List.append_nil] at hdone
    subst hdone
    exact ht
  | cons x rest ih =>
    intro done t hdone ht
    have hprefix : done ++ [x] <+: xs := ⟨rest, by rw [← hdone, List.append_assoc]; rfl⟩
    refine ends_bind.mpr ((hstep done x t hprefix ht).mono (fun _ u hu => ?_) fun _ _ he => he)
    exact ih (done ++ [x]) u (by rw [← hdone, List.append_assoc]; rfl) hu

end FlowGraph.Eval
