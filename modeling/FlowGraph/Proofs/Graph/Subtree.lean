import FlowGraph.Proofs.Graph.Sound
import Mathlib.Data.List.Induction

/-!
# The walk down from a property

Deleting a property first collects what is grouped under it: the walk looks at one property after
the other and adds the children that it has not found before.  `Graph.Walks` is the walk without a
bound on its steps.  It comes to its end whatever the parents are, also when they form a cycle
(`walks_subtree`), and it finds what the way up leads back from (`mem_subtree`).  Where parents form
no cycle, no property is found before one of its ancestors (`Descended.order`).
-/

namespace FlowGraph.Graph

variable {g : Graph}

/-! ## Parents and children -/

theorem mem_childrenOf (h : g.properties.Keyed Property.id) {parent child : PropertyId} :
    child ∈ g.childrenOf parent ↔ g.ChildOf child parent := by
  constructor
  · intro hc
    obtain ⟨p, hm, rfl⟩ := List.mem_map.mp hc
    obtain ⟨hv, hp⟩ := List.mem_filter.mp hm
    exact ⟨p, h.get?_of_mem_values hv, by simpa using hp⟩
  · rintro ⟨p, hp, hparent⟩
    have hid : p.id = child := h.get?_id hp
    exact hid ▸ List.mem_map_of_mem
      (List.mem_filter.mpr ⟨Table.mem_values_of_get? hp, by simpa using hparent⟩)

theorem nodup_childrenOf (h : g.properties.Keyed Property.id) (parent : PropertyId) :
    (g.childrenOf parent).Nodup := by
  have hsub : (g.childrenOf parent).Sublist g.properties.keys := by
    rw [← h.map_values]
    exact List.filter_sublist.map _
  exact h.nodup.sublist hsub

theorem ChildOf.unique {a b c : PropertyId} (h : g.ChildOf a b) (h' : g.ChildOf a c) : b = c := by
  obtain ⟨p, hp, hb⟩ := h
  obtain ⟨p', hp', hc⟩ := h'
  cases hp.symm.trans hp'
  exact Option.some.inj (hb.symm.trans hc)

theorem ChildOf.mem_keys {a b : PropertyId} (h : g.ChildOf a b) : a ∈ g.properties.keys := by
  obtain ⟨p, hp, -⟩ := h
  exact Table.mem_keys_of_get? hp

/-! ## The walk -/

/-- The walk down, without a bound on its steps: it ends with all that was found when nothing is
    left in the queue. -/
inductive Walks (g : Graph) : List PropertyId → List PropertyId → List PropertyId → Prop where
  | done {found : List PropertyId} : Walks g [] found found
  | step {parent : PropertyId} {queue found all : List PropertyId}
      (h : Walks g (queue ++ (g.childrenOf parent).filter (· ∉ found))
        (found ++ (g.childrenOf parent).filter (· ∉ found)) all) :
      Walks g (parent :: queue) found all

/-- What the walk down from a property has found so far: all of it is below the property and comes
    after its parent. -/
structure Descended (g : Graph) (root : PropertyId) (found : List PropertyId) : Prop where
  nodup : found.Nodup
  keys : ∀ a ∈ found, a ∈ g.properties.keys
  below : ∀ a ∈ found, Relation.ReflTransGen g.ChildOf a root
  parents : ∀ {before a}, before ++ [a] <+: found → a = root ∨ ∃ b ∈ before, g.ChildOf a b

section Walk

variable {root : PropertyId} {found queue all : List PropertyId}

theorem Descended.single (h : root ∈ g.properties.keys) : g.Descended root [root] where
  nodup := List.nodup_singleton root
  keys _ ha := List.mem_singleton.mp ha ▸ h
  below _ ha := List.mem_singleton.mp ha ▸ .refl
  parents ha := .inl (List.mem_singleton.mp (ha.subset (by simp)))

/-- The children of one that was found are added behind. -/
theorem Descended.extend (hkeyed : g.properties.Keyed Property.id) (h : g.Descended root found)
    {parent : PropertyId} (hparent : parent ∈ found) :
    g.Descended root (found ++ (g.childrenOf parent).filter (· ∉ found)) := by
  have hnodup := (nodup_childrenOf hkeyed parent).filter (· ∉ found)
  have hfresh : ∀ {a}, a ∈ (g.childrenOf parent).filter (· ∉ found) →
      g.ChildOf a parent ∧ a ∉ found := fun ha => by
    obtain ⟨hc, hnot⟩ := List.mem_filter.mp ha
    exact ⟨(mem_childrenOf hkeyed).mp hc, by simpa using hnot⟩
  generalize (g.childrenOf parent).filter (· ∉ found) = fresh at hnodup hfresh
  refine ⟨?_, fun a ha => ?_, fun a ha => ?_, fun {before a} ha => ?_⟩
  · refine List.nodup_append.mpr ⟨h.nodup, hnodup, ?_⟩
    rintro a ha b hb rfl
    exact (hfresh hb).2 ha
  · rcases List.mem_append.mp ha with ha | ha
    · exact h.keys a ha
    · exact (hfresh ha).1.mem_keys
  · rcases List.mem_append.mp ha with ha | ha
    · exact h.below a ha
    · exact .head (hfresh ha).1 (h.below parent hparent)
  · rcases List.prefix_or_prefix_of_prefix ha (List.prefix_append found fresh) with hold | hold
    · exact h.parents hold
    · rcases List.prefix_concat_iff.mp hold with rfl | hold
      · exact h.parents List.prefix_rfl
      · -- Everything found stands before a child that is added, its parent included.
        obtain ⟨more, rfl⟩ := hold
        rw [List.append_assoc, List.prefix_append_right_inj] at ha
        exact .inr ⟨parent, List.mem_append_left more hparent, (hfresh (ha.subset (by simp))).1⟩

/-- What is added to the queue is added to what was found. -/
theorem append_subset_append (hq : queue ⊆ found) (fresh : List PropertyId) :
    queue ++ fresh ⊆ found ++ fresh :=
  List.append_subset.mpr ⟨List.subset_append_of_subset_left fresh hq,
    List.subset_append_right found fresh⟩

/-- The walk comes to its end within as many steps as there are properties: each step finishes with
    one property of the queue, those finished and those in the queue are together the properties
    found, and there are no more than all of them. -/
theorem Descended.walks (hkeyed : g.properties.Keyed Property.id) (steps : Nat) :
    ∀ {queue found : List PropertyId}, g.Descended root found → queue ⊆ found →
      g.properties.size + queue.length ≤ steps + found.length →
      g.Walks queue found (descend g steps queue found) := by
  induction steps with
  | zero =>
    intro queue found h hq hsteps
    have hle : found.length ≤ g.properties.size := by
      rw [Table.size_eq_length_keys]
      exact h.nodup.length_le_of_subset h.keys
    have hnil : queue = [] := List.eq_nil_of_length_eq_zero (by omega)
    subst hnil
    exact .done
  | succ steps ih =>
    intro queue found h hq hsteps
    cases queue with
    | nil => exact .done
    | cons parent queue =>
      obtain ⟨hparent, hq⟩ := List.cons_subset.mp hq
      refine .step (ih (h.extend hkeyed hparent) (append_subset_append hq _) ?_)
      simp only [List.length_append, List.length_cons] at hsteps ⊢
      omega

theorem Walks.descended (hkeyed : g.properties.Keyed Property.id) (h : g.Walks queue found all)
    (hq : queue ⊆ found) (hd : g.Descended root found) : g.Descended root all := by
  induction h with
  | done => exact hd
  | step _ ih =>
    obtain ⟨hparent, hq⟩ := List.cons_subset.mp hq
    exact ih (append_subset_append hq _) (hd.extend hkeyed hparent)

/-- The walk only adds to what was found. -/
theorem Walks.isPrefix (h : g.Walks queue found all) : found <+: all := by
  induction h with
  | done => exact List.prefix_rfl
  | step _ ih => exact (List.prefix_append _ _).trans ih

/-- What was found in the end is closed under children: those of a property are there once it has
    left the queue. -/
theorem Walks.closed (hkeyed : g.properties.Keyed Property.id) (h : g.Walks queue found all)
    (hdone : ∀ a ∈ found, a ∉ queue → ∀ c, g.ChildOf c a → c ∈ found) :
    ∀ a ∈ all, ∀ c, g.ChildOf c a → c ∈ all := by
  induction h with
  | done => exact fun a ha => hdone a ha (by simp)
  | @step parent queue found _ _ ih =>
    refine ih fun a ha hnot c hc => ?_
    rcases List.mem_append.mp ha with hf | hf
    · by_cases hap : a = parent
      · subst hap
        by_cases hcf : c ∈ found
        · exact List.mem_append_left _ hcf
        · exact List.mem_append_right _
            (List.mem_filter.mpr ⟨(mem_childrenOf hkeyed).mpr hc, by simpa using hcf⟩)
      · have hnq : a ∉ parent :: queue := by
          simp only [List.mem_cons, not_or]
          exact ⟨hap, fun hm => hnot (List.mem_append_left _ hm)⟩
        exact List.mem_append_left _ (hdone a hf hnq c hc)
    · exact absurd (List.mem_append_right queue hf) hnot

/-! ## Its order -/

/-- The walk begins with the property it starts from. -/
theorem Descended.root_mem (h : g.Descended root found) {a : PropertyId} (ha : a ∈ found) :
    root ∈ found := by
  cases found with
  | nil => cases ha
  | cons first rest =>
    have hfirst : [] ++ [first] <+: first :: rest := ⟨rest, rfl⟩
    rcases h.parents hfirst with rfl | ⟨b, hb, -⟩
    · exact List.mem_cons_self
    · cases hb

theorem Descended.parent_mem (h : g.Descended root found) {a : PropertyId} (ha : a ∈ found) :
    a = root ∨ ∃ b ∈ found, g.ChildOf a b := by
  obtain ⟨before, after, rfl⟩ := List.append_of_mem ha
  have hupto : before ++ [a] <+: before ++ a :: after := ⟨after, by simp⟩
  refine (h.parents hupto).imp_right ?_
  rintro ⟨b, hb, hab⟩
  exact ⟨b, List.mem_append_left _ hb, hab⟩

/-- The way up from a property that was found stays among those found until it comes to the
    first. -/
theorem Descended.above (h : g.Descended root found) {a b : PropertyId} (ha : a ∈ found)
    (hab : Relation.ReflTransGen g.ChildOf a b) :
    b ∈ found ∨ Relation.ReflTransGen g.ChildOf root b := by
  induction hab using Relation.ReflTransGen.head_induction_on with
  | refl => exact .inl ha
  | @head a c hac hcb ih =>
    rcases h.parent_mem ha with rfl | ⟨c', hc', hac'⟩
    · exact .inr (.head hac hcb)
    · exact ih (hac.unique hac' ▸ hc')

/-- Where parents form no cycle, nothing is found before one of its ancestors. -/
theorem Descended.order (hgrouped : g.Grouped) (h : g.Descended root found) :
    found.Pairwise fun a b => ¬ Relation.TransGen g.ChildOf a b := by
  induction found using List.reverseRecOn with
  | nil => exact .nil
  | append_singleton before b ih =>
    have hbefore : g.Descended root before := {
      nodup := (List.nodup_append.mp h.nodup).1
      keys := fun a ha => h.keys a (List.mem_append_left _ ha)
      below := fun a ha => h.below a (List.mem_append_left _ ha)
      parents := fun ha => h.parents (ha.trans (List.prefix_append _ _)) }
    refine List.pairwise_append.mpr ⟨ih hbefore, List.pairwise_singleton _ b, ?_⟩
    intro a ha b' hb' hab
    obtain rfl := List.mem_singleton.mp hb'
    have hnew : b' ∉ before := fun hm =>
      (List.nodup_append.mp h.nodup).2.2 b' hm b' List.mem_cons_self rfl
    rcases hbefore.above ha hab.to_reflTransGen with hm | hup
    · exact hnew hm
    · rcases Relation.reflTransGen_iff_eq_or_transGen.mp (h.below b' (by simp)) with hroot | hdown
      · exact hnew (hroot ▸ hbefore.root_mem ha)
      · exact hgrouped.acyclic _ (hdown.trans_right hup)

end Walk

/-! ## The subtree -/

/-- The walk that is bounded by the number of properties is the whole walk. -/
theorem walks_subtree (h : g.properties.Keyed Property.id) {root : PropertyId}
    (hroot : root ∈ g.properties.keys) : g.Walks [root] [root] (g.subtree root) :=
  (Descended.single hroot).walks h _ (List.Subset.refl _) (by simp)

theorem descended_subtree (h : g.properties.Keyed Property.id) {root : PropertyId}
    (hroot : root ∈ g.properties.keys) : g.Descended root (g.subtree root) :=
  (walks_subtree h hroot).descended h (List.Subset.refl _) (.single hroot)

theorem subtree_closed (h : g.properties.Keyed Property.id) {root : PropertyId}
    (hroot : root ∈ g.properties.keys) {parent child : PropertyId}
    (hp : parent ∈ g.subtree root) (hc : g.ChildOf child parent) : child ∈ g.subtree root :=
  (walks_subtree h hroot).closed h (fun _ ha hnot => absurd ha hnot) parent hp child hc

/-- The subtree of a property is made of those from which the way up leads to it. -/
theorem mem_subtree (h : g.properties.Keyed Property.id) {root : PropertyId}
    (hroot : root ∈ g.properties.keys) {a : PropertyId} :
    a ∈ g.subtree root ↔ Relation.ReflTransGen g.ChildOf a root := by
  refine ⟨(descended_subtree h hroot).below a, fun ha => ?_⟩
  induction ha using Relation.ReflTransGen.head_induction_on with
  | refl => exact (walks_subtree h hroot).isPrefix.subset List.mem_cons_self
  | head hac _ ih => exact subtree_closed h hroot ih hac

end FlowGraph.Graph
