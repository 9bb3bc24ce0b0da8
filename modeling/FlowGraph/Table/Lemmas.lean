import FlowGraph.Table

/-!
# What the table operations do

Each operation is described on two views of a table: what is found under a key, and the list of
keys.  `insert` adds its key at the end or leaves the keys alone, `erase` filters them, and the
other operations change no key.
-/

namespace FlowGraph.Table

variable {κ α : Type}

@[simp] theorem keys_map (t : Table κ α) (f : α → α) : (t.map f).keys = t.keys := by
  simp [keys, map, Function.comp_def]

variable [DecidableEq κ]

/-! ## What is found under a key -/

theorem find_place (key k : κ) (a : α) (l : List (κ × α)) :
    find k (place key a l) = if key = k then some a else find k l := by
  induction l with
  | nil => simp [place, find]
  | cons e rest ih =>
    obtain ⟨k', b⟩ := e
    by_cases h : k' = key
    · subst h
      by_cases hk : k' = k <;> simp [place, find, hk]
    · by_cases hk : k' = k
      · subst hk
        simp [place, find, h, Ne.symm h]
      · simp [place, find, h, hk, ih]

theorem find_filter (key k : κ) (l : List (κ × α)) :
    find k (l.filter (·.1 ≠ key)) = if key = k then none else find k l := by
  induction l with
  | nil => simp [find]
  | cons e rest ih =>
    obtain ⟨k', b⟩ := e
    by_cases h : k' = key
    · subst h
      by_cases hk : k' = k <;> simp_all [find]
    · by_cases hk : k' = k
      · subst hk
        simp [find, h, Ne.symm h]
      · simp_all [find]

theorem find_map (f : κ → α → α) (k : κ) (l : List (κ × α)) :
    find k (l.map fun e => (e.1, f e.1 e.2)) = (find k l).map (f k) := by
  induction l with
  | nil => rfl
  | cons e rest ih =>
    obtain ⟨k', b⟩ := e
    by_cases h : k' = k
    · subst h
      simp [find]
    · simp [find, h, ih]

@[simp] theorem get?_empty (k : κ) : (empty : Table κ α).get? k = none := rfl

@[simp] theorem get?_insert (t : Table κ α) (key k : κ) (a : α) :
    (t.insert key a).get? k = if key = k then some a else t.get? k :=
  find_place key k a t.entries

@[simp] theorem get?_erase (t : Table κ α) (key k : κ) :
    (t.erase key).get? k = if key = k then none else t.get? k :=
  find_filter key k t.entries

@[simp] theorem get?_modify (t : Table κ α) (key k : κ) (f : α → α) :
    (t.modify key f).get? k = (t.get? k).map fun a => if k = key then f a else a :=
  find_map (fun k a => if k = key then f a else a) k t.entries

@[simp] theorem get?_map (t : Table κ α) (k : κ) (f : α → α) :
    (t.map f).get? k = (t.get? k).map f :=
  find_map (fun _ => f) k t.entries

/-! ## The keys -/

theorem mem_keys_iff (t : Table κ α) (k : κ) : k ∈ t.keys ↔ t.contains k = true := by
  obtain ⟨l⟩ := t
  simp only [keys, contains, get?]
  induction l with
  | nil => simp [find]
  | cons e rest ih =>
    by_cases h : e.1 = k
    · simp [find, h]
    · have hne : k ≠ e.1 := fun h' => h h'.symm
      simpa [find, h, hne] using ih

theorem keys_insert (t : Table κ α) (key : κ) (a : α) :
    (t.insert key a).keys = if key ∈ t.keys then t.keys else t.keys ++ [key] := by
  obtain ⟨l⟩ := t
  simp only [keys, insert]
  induction l with
  | nil => simp [place]
  | cons e rest ih =>
    by_cases h : e.1 = key
    · simp [place, h]
    · have hne : key ≠ e.1 := fun h' => h h'.symm
      by_cases hm : key ∈ rest.map (·.1) <;> simp only [place, h, hne, hm, ih, if_true, if_false,
        List.map_cons, List.mem_cons, false_or, List.cons_append]

@[simp] theorem keys_erase (t : Table κ α) (key : κ) :
    (t.erase key).keys = t.keys.filter (· ≠ key) := by
  simp [keys, erase, List.filter_map, Function.comp_def]

@[simp] theorem keys_modify (t : Table κ α) (key : κ) (f : α → α) :
    (t.modify key f).keys = t.keys := by
  simp [keys, modify, Function.comp_def]

/-- A key that is not there yet goes to the end, with its entry. -/
theorem entries_insert_of_not_mem {t : Table κ α} {key : κ} (h : key ∉ t.keys) (a : α) :
    (t.insert key a).entries = t.entries ++ [(key, a)] := by
  obtain ⟨l⟩ := t
  simp only [keys, insert] at h ⊢
  induction l with
  | nil => rfl
  | cons e rest ih =>
    simp only [List.map_cons, List.mem_cons, not_or] at h
    have hne : e.1 ≠ key := fun h' => h.1 h'.symm
    simp [place, hne, ih h.2]

/-- In a table without repeated keys, an entry is found under its key. -/
theorem get?_eq_some_iff {t : Table κ α} (h : t.keys.Nodup) (k : κ) (a : α) :
    t.get? k = some a ↔ (k, a) ∈ t.entries := by
  obtain ⟨l⟩ := t
  simp only [keys, get?] at h ⊢
  induction l with
  | nil => simp [find]
  | cons e rest ih =>
    obtain ⟨k', b⟩ := e
    rw [List.map_cons, List.nodup_cons] at h
    by_cases hk : k' = k
    · subst hk
      have hrest : (k', a) ∉ rest := fun hm => h.1 (List.mem_map.2 ⟨_, hm, rfl⟩)
      simp [find, hrest, eq_comm]
    · have hne : k ≠ k' := fun h' => hk h'.symm
      simpa [find, hk, hne] using ih h.2

end FlowGraph.Table
