import FlowGraph.Table.Lemmas
import Mathlib.Data.List.Basic
import Mathlib.Data.List.Nodup

/-!
# Tables of entities under their own ids

`Table.filter` restricts a table to some of its keys; it is what a sequence of deletions comes to.
`Table.Keyed` says that no key is repeated and that every entry stands under the id it carries.
The four tables of a graph are keyed at all times, which is why a look-up and a walk over the
entries see the same things.
-/

namespace FlowGraph.Table

variable {κ α : Type}

theorem ext {t u : Table κ α} (h : t.entries = u.entries) : t = u := by
  cases t
  cases u
  exact congrArg Table.mk h

/-- The entries under the keys that `keep` accepts. -/
def filter (t : Table κ α) (keep : κ → Bool) : Table κ α :=
  ⟨t.entries.filter fun e => keep e.1⟩

/-! ## Restricting, changing and both -/

theorem filter_filter (t : Table κ α) (p q : κ → Bool) :
    (t.filter p).filter q = t.filter fun k => p k && q k := by
  apply ext
  simp only [filter, List.filter_filter]
  exact List.filter_congr fun e _ => Bool.and_comm _ _

theorem map_map (t : Table κ α) (f g : α → α) : (t.map f).map g = t.map (g ∘ f) := by
  apply ext
  simp [map, Function.comp_def]

theorem filter_map (t : Table κ α) (f : α → α) (keep : κ → Bool) :
    (t.map f).filter keep = (t.filter keep).map f := by
  apply ext
  simp [map, filter, List.filter_map, Function.comp_def]

theorem filter_eq_self {t : Table κ α} {keep : κ → Bool} (h : ∀ k ∈ t.keys, keep k = true) :
    t.filter keep = t := by
  apply ext
  refine List.filter_eq_self.mpr fun e he => ?_
  exact h e.1 (List.mem_map_of_mem he)

theorem filter_congr {t : Table κ α} {p q : κ → Bool} (h : ∀ k ∈ t.keys, p k = q k) :
    t.filter p = t.filter q := by
  apply ext
  exact List.filter_congr fun e he => h e.1 (List.mem_map_of_mem he)

theorem map_congr {t : Table κ α} {f g : α → α} (h : ∀ a ∈ t.values, f a = g a) :
    t.map f = t.map g := by
  apply ext
  refine List.map_congr_left fun e he => ?_
  rw [h e.2 (List.mem_map_of_mem he)]

theorem map_id (t : Table κ α) : t.map id = t := by
  apply ext
  simp [map]

@[simp] theorem keys_filter (t : Table κ α) (keep : κ → Bool) :
    (t.filter keep).keys = t.keys.filter keep := by
  simp [keys, filter, List.filter_map, Function.comp_def]

@[simp] theorem values_map (t : Table κ α) (f : α → α) : (t.map f).values = t.values.map f := by
  simp [values, map, Function.comp_def]

theorem size_eq_length_keys (t : Table κ α) : t.size = t.keys.length := by
  simp [size, keys]

/-! ## Entries under their own id -/

/-- No key is repeated, and every entry stands under the id it carries. -/
structure Keyed (t : Table κ α) (idOf : α → κ) : Prop where
  nodup : t.keys.Nodup
  id_eq : ∀ {e}, e ∈ t.entries → idOf e.2 = e.1

variable {idOf : α → κ}

theorem Keyed.empty : (⟨[]⟩ : Table κ α).Keyed idOf :=
  ⟨List.nodup_nil, fun h => absurd h (by simp)⟩

theorem Keyed.filter {t : Table κ α} (h : t.Keyed idOf) (keep : κ → Bool) :
    (t.filter keep).Keyed idOf where
  nodup := by
    rw [keys_filter]
    exact h.nodup.filter _
  id_eq he := h.id_eq (List.mem_of_mem_filter he)

theorem Keyed.map {t : Table κ α} (h : t.Keyed idOf) {f : α → α} (hf : ∀ a, idOf (f a) = idOf a) :
    (t.map f).Keyed idOf where
  nodup := by
    rw [keys_map]
    exact h.nodup
  id_eq he := by
    obtain ⟨e, hm, rfl⟩ := List.mem_map.mp he
    exact (hf e.2).trans (h.id_eq hm)

theorem Keyed.map_values {t : Table κ α} (h : t.Keyed idOf) : t.values.map idOf = t.keys := by
  simp only [values, keys, List.map_map]
  exact List.map_congr_left fun e he => h.id_eq he

/-- A keyed table is made of its values. -/
theorem Keyed.map_eq {t : Table κ α} (h : t.Keyed idOf) (f : α → α) :
    t.map f = ⟨t.values.map fun a => (idOf a, f a)⟩ := by
  apply ext
  simp only [Table.map, values, List.map_map]
  refine List.map_congr_left fun e he => ?_
  show (e.1, f e.2) = (idOf e.2, f e.2)
  rw [h.id_eq he]

/-- Restricting the keys is restricting the values by their ids. -/
theorem Keyed.values_filter {t : Table κ α} (h : t.Keyed idOf) (keep : κ → Bool) :
    (t.filter keep).values = t.values.filter fun a => keep (idOf a) := by
  obtain ⟨entries⟩ := t
  have hid : ∀ e ∈ entries, idOf e.2 = e.1 := fun e he => h.id_eq he
  clear h
  simp only [values, Table.filter]
  induction entries with
  | nil => rfl
  | cons e rest ih =>
    have ih' := ih fun e' he' => hid e' (List.mem_cons_of_mem _ he')
    have he : idOf e.2 = e.1 := hid e List.mem_cons_self
    cases hk : keep e.1 with
    | true => simp [hk, he, ih']
    | false => simp [hk, he, ih']

variable [DecidableEq κ]

@[simp] theorem get?_filter (t : Table κ α) (keep : κ → Bool) (k : κ) :
    (t.filter keep).get? k = if keep k then t.get? k else none := by
  obtain ⟨entries⟩ := t
  simp only [get?, filter]
  induction entries with
  | nil => simp [find]
  | cons e rest ih =>
    by_cases hk : e.1 = k
    · subst hk
      cases hp : keep e.1 with
      | true => simp [hp, find]
      | false => simpa [List.filter_cons, hp] using ih
    · cases hp : keep e.1 with
      | true => simpa [List.filter_cons, hp, find, hk] using ih
      | false => simpa [List.filter_cons, hp, find, hk] using ih

/-- The entries left by a filter on the keys. -/
theorem get?_filter_eq_some {t : Table κ α} {keep : κ → Bool} {k : κ} {a : α} :
    (t.filter keep).get? k = some a ↔ t.get? k = some a ∧ keep k = true := by
  rw [get?_filter]
  cases keep k with
  | true => simp
  | false => simp

theorem erase_eq_filter (t : Table κ α) (k : κ) : t.erase k = t.filter (· ≠ k) := rfl

theorem filter_not_nil (t : Table κ α) : (t.filter fun k => !([] : List κ).contains k) = t :=
  filter_eq_self (by simp)

theorem filter_not_singleton (t : Table κ α) (k : κ) :
    (t.filter fun k' => !([k].contains k')) = t.erase k := by
  rw [erase_eq_filter]
  exact filter_congr fun k' _ => by simp

theorem mem_entries_of_get? {t : Table κ α} {k : κ} {a : α} (h : t.get? k = some a) :
    (k, a) ∈ t.entries := by
  obtain ⟨entries⟩ := t
  simp only [get?] at h ⊢
  induction entries with
  | nil => exact absurd h (by simp [find])
  | cons e rest ih =>
    by_cases hk : e.1 = k
    · simp only [find, hk, if_true, Option.some.injEq] at h
      subst hk
      subst h
      exact List.mem_cons_self
    · rw [find, if_neg hk] at h
      exact List.mem_cons_of_mem _ (ih h)

theorem mem_keys_of_get? {t : Table κ α} {k : κ} {a : α} (h : t.get? k = some a) : k ∈ t.keys :=
  List.mem_map_of_mem (mem_entries_of_get? h)

theorem mem_values_of_get? {t : Table κ α} {k : κ} {a : α} (h : t.get? k = some a) :
    a ∈ t.values :=
  List.mem_map_of_mem (mem_entries_of_get? h)

theorem mem_keys {t : Table κ α} {k : κ} : k ∈ t.keys ↔ ∃ a, t.get? k = some a := by
  rw [mem_keys_iff, contains, Option.isSome_iff_exists]

theorem get?_eq_none {t : Table κ α} {k : κ} (h : k ∉ t.keys) : t.get? k = none := by
  cases hk : t.get? k with
  | none => rfl
  | some a => exact absurd (mem_keys_of_get? hk) h

theorem not_mem_keys_of_none {t : Table κ α} {k : κ} (h : t.get? k = none) : k ∉ t.keys := by
  intro hk
  obtain ⟨a, ha⟩ := mem_keys.mp hk
  rw [h] at ha
  cases ha

theorem modify_of_get?_none {t : Table κ α} {k : κ} (h : t.get? k = none) (f : α → α) :
    t.modify k f = t := by
  apply ext
  refine (List.map_congr_left fun e he => ?_).trans (List.map_id _)
  have hne : e.1 ≠ k := fun heq =>
    not_mem_keys_of_none h (heq ▸ List.mem_map_of_mem (f := Prod.fst) he)
  rw [if_neg hne]
  rfl

theorem erase_of_get?_none {t : Table κ α} {k : κ} (h : t.get? k = none) : t.erase k = t := by
  rw [erase_eq_filter]
  exact filter_eq_self fun k' hk' =>
    decide_eq_true fun heq => not_mem_keys_of_none h (heq ▸ hk')

theorem Keyed.get?_id {t : Table κ α} (h : t.Keyed idOf) {k : κ} {a : α} (ha : t.get? k = some a) :
    idOf a = k :=
  h.id_eq (mem_entries_of_get? ha)

theorem Keyed.get?_of_mem {t : Table κ α} (h : t.Keyed idOf) {e : κ × α} (he : e ∈ t.entries) :
    t.get? e.1 = some e.2 :=
  (get?_eq_some_iff h.nodup e.1 e.2).mpr he

theorem Keyed.get?_of_mem_values {t : Table κ α} (h : t.Keyed idOf) {a : α} (ha : a ∈ t.values) :
    t.get? (idOf a) = some a := by
  obtain ⟨e, he, rfl⟩ := List.mem_map.mp ha
  rw [h.id_eq he]
  exact h.get?_of_mem he

theorem Keyed.eq_of_mem_values {t : Table κ α} (h : t.Keyed idOf) {a b : α} (ha : a ∈ t.values)
    (hb : b ∈ t.values) (hid : idOf a = idOf b) : a = b := by
  have hget := h.get?_of_mem_values ha
  rw [hid, h.get?_of_mem_values hb] at hget
  exact (Option.some.inj hget).symm

/-- In a keyed table a change under one key is a change of the entry with that id. -/
theorem Keyed.modify_eq_map {t : Table κ α} (h : t.Keyed idOf) (k : κ) (f : α → α) :
    t.modify k f = t.map fun a => if idOf a = k then f a else a := by
  apply ext
  refine List.map_congr_left fun e he => ?_
  show (e.1, _) = (e.1, if idOf e.2 = k then f e.2 else e.2)
  rw [h.id_eq he]

theorem Keyed.modify_map {t : Table κ α} (h : t.Keyed idOf) {k : κ} {f f' u : α → α}
    (hf : ∀ a ∈ t.values, f' a = if idOf a = k then u (f a) else f a) :
    (t.map f).modify k u = t.map f' := by
  apply ext
  simp only [modify, Table.map, List.map_map]
  refine List.map_congr_left fun e he => ?_
  have hvalue := hf e.2 (List.mem_map_of_mem he)
  rw [h.id_eq he] at hvalue
  show (e.1, if e.1 = k then u (f e.2) else f e.2) = (e.1, f' e.2)
  rw [hvalue]

theorem modify_modify_self (t : Table κ α) (k : κ) (f g : α → α) :
    (t.modify k f).modify k g = t.modify k (g ∘ f) := by
  apply ext
  simp only [modify, List.map_map]
  refine List.map_congr_left fun e _ => ?_
  by_cases he : e.1 = k <;> simp [he]

theorem modify_congr {t : Table κ α} (h : t.keys.Nodup) {k : κ} {f g : α → α}
    (hfg : ∀ a, t.get? k = some a → f a = g a) : t.modify k f = t.modify k g := by
  apply ext
  refine List.map_congr_left fun e he => ?_
  by_cases hk : e.1 = k
  · rw [if_pos hk, if_pos hk, hfg e.2 (hk ▸ (get?_eq_some_iff h e.1 e.2).mpr he)]
  · rw [if_neg hk, if_neg hk]

/-- A change that leaves the entry under the key as it was is none at all. -/
theorem modify_eq_self {t : Table κ α} (h : t.keys.Nodup) {k : κ} {f : α → α}
    (hf : ∀ a, t.get? k = some a → f a = a) : t.modify k f = t := by
  rw [modify_congr h (g := id) hf]
  apply ext
  refine (List.map_congr_left fun e _ => ?_).trans (List.map_id _)
  split <;> rfl

/-- Changing one entry after the other changes them all. -/
theorem foldl_modify {t : Table κ α} (f : α → α) {ks : List κ} (h : ks.Nodup) :
    (ks.foldl (fun t k => t.modify k f) t).entries =
      t.entries.map fun e => (e.1, if e.1 ∈ ks then f e.2 else e.2) := by
  induction ks generalizing t with
  | nil => simp
  | cons k ks ih =>
    obtain ⟨hk, hks⟩ := List.nodup_cons.mp h
    rw [List.foldl_cons, ih hks]
    simp only [Table.modify, List.map_map]
    refine List.map_congr_left fun e _ => ?_
    by_cases he : e.1 = k
    · simp [he, hk]
    · by_cases hm : e.1 ∈ ks <;> simp [he, hm]

theorem foldl_modify_keys {t : Table κ α} (f : α → α) (h : t.keys.Nodup) :
    t.keys.foldl (fun t k => t.modify k f) t = t.map f := by
  apply ext
  rw [foldl_modify f h]
  refine List.map_congr_left fun e he => ?_
  have hk : e.1 ∈ t.keys := List.mem_map_of_mem he
  rw [if_pos hk]

/-- What a view does not see of a change under one key, it does not see of the table. -/
theorem map_modify {β : Type} {t : Table κ α} (h : t.keys.Nodup) {k : κ} {f : α → α} {u : α → β}
    (hf : ∀ a, t.get? k = some a → u (f a) = u a) :
    (t.modify k f).entries.map (fun e => (e.1, u e.2)) = t.entries.map fun e => (e.1, u e.2) := by
  simp only [Table.modify, List.map_map]
  refine List.map_congr_left fun e he => ?_
  by_cases hk : e.1 = k
  · have ha : t.get? k = some e.2 := hk ▸ (get?_eq_some_iff h e.1 e.2).mpr he
    simp only [Function.comp_apply, if_pos hk, hf e.2 ha]
  · simp only [Function.comp_apply, if_neg hk]

theorem Keyed.modify {t : Table κ α} (h : t.Keyed idOf) (k : κ) {f : α → α}
    (hf : ∀ a, idOf (f a) = idOf a) : (t.modify k f).Keyed idOf := by
  rw [h.modify_eq_map]
  refine h.map fun a => ?_
  by_cases ha : idOf a = k
  · rw [if_pos ha, hf]
  · rw [if_neg ha]

theorem Keyed.insert {t : Table κ α} (h : t.Keyed idOf) {k : κ} {a : α} (hk : k ∉ t.keys)
    (ha : idOf a = k) : (t.insert k a).Keyed idOf where
  nodup := by
    rw [keys_insert, if_neg hk]
    exact List.nodup_append.mpr ⟨h.nodup, List.nodup_singleton k, fun x hx y hy => by
      rw [List.mem_singleton.mp hy]
      exact fun hxk => hk (hxk ▸ hx)⟩
  id_eq he := by
    rw [entries_insert_of_not_mem hk] at he
    rcases List.mem_append.mp he with hm | hm
    · exact h.id_eq hm
    · rw [List.mem_singleton.mp hm]
      exact ha

theorem values_insert {t : Table κ α} {k : κ} (hk : k ∉ t.keys) (a : α) :
    (t.insert k a).values = t.values ++ [a] := by
  simp [values, entries_insert_of_not_mem hk]

end FlowGraph.Table
