import FlowGraph.Proofs.Ron.Tokens

/-!
# Reading written brackets

Brackets are written with one element on a line, a comma after each.  Given that each element is
read back from its own text (`Reads`), the elements between the brackets are read back in order.
-/

namespace FlowGraph.Ron

/-- The characters that open no term: blanks, closing brackets and the beginnings of comments and
    attributes. -/
def openNothing : List Char :=
  [' ', '\t', '\n', '\r', '\x0b', '\x0c', '\u0085', '\u200e', '\u200f', '\u2028', '\u2029',
    '/', '#', ')', ']', '\x7d']

/-- The text opens an element. -/
def Opens (text : String) : Prop := text.toList.head?.any (· ∉ openNothing) = true

theorem Opens.cons {text : String} (h : Opens text) :
    ∃ c cs, text.toList = c :: cs ∧ c ∉ openNothing := by
  cases htext : text.toList with
  | nil => simp [Opens, htext] at h
  | cons c cs => exact ⟨c, cs, rfl, by simpa [Opens, htext] using h⟩

/-- What opens an element is not skipped. -/
theorem isSolid_of_opens {c : Char} (h : c ∉ openNothing) : isSolid c = true := by
  simp only [openNothing, List.mem_cons, not_or] at h
  simp [isSolid, isBlank, h]

theorem openNothing_no_start : openNothing.all (!Text.isIdentifierStart ·) = true := by
  decide +kernel

/-- A name opens an element. -/
theorem opens_of_start {c : Char} (h : Text.isIdentifierStart c = true) : c ∉ openNothing := by
  intro hc
  simpa [h] using List.all_eq_true.1 openNothing_no_start c hc

/-- The text opens an element, and the reader gives back `a` from it, whatever may follow a
    term. -/
structure Reads {α : Type} (element : Reader α) (text : String) (a : α) : Prop where
  opens : Opens text
  back : ∀ rest, Ended rest → element (text.toList ++ rest) = some (a, rest)

/-! ## Lines -/

/-- Elements as brackets hold them, each behind a new line and before a comma. -/
def lines (depth : Nat) (elements : List String) : List Char :=
  elements.flatMap fun e => (newline depth).toList ++ (e.toList ++ [','])

section Lines

variable {depth : Nat} {elements : List String}

theorem length_lt_length_lines {e : String} (h : e ∈ elements) :
    e.toList.length < (lines depth elements).length := by
  induction elements with
  | nil => cases h
  | cons first more ih =>
    simp only [lines, List.flatMap_cons, List.length_append] at ih ⊢
    rcases List.mem_cons.1 h with rfl | hmore
    · simp only [List.length_singleton]
      omega
    · have := ih hmore
      omega

theorem length_le_length_lines : elements.length ≤ (lines depth elements).length := by
  induction elements with
  | nil => exact Nat.zero_le _
  | cons first more ih =>
    simp only [lines, List.flatMap_cons, List.length_append, List.length_cons] at ih ⊢
    omega

/-- The text between brackets, with the closing one. -/
def inside (depth : Nat) (closing : String) (elements : List String) : List Char :=
  (bracket depth "" closing elements).toList

theorem toList_bracket (depth : Nat) (opening closing : String) (elements : List String) :
    (bracket depth opening closing elements).toList =
      opening.toList ++ inside depth closing elements := by
  unfold inside bracket
  split <;> simp [List.append_assoc]

/-- Inside brackets stand the lines of the elements, layout and the closing bracket. -/
theorem inside_eq_lines (depth : Nat) (closing : String) (elements : List String) :
    ∃ gap, (∀ rest, skip (gap ++ rest) = skip rest) ∧
      inside depth closing elements = lines (depth + 1) elements ++ (gap ++ closing.toList) := by
  unfold inside bracket
  split
  case isTrue h =>
    refine ⟨[], fun _ => rfl, ?_⟩
    rw [List.isEmpty_iff.1 h]
    simp [lines]
  case isFalse =>
    refine ⟨(newline depth).toList, skip_newline depth, ?_⟩
    simp only [String.toList_append, String.toList_join, lines, List.flatMap_map,
      List.append_assoc]
    rfl

/-- Every element is shorter than what is inside its brackets. -/
theorem length_lt_inside {depth : Nat} {closing e : String} {elements : List String}
    (h : e ∈ elements) : e.toList.length < (inside depth closing elements).length := by
  obtain ⟨gap, -, htext⟩ := inside_eq_lines depth closing elements
  have hlines : e.toList.length < (lines (depth + 1) elements).length := length_lt_length_lines h
  simp only [htext, List.length_append]
  omega

end Lines

theorem Opens.front {text more : String} (h : Opens text) {rest : List Char}
    (hmore : more.toList = text.toList ++ rest) : Opens more := by
  obtain ⟨c, cs, htext, hc⟩ := h.cons
  simp [Opens, hmore, htext, hc]

/-- Brackets open an element as their first bracket does. -/
theorem Opens.bracket {opening : String} (h : Opens opening) (depth : Nat) (closing : String)
    (elements : List String) : Opens (bracket depth opening closing elements) :=
  h.front (toList_bracket depth opening closing elements)

/-! ## Elements -/

/-- The lines of elements are read as these elements. -/
theorem elements?_lines {α : Type} {close : Char} {element : Reader α} {text : α → String}
    {depth : Nat} {gap : List Char} (hclose : isSolid close = true)
    (hcloses : close ∈ openNothing) (hgap : ∀ rest, skip (gap ++ rest) = skip rest)
    {as : List α} (has : ∀ a ∈ as, Reads element (text a) a) {bound : Nat}
    (hbound : as.length < bound) (rest : List Char) :
    elements? close element bound (lines depth (as.map text) ++ (gap ++ close :: rest)) =
      some (as, rest) := by
  induction as generalizing bound with
  | nil =>
    obtain ⟨bound, rfl⟩ : ∃ n, bound = n + 1 := ⟨bound - 1, by simp at hbound; omega⟩
    simp [elements?, lines, hgap, skip_solid hclose]
  | cons a as ih =>
    obtain ⟨bound, rfl⟩ : ∃ n, bound = n + 1 := ⟨bound - 1, by simp at hbound; omega⟩
    obtain ⟨hopens, hback⟩ := has a List.mem_cons_self
    have hmore : elements? close element bound (lines depth (as.map text) ++
        (gap ++ close :: rest)) = some (as, rest) :=
      ih (fun b hb => has b (List.mem_cons_of_mem _ hb)) (by simpa using hbound)
    obtain ⟨c, cs, htext, hc⟩ := hopens.cons
    have hsolid : isSolid c = true := isSolid_of_opens hc
    have hne : c ≠ close := by rintro rfl; exact hc hcloses
    have helement :=
      hback (',' :: (lines depth (as.map text) ++ (gap ++ close :: rest))) (.comma _)
    rw [htext, List.cons_append] at helement
    have hlines : lines depth ((a :: as).map text) ++ (gap ++ close :: rest) =
        (newline depth).toList ++
          (c :: (cs ++ ',' :: (lines depth (as.map text) ++ (gap ++ close :: rest)))) := by
      simp [lines, htext]
    rw [hlines, elements?, skip_newline, skip_solid hsolid]
    simp only [Option.bind_eq_bind, Option.bind_some, hne, ↓reduceIte, helement,
      skip_solid (c := ',') rfl, hmore]
    rfl

/-- The elements of brackets are read as they were written. -/
theorem elements?_inside {α : Type} {close : Char} {element : Reader α} {text : α → String}
    {depth bound : Nat} {closing : String} {as : List α} (hclosing : closing.toList = [close])
    (hcloses : close ∈ [')', ']', '\x7d'])
    (has : ∀ a ∈ as, Reads element (text a) a)
    (hbound : (inside depth closing (as.map text)).length < bound) (rest : List Char) :
    elements? close element bound (inside depth closing (as.map text) ++ rest) =
      some (as, rest) := by
  obtain ⟨gap, hgap, htext⟩ := inside_eq_lines depth closing (as.map text)
  have hclosers : [')', ']', '\x7d'].all (fun c => isSolid c && c ∈ openNothing) = true := by
    decide
  obtain ⟨hsolid, hopen⟩ : isSolid close = true ∧ close ∈ openNothing := by
    simpa using List.all_eq_true.1 hclosers close hcloses
  have hcount : (as.map text).length ≤ (lines (depth + 1) (as.map text)).length :=
    length_le_length_lines
  rw [htext] at hbound ⊢
  simp only [hclosing, List.append_assoc, List.cons_append, List.nil_append, List.length_append,
    List.length_map] at hbound hcount ⊢
  exact elements?_lines hsolid hopen hgap has (by omega) rest

/-- A key, a colon and a value are read as the pair. -/
theorem Reads.keyed {α : Type} {key : Reader α} {value : Reader Term} {keyText valueText : String}
    {k : α} {t : Term} (hopens : Opens keyText)
    (hkey : ∀ rest, key (keyText.toList ++ ':' :: rest) = some (k, ':' :: rest))
    (hvalue : Reads value valueText t) :
    Reads (keyed? key value) (keyText ++ ": " ++ valueText) (k, t) := by
  obtain ⟨c, cs, htext, hc⟩ := hvalue.opens.cons
  have hwhole : (keyText ++ ": " ++ valueText).toList =
      keyText.toList ++ ':' :: (' ' :: (c :: cs)) := by
    simp [htext]
  refine ⟨hopens.front hwhole, fun rest hrest => ?_⟩
  have hback := hvalue.back rest hrest
  rw [htext, List.cons_append] at hback
  rw [hwhole, List.append_assoc, List.cons_append, List.cons_append, List.cons_append, keyed?,
    hkey]
  simp only [Option.bind_eq_bind, Option.bind_some, skip_solid (c := ':') rfl,
    skip_blank (c := ' ') rfl, skip_solid (isSolid_of_opens hc), hback]
  rfl

/-- Brackets around fields are told from brackets around terms. -/
theorem startsNamed_inside {depth : Nat} {closing name value : String} {more : List String}
    (hname : IsName name) (rest : List Char) :
    startsNamed (inside depth closing ((name ++ ": " ++ value) :: more) ++ rest) = true := by
  obtain ⟨gap, -, htext⟩ := inside_eq_lines depth closing ((name ++ ": " ++ value) :: more)
  obtain ⟨c, cs, hcs, hstart⟩ := hname.cons
  have hc : isSolid c = true := isSolid_of_opens (opens_of_start hstart)
  have hskip : ∀ rest, skip (name.toList ++ rest) = some (name.toList ++ rest) := by
    intro rest
    rw [hcs, List.cons_append, skip_solid hc]
  have hfirst : inside depth closing ((name ++ ": " ++ value) :: more) ++ rest =
      (newline (depth + 1)).toList ++ (name.toList ++ ':' :: (' ' :: (value.toList ++
        ',' :: (lines (depth + 1) more ++ (gap ++ (closing.toList ++ rest)))))) := by
    simp [htext, lines]
  rw [startsNamed, hfirst, skip_newline, hskip, Option.bind_some, identifier?_append hname .colon]
  simp [skip_solid (c := ':') rfl]

end FlowGraph.Ron
