import FlowGraph.Proofs.Ron.Elements
import FlowGraph.Proofs.Ron.Quoted

/-!
# Reading written terms

`Readable` are the terms that come back from their own text: literals whose text says what they
are, and brackets around such terms that leave the reader enough levels.  The proof follows the
term; inside brackets it is `elements?_lines`.
-/

namespace FlowGraph.Ron

open Term (render renderItems renderEntries renderFields)

/-- The terms that can be read back with so many levels left. -/
inductive Readable : Nat → Term → Prop
  | unit (levels : Nat) : Readable levels .unit
  | bool (levels : Nat) (b : Bool) : Readable levels (.bool b)
  | int {levels : Nat} {n : Int} (hword : isWord n = true) : Readable levels (.int n none)
  | float {levels : Nat} {x : Float} (hfinite : Number.isFinite x = true) (hback : ReadsBack x) :
    Readable levels (.float x)
  | string (levels : Nat) (s : String) : Readable levels (.string s)
  | list {levels : Nat} {items : List Term} (hitems : ∀ t ∈ items, Readable levels t) :
    Readable (levels + 2) (.list items)
  | map {levels : Nat} {entries : List (Term × Term)}
    (hkeys : ∀ e ∈ entries, Readable levels e.1) (hvalues : ∀ e ∈ entries, Readable levels e.2) :
    Readable (levels + 2) (.map entries)
  /-- A bracket without fields would be read as a tuple. -/
  | struct {levels : Nat} {name : String} {fields : List (String × Term)} (hname : IsName name)
    (hword : ∀ w ∈ termWords, name ≠ w.1) (hsome : name ≠ "Some") (hfields : fields ≠ [])
    (hkeys : ∀ f ∈ fields, IsName f.1) (hvalues : ∀ f ∈ fields, Readable levels f.2) :
    Readable (levels + 2) (.struct (some name) fields)

/-! ## Which reader is tried -/

section Dispatch

variable {bound : Nat} {element? : Option (Reader Term)} {present : Reader Term} {c : Char}

theorem identifier?_of_head (hc : Text.isIdentifierStart c = false) (rest : List Char) :
    identifier? (c :: rest) = none := by
  have hraw : ∀ more, c :: rest ≠ 'r' :: '#' :: more := by
    rintro more h
    obtain rfl := (List.cons.inj h).1
    exact absurd hc (by decide)
  unfold identifier?
  dsimp only
  split
  · rfl
  · split
    next h => exact absurd h (hraw _)
    next h =>
      obtain ⟨rfl, rfl⟩ := List.cons.inj h
      simp [hc]
    next h => cases h

/-- Words and names aside, the first character decides how a term is read. -/
theorem nested?_of_head (hc : Text.isIdentifierStart c = false) (rest : List Char) :
    nested? bound element? present (c :: rest) = plainTerm? bound element? (c :: rest) := by
  have hwords : anyKeyword? termWords (c :: rest) = none :=
    anyKeyword?_of_head (p := Text.isIdentifierStart) (by decide) hc
  have hsome : keyword? "Some" (c :: rest) = none :=
    keyword?_of_head (p := Text.isIdentifierStart) (by decide) hc
  simp only [nested?, hwords, hsome]

/-- The first character of a written number. -/
def startsNumber (c : Char) : Bool := c.isDigit || c = '-'

theorem not_start_of_digit (hc : c.isDigit = true) : Text.isIdentifierStart c = false := by
  have hrange : 48 ≤ c.toNat ∧ c.toNat ≤ 57 := Char.isDigit_iff_toNat.1 hc
  have hall : ∀ n ∈ List.range' 48 10, Text.isIdentifierStart (Char.ofNat n) = false := by decide
  have hc := hall c.toNat (List.mem_range'_1.2 ⟨hrange.1, by omega⟩)
  rwa [Char.ofNat_toNat] at hc

theorem not_start_of_number (hc : startsNumber c = true) : Text.isIdentifierStart c = false := by
  simp only [startsNumber, Bool.or_eq_true, decide_eq_true_eq] at hc
  obtain hc | rfl := hc
  · exact not_start_of_digit hc
  · decide

/-- Where a number starts, a number is read. -/
theorem plainTerm?_number (hc : startsNumber c = true) (rest : List Char) :
    plainTerm? bound element? (c :: rest) = number? (c :: rest) := by
  have hothers : ∀ d ∈ ['(', '[', '\x7b', '"', 'r', '\x27', 'b'], c ≠ d := by
    have hnone : ['(', '[', '\x7b', '"', 'r', '\x27', 'b'].all (!startsNumber ·) = true := by
      decide
    rintro d hd rfl
    simpa [hc] using List.all_eq_true.1 hnone c hd
  unfold plainTerm?
  rw [identifier?_of_head (not_start_of_number hc)]
  dsimp only
  split <;> simp_all

end Dispatch

/-! ## How terms open -/

theorem head_minus {c : Char} (hc : c.isDigit = true) (negative : Bool) (cs : List Char) :
    (minus negative ++ c :: cs).head?.any startsNumber = true := by
  cases negative with
  | true => rfl
  | false =>
    show startsNumber c = true
    simp [startsNumber, hc]

theorem head_int (n : Int) : (toString n).toList.head?.any startsNumber = true := by
  obtain ⟨c, cs, hcs, hdigits⟩ := decimal_cons n.natAbs
  rw [toList_toString_int, hcs]
  exact head_minus (hdigits c List.mem_cons_self) _ _

theorem head_float {x : Float} (h : Number.isFinite x = true) :
    (Number.documentText x).toList.head?.any startsNumber = true := by
  obtain ⟨negative, whole, fraction, hpointed, htext⟩ := documentText_pointed h
  obtain ⟨c, cs, rfl, hc⟩ := hpointed.cons
  rw [htext]
  exact head_minus hc _ _

theorem opens_of_head {text : String} {p : Char → Bool} (hhead : text.toList.head?.any p = true)
    (hp : openNothing.all (!p ·) = true) : Opens text := by
  unfold Opens
  cases hcs : text.toList with
  | nil => simp [hcs] at hhead
  | cons c cs =>
    rw [hcs] at hhead
    have hc : c ∉ openNothing := by
      intro hmem
      have hpc := List.all_eq_true.1 hp c hmem
      simp_all
    simpa using hc

theorem opens_name {name : String} (h : IsName name) : Opens name :=
  opens_of_head h.1 openNothing_no_start

@[simp] theorem render_int (depth : Nat) (n : Int) : render depth (.int n none) = toString n := by
  simp [render]

/-! ## Literals

These read the same at every level, since they have nothing inside.
-/

theorem term?_eq_nested? (bound levels : Nat) :
    ∃ element? present, ∀ cs, term? bound levels cs = nested? bound element? present cs := by
  match levels with
  | 0 => exact ⟨_, _, fun _ => rfl⟩
  | 1 => exact ⟨_, _, fun _ => rfl⟩
  | levels + 2 => exact ⟨_, _, fun _ => rfl⟩

section Literals

variable (bound levels : Nat)

theorem reads_unit : Reads (term? bound levels) "()" .unit := by
  refine ⟨by simp [Opens, openNothing], fun rest _ => ?_⟩
  obtain ⟨element?, present, hterm⟩ := term?_eq_nested? bound levels
  rw [hterm]
  show nested? bound element? present ('(' :: ')' :: rest) = _
  rw [nested?_of_head (by decide)]
  simp only [plainTerm?, identifier?_of_head (c := '(') (by decide)]

theorem anyKeyword?_bool (b : Bool) {rest : List Char} (hrest : Ended rest) :
    anyKeyword? termWords ((if b then "true" else "false").toList ++ rest) =
      some (.bool b, rest) := by
  have hstops := hrest.stops (p := Text.isIdentifierRest) (by decide) (by decide)
  cases b with
  | true =>
    have hword : keyword? "true" ("true".toList ++ rest) = some rest :=
      keyword?_eq_some.2 ⟨rfl, hstops⟩
    simp only [anyKeyword?, termWords, ↓reduceIte, List.cons_append, List.findSome?_cons, hword,
      Option.map_some]
  | false =>
    have hother : keyword? "true" ("false".toList ++ rest) = none :=
      keyword?_of_head (c := 'f') (p := (· != 'f')) rfl rfl
    have hword : keyword? "false" ("false".toList ++ rest) = some rest :=
      keyword?_eq_some.2 ⟨rfl, hstops⟩
    simp only [anyKeyword?, termWords, Bool.false_eq_true, ↓reduceIte, List.cons_append,
      List.findSome?_cons, hother, hword, Option.map_none, Option.map_some]

theorem reads_bool (b : Bool) :
    Reads (term? bound levels) (if b then "true" else "false") (.bool b) := by
  refine ⟨by cases b <;> simp [Opens, openNothing], fun rest hrest => ?_⟩
  obtain ⟨element?, present, hterm⟩ := term?_eq_nested? bound levels
  rw [hterm, nested?, anyKeyword?_bool b hrest]

theorem reads_string (s : String) :
    Reads (term? bound levels) (Text.escape true s) (.string s) := by
  refine ⟨by simp [Opens, Text.escape, openNothing], fun rest _ => ?_⟩
  obtain ⟨element?, present, hterm⟩ := term?_eq_nested? bound levels
  have htext := text?_escape s rest
  obtain ⟨cs, hcs⟩ : ∃ cs, (Text.escape true s).toList = '"' :: cs := by
    simp [Text.escape]
  rw [hcs, List.cons_append] at htext ⊢
  rw [hterm, nested?_of_head (by decide)]
  simp only [plainTerm?, identifier?_of_head (c := '"') (by decide), htext, Option.map_some]

/-- A number is read as what `number?` makes of it. -/
theorem reads_number {text : String} {t : Term} (hhead : text.toList.head?.any startsNumber = true)
    (h : ∀ rest, Ended rest → number? (text.toList ++ rest) = some (t, rest)) :
    Reads (term? bound levels) text t := by
  refine ⟨opens_of_head hhead (by decide), fun rest hrest => ?_⟩
  obtain ⟨element?, present, hterm⟩ := term?_eq_nested? bound levels
  have hnumber := h rest hrest
  cases hcs : text.toList with
  | nil => simp [hcs] at hhead
  | cons c cs =>
    have hc : startsNumber c = true := by simpa [hcs] using hhead
    rw [hcs, List.cons_append] at hnumber
    rw [List.cons_append, hterm, nested?_of_head (not_start_of_number hc), plainTerm?_number hc,
      hnumber]

end Literals

/-! ## Brackets -/

theorem renderItems_eq_map (depth : Nat) (items : List Term) :
    renderItems depth items = items.map (render depth) := by
  induction items with
  | nil => rfl
  | cons t items ih => rw [renderItems, ih, List.map_cons]

theorem renderEntries_eq_map (depth : Nat) (entries : List (Term × Term)) :
    renderEntries depth entries =
      entries.map fun e => render depth e.1 ++ ": " ++ render depth e.2 := by
  induction entries with
  | nil => rfl
  | cons e entries ih => rw [renderEntries, ih, List.map_cons]

theorem renderFields_eq_map (depth : Nat) (fields : List (String × Term)) :
    renderFields depth fields = fields.map fun f => f.1 ++ ": " ++ render depth f.2 := by
  induction fields with
  | nil => rfl
  | cons f fields ih => rw [renderFields, ih, List.map_cons]

theorem toList_render_list (depth : Nat) (items : List Term) :
    (render depth (.list items)).toList =
      '[' :: inside depth "]" (items.map (render (depth + 1))) := by
  rw [render, renderItems_eq_map, toList_bracket]
  rfl

theorem toList_render_map (depth : Nat) (entries : List (Term × Term)) :
    (render depth (.map entries)).toList =
      '\x7b' :: inside depth "\x7d"
        (entries.map fun e => render (depth + 1) e.1 ++ ": " ++ render (depth + 1) e.2) := by
  rw [render, renderEntries_eq_map, toList_bracket]
  rfl

theorem toList_render_struct (depth : Nat) (name : String) (fields : List (String × Term)) :
    (render depth (.struct (some name) fields)).toList =
      name.toList ++ '(' :: inside depth ")"
        (fields.map fun f => f.1 ++ ": " ++ render (depth + 1) f.2) := by
  rw [render, renderFields_eq_map, toList_bracket, Option.getD_some, String.toList_append,
    List.append_assoc]
  rfl

section Brackets

variable {bound levels depth : Nat}

/-! A term is shorter than the term around it, so the length of the text bounds the elements of
every bracket in it. -/

theorem length_item_lt {items : List Term} {t : Term} (h : t ∈ items) :
    (render (depth + 1) t).toList.length < (render depth (.list items)).toList.length := by
  rw [toList_render_list, List.length_cons]
  exact Nat.lt_succ_of_lt (length_lt_inside (List.mem_map_of_mem h))

theorem length_entry_lt {entries : List (Term × Term)} {e : Term × Term} (h : e ∈ entries) :
    (render (depth + 1) e.1).toList.length + (render (depth + 1) e.2).toList.length <
      (render depth (.map entries)).toList.length := by
  have hline : (render (depth + 1) e.1 ++ ": " ++ render (depth + 1) e.2).toList.length <
      (render depth (.map entries)).toList.length := by
    rw [toList_render_map, List.length_cons]
    exact Nat.lt_succ_of_lt (length_lt_inside (List.mem_map_of_mem h))
  simp only [String.toList_append, List.length_append] at hline
  omega

theorem length_field_lt {name : String} {fields : List (String × Term)} {f : String × Term}
    (h : f ∈ fields) :
    (render (depth + 1) f.2).toList.length <
      (render depth (.struct (some name) fields)).toList.length := by
  have hline : (f.1 ++ ": " ++ render (depth + 1) f.2).toList.length <
      (inside depth ")" (fields.map fun f => f.1 ++ ": " ++ render (depth + 1) f.2)).length :=
    length_lt_inside (List.mem_map_of_mem h)
  simp only [toList_render_struct, String.toList_append, List.length_append,
    List.length_cons] at hline ⊢
  omega

theorem reads_list {items : List Term}
    (hitems : ∀ t ∈ items, Reads (term? bound levels) (render (depth + 1) t) t)
    (hbound : (render depth (.list items)).toList.length < bound) :
    Reads (term? bound (levels + 2)) (render depth (.list items)) (.list items) := by
  have htext := toList_render_list depth items
  refine ⟨by simp [Opens, htext, openNothing], fun rest _ => ?_⟩
  rw [htext, List.length_cons] at hbound
  have helements : elements? ']' (term? bound levels) bound
      (inside depth "]" (items.map (render (depth + 1))) ++ rest) = some (items, rest) :=
    elements?_inside rfl (by decide) hitems (Nat.lt_of_succ_lt hbound) rest
  rw [htext, List.cons_append, term?, nested?_of_head (by decide)]
  simp only [plainTerm?, identifier?_of_head (c := '[') (by decide), Option.bind_eq_bind,
    Option.bind_some, helements]
  rfl

theorem reads_map {entries : List (Term × Term)}
    (hkeys : ∀ e ∈ entries, Reads (term? bound levels) (render (depth + 1) e.1) e.1)
    (hvalues : ∀ e ∈ entries, Reads (term? bound levels) (render (depth + 1) e.2) e.2)
    (hbound : (render depth (.map entries)).toList.length < bound) :
    Reads (term? bound (levels + 2)) (render depth (.map entries)) (.map entries) := by
  have htext := toList_render_map depth entries
  refine ⟨by simp [Opens, htext, openNothing], fun rest _ => ?_⟩
  rw [htext, List.length_cons] at hbound
  have hkeyed : ∀ e ∈ entries, Reads (keyed? (term? bound levels) (term? bound levels))
      (render (depth + 1) e.1 ++ ": " ++ render (depth + 1) e.2) e := fun e he =>
    .keyed (hkeys e he).opens (fun rest => (hkeys e he).back _ (.colon rest)) (hvalues e he)
  have helements : elements? '\x7d' (keyed? (term? bound levels) (term? bound levels)) bound
      (inside depth "\x7d"
        (entries.map fun e => render (depth + 1) e.1 ++ ": " ++ render (depth + 1) e.2) ++ rest) =
      some (entries, rest) :=
    elements?_inside rfl (by decide) hkeyed (Nat.lt_of_succ_lt hbound) rest
  rw [htext, List.cons_append, term?, nested?_of_head (by decide)]
  simp only [plainTerm?, identifier?_of_head (c := '\x7b') (by decide), Option.bind_eq_bind,
    Option.bind_some, helements]
  rfl

/-- A name before a bracket is neither a word nor the mark of an optional value. -/
theorem nested?_of_name {name : String} {element? : Option (Reader Term)} {present : Reader Term}
    (hname : IsName name) (hword : ∀ w ∈ termWords, name ≠ w.1) (hsome : name ≠ "Some")
    (rest : List Char) :
    nested? bound element? present (name.toList ++ '(' :: rest) =
      round? bound element? (some name) ('(' :: rest) := by
  have hwords : anyKeyword? termWords (name.toList ++ '(' :: rest) = none := by
    have hchars : ∀ w ∈ termWords, w.1.toList.all Text.isIdentifierRest = true := by decide
    exact anyKeyword?_eq_none fun w hw =>
      keyword?_of_name hname .bracket rest (hchars w hw) (hword w hw)
  have hpresent : keyword? "Some" (name.toList ++ '(' :: rest) = none :=
    keyword?_of_name hname .bracket rest (by decide) hsome
  simp only [nested?, hwords, hpresent, plainTerm?, identifier?_append hname .bracket,
    Option.bind_eq_bind, skip_solid (c := '(') rfl, Option.bind_some]
  cases round? bound element? (some name) ('(' :: rest) <;> simp

theorem reads_struct {name : String} {fields : List (String × Term)} (hname : IsName name)
    (hword : ∀ w ∈ termWords, name ≠ w.1) (hsome : name ≠ "Some") (hfields : fields ≠ [])
    (hkeys : ∀ f ∈ fields, IsName f.1)
    (hvalues : ∀ f ∈ fields, Reads (term? bound levels) (render (depth + 1) f.2) f.2)
    (hbound : (render depth (.struct (some name) fields)).toList.length < bound) :
    Reads (term? bound (levels + 2)) (render depth (.struct (some name) fields))
      (.struct (some name) fields) := by
  have htext := toList_render_struct depth name fields
  refine ⟨(opens_name hname).front htext, fun rest _ => ?_⟩
  rw [htext, List.length_append, List.length_cons] at hbound
  have hkeyed : ∀ f ∈ fields, Reads (keyed? identifier? (term? bound levels))
      (f.1 ++ ": " ++ render (depth + 1) f.2) f := fun f hf =>
    .keyed (opens_name (hkeys f hf)) (identifier?_append (hkeys f hf) .colon) (hvalues f hf)
  have helements : elements? ')' (keyed? identifier? (term? bound levels)) bound
      (inside depth ")" (fields.map fun f => f.1 ++ ": " ++ render (depth + 1) f.2) ++ rest) =
      some (fields, rest) :=
    elements?_inside rfl (by decide) hkeyed (by omega) rest
  have hnamed : startsNamed
      (inside depth ")" (fields.map fun f => f.1 ++ ": " ++ render (depth + 1) f.2) ++ rest) =
      true := by
    cases fields with
    | nil => exact absurd rfl hfields
    | cons f more => exact startsNamed_inside (hkeys f List.mem_cons_self) rest
  rw [htext, List.append_assoc, List.cons_append, term?, nested?_of_name hname hword hsome]
  simp only [round?, Option.bind_eq_bind, Option.bind_some, hnamed, ↓reduceIte, helements]
  rfl

end Brackets

/-! ## All terms -/

/-- A readable term is read back from its text wherever it stands. -/
theorem Readable.reads {levels : Nat} {t : Term} (h : Readable levels t) {bound : Nat}
    (depth : Nat) (hbound : (render depth t).toList.length < bound) :
    Reads (term? bound levels) (render depth t) t := by
  induction h generalizing depth with
  | unit levels =>
    rw [render]
    exact reads_unit bound levels
  | bool levels b =>
    have := reads_bool bound levels b
    cases b <;> exact this
  | int hword =>
    rw [render_int]
    exact reads_number bound _ (head_int _) fun rest hrest => number?_int hword hrest
  | float hfinite hback =>
    rw [render]
    exact reads_number bound _ (head_float hfinite) fun rest hrest =>
      number?_float hfinite hback hrest
  | string levels s =>
    rw [render]
    exact reads_string bound levels s
  | list hitems ih =>
    exact reads_list (fun t ht => ih t ht _ (Nat.lt_trans (length_item_lt ht) hbound)) hbound
  | map hkeys hvalues ihkeys ihvalues =>
    refine reads_map (fun e he => ihkeys e he _ ?_) (fun e he => ihvalues e he _ ?_) hbound
    all_goals
      have hlength := Nat.lt_trans (length_entry_lt he) hbound
      omega
  | struct hname hword hsome hfields hkeys hvalues ih =>
    exact reads_struct hname hword hsome hfields hkeys
      (fun f hf => ih f hf _ (Nat.lt_trans (length_field_lt hf) hbound)) hbound

/-! ## Whole texts -/

/-- A readable term is what its text is read as, and asks for no extension. -/
theorem parse?_toText {t : Term} (h : Readable maxDepth t) :
    parse? t.toText = some ⟨false, t⟩ := by
  have hreads := h.reads 0 (Nat.lt_succ_self _)
  obtain ⟨c, cs, htext, hc⟩ := hreads.opens.cons
  have hsolid := skip_solid (isSolid_of_opens hc) cs
  have hread := hreads.back [] .nil
  rw [List.append_nil] at hread
  have hhash : c ≠ '#' := by
    rintro rfl
    exact hc (by decide)
  have hattributes : attributes? ((render 0 t).toList.length + 1) (c :: cs) =
      some ([], c :: cs) := by
    rw [attributes?, hsolid]
    simp [hhash]
  unfold parse? Term.toText
  simp only [htext] at hattributes hread ⊢
  simp only [hattributes, hsolid, Option.bind_eq_bind, Option.bind_some, hread, skip_nil]
  rfl

end FlowGraph.Ron
