import FlowGraph.Ron.Reader
import FlowGraph.Ron.Writer

/-!
# Tokens at the front of a text

How the readers of blanks, words and names behave in front of a known continuation.  A written
term is always followed by the end of the text, a comma or a colon (`Ended`), and none of these
can belong to a word, a name or a number; so each of these readers stops where its token stops.
-/

namespace FlowGraph.Ron

/-! ## Blanks -/

/-- Skipping stops at a character that is no blank and begins no comment. -/
def isSolid (c : Char) : Bool := !isBlank c && c != '/'

@[simp] theorem skip_nil : skip [] = some [] := rfl

theorem skipFrom_blanks {c : Char} (h : c ≠ '/') (rest : List Char) :
    skipFrom .blanks (c :: rest) =
      if isBlank c then skipFrom .blanks rest else some (c :: rest) := by
  rw [skipFrom.eq_def]
  split
  case h_6 heq =>
    obtain ⟨rfl, rfl⟩ := List.cons.inj heq
    rfl
  all_goals simp_all

theorem skip_solid {c : Char} (h : isSolid c = true) (rest : List Char) :
    skip (c :: rest) = some (c :: rest) := by
  simp only [isSolid, Bool.and_eq_true, Bool.not_eq_true', bne_iff_ne] at h
  rw [skip, skipFrom_blanks h.2, h.1]
  rfl

theorem skip_blank {c : Char} (h : isBlank c = true) (rest : List Char) :
    skip (c :: rest) = skip rest := by
  have hc : c ≠ '/' := by rintro rfl; exact absurd h (by decide)
  show skipFrom .blanks (c :: rest) = skipFrom .blanks rest
  rw [skipFrom_blanks hc, if_pos h]

theorem skip_blanks {cs : List Char} (h : ∀ c ∈ cs, isBlank c = true) (rest : List Char) :
    skip (cs ++ rest) = skip rest := by
  induction cs with
  | nil => rfl
  | cons c cs ih =>
    rw [List.cons_append, skip_blank (h c List.mem_cons_self)]
    exact ih fun c hc => h c (List.mem_cons_of_mem _ hc)

/-- The layout of a new line is skipped. -/
theorem skip_newline (depth : Nat) (rest : List Char) :
    skip ((newline depth).toList ++ rest) = skip rest := by
  apply skip_blanks
  intro c hc
  simp only [newline, String.toList_append, String.toList_ofList, List.mem_append,
    List.mem_replicate] at hc
  obtain hc | ⟨-, rfl⟩ := hc
  · obtain rfl : c = '\n' := by simpa using hc
    rfl
  · rfl

/-! ## Where tokens end -/

/-- Where a term ends: at the end of the text, at a comma, or as a key at a colon. -/
def Ended (rest : List Char) : Prop := ∀ c ∈ rest.head?, c = ',' ∨ c = ':'

theorem Ended.nil : Ended [] := by simp [Ended]

theorem Ended.comma (rest : List Char) : Ended (',' :: rest) := by simp [Ended]

theorem Ended.colon (rest : List Char) : Ended (':' :: rest) := by simp [Ended]

/-- No further character of a token that knows neither commas nor colons follows. -/
theorem Ended.stops {rest : List Char} (h : Ended rest) {p : Char → Bool}
    (hcomma : p ',' = false) (hcolon : p ':' = false) : rest.head?.any p = false := by
  cases rest with
  | nil => rfl
  | cons c rest =>
    obtain rfl | rfl := h c rfl
    · exact hcomma
    · exact hcolon

section Span

variable {p : Char → Bool} {cs rest : List Char}

theorem takeWhile_stops (hcs : ∀ c ∈ cs, p c = true) (hrest : rest.head?.any p = false) :
    (cs ++ rest).takeWhile p = cs := by
  rw [List.takeWhile_append_of_pos hcs]
  cases rest with
  | nil => simp
  | cons c rest => simp_all

theorem dropWhile_stops (hcs : ∀ c ∈ cs, p c = true) (hrest : rest.head?.any p = false) :
    (cs ++ rest).dropWhile p = rest := by
  rw [List.dropWhile_append_of_pos hcs]
  cases rest with
  | nil => rfl
  | cons c rest => simp_all

end Span

/-! ## Words -/

/-- A word is found exactly where it stands and no identifier goes on. -/
theorem keyword?_eq_some {word : String} {cs rest : List Char} :
    keyword? word cs = some rest ↔
      cs = word.toList ++ rest ∧ rest.head?.any Text.isIdentifierRest = false := by
  unfold keyword?
  constructor
  · intro h
    split at h
    case isFalse => cases h
    case isTrue hfront =>
      obtain ⟨more, rfl⟩ := List.isPrefixOf_iff_prefix.1 hfront
      rw [← String.length_toList, List.drop_left] at h
      dsimp only at h
      split at h
      case isTrue => cases h
      case isFalse hmore =>
        cases h
        exact ⟨rfl, by simpa using hmore⟩
  · rintro ⟨rfl, hrest⟩
    rw [if_pos (List.isPrefixOf_iff_prefix.2 (List.prefix_append ..)), ← String.length_toList,
      List.drop_left]
    simp [hrest]

/-- A word is not found at a character unlike its first; `p` tells them apart. -/
theorem keyword?_of_head {word : String} {p : Char → Bool} {c : Char} {rest : List Char}
    (hword : word.toList.head?.any p = true) (hc : p c = false) :
    keyword? word (c :: rest) = none := by
  rw [Option.eq_none_iff_forall_not_mem]
  intro more hmore
  obtain ⟨htext, -⟩ := keyword?_eq_some.1 hmore
  cases h : word.toList with
  | nil => simp [h] at hword
  | cons d ds =>
    rw [h, List.cons_append, List.cons.injEq] at htext
    simp [h, ← htext.1, hc] at hword

theorem anyKeyword?_eq_none {α : Type} {words : List (String × α)} {cs : List Char}
    (h : ∀ w ∈ words, keyword? w.1 cs = none) : anyKeyword? words cs = none := by
  simp only [anyKeyword?, List.findSome?_eq_none_iff]
  intro w hw
  rw [h w hw, Option.map_none]

/-- Which words could stand at the front is decided by the first character. -/
theorem anyKeyword?_of_head {α : Type} {words : List (String × α)} {p : Char → Bool} {c : Char}
    {rest : List Char} (hwords : ∀ w ∈ words, w.1.toList.head?.any p = true) (hc : p c = false) :
    anyKeyword? words (c :: rest) = none :=
  anyKeyword?_eq_none fun w hw => keyword?_of_head (hwords w hw) hc

/-! ## Names -/

/-- A name that can be written without further marks. -/
def IsName (name : String) : Prop :=
  name.toList.head?.any Text.isIdentifierStart = true ∧
    name.toList.all Text.isIdentifierRest = true

instance (name : String) : Decidable (IsName name) := inferInstanceAs (Decidable (_ ∧ _))

theorem IsName.rest {name : String} (h : IsName name) :
    ∀ c ∈ name.toList, Text.isIdentifierRest c = true :=
  List.all_eq_true.1 h.2

theorem IsName.cons {name : String} (h : IsName name) :
    ∃ c cs, name.toList = c :: cs ∧ Text.isIdentifierStart c = true := by
  cases hcs : name.toList with
  | nil => simp [IsName, hcs] at h
  | cons c cs => exact ⟨c, cs, rfl, by simpa [IsName, hcs] using h.1⟩

/-- A character that goes on with neither a name nor a text with a letter before its quotes. -/
structure ClosesName (c : Char) : Prop where
  not_rest : Text.isIdentifierRest c = false
  not_mark : c ∉ ['"', '\x27', '#']

theorem ClosesName.colon : ClosesName ':' := ⟨by decide, by decide⟩

theorem ClosesName.bracket : ClosesName '(' := ⟨by decide, by decide⟩

section Name

variable {name : String} {c : Char}

theorem ClosesName.stops (hc : ClosesName c) (rest : List Char) :
    (c :: rest).head?.any Text.isIdentifierRest = false := by
  simp [hc.not_rest]

/-- The first character of a text that cannot belong to a name is the one behind the name, so the
    text begins with nothing in which another such character comes first. -/
theorem not_in_front_of_name (hname : IsName name) (hc : ClosesName c) (rest : List Char)
    {front : List Char} {mark : Char}
    (hfront : front.find? (!Text.isIdentifierRest ·) = some mark) (hmark : mark ≠ c) :
    ¬ front <+: name.toList ++ c :: rest := by
  intro h
  have hnone : name.toList.find? (!Text.isIdentifierRest ·) = none :=
    List.find?_eq_none.2 fun d hd => by simp [hname.rest d hd]
  have hfound := h.find?_eq_some hfront
  rw [List.find?_append, hnone, Option.none_or,
    List.find?_cons_of_pos (by simp [hc.not_rest])] at hfound
  exact hmark (Option.some.inj hfound).symm

/-- None of the beginnings that announce a quoted text is at the front of a name. -/
theorem quotes_not_in_front (hname : IsName name) (hc : ClosesName c) (rest : List Char) :
    ["b\"", "b'", "br\"", "br#", "r\"", "r#\"", "r##"].any
      (fun s => s.toList.isPrefixOf (name.toList ++ c :: rest)) = false := by
  have hmarks : ∀ s ∈ ["b\"", "b'", "br\"", "br#", "r\"", "r#\"", "r##"],
      (s.toList.find? (!Text.isIdentifierRest ·)).any (· ∈ ['"', '\x27', '#']) = true := by
    decide
  rw [List.any_eq_false]
  intro s hs hfront
  obtain ⟨mark, hfind, hmem⟩ := (Option.any_eq_true _ _).1 (hmarks s hs)
  refine not_in_front_of_name hname hc rest hfind ?_ (List.isPrefixOf_iff_prefix.1 hfront)
  rintro rfl
  exact hc.not_mark (of_decide_eq_true hmem)

/-- A name is read where it stands. -/
theorem identifier?_append (hname : IsName name) (hc : ClosesName c) (rest : List Char) :
    identifier? (name.toList ++ c :: rest) = some (name, c :: rest) := by
  have hquotes := quotes_not_in_front hname hc rest
  have hraw : ∀ more, name.toList ++ c :: rest ≠ 'r' :: '#' :: more := by
    intro more h
    have hmark : '#' ≠ c := by rintro rfl; exact hc.not_mark (by decide)
    have hfront : ['r', '#'] <+: name.toList ++ c :: rest := ⟨more, h.symm⟩
    exact not_in_front_of_name hname hc rest (by decide) hmark hfront
  obtain ⟨a, as, ha, hstart⟩ := hname.cons
  have hall : ∀ d ∈ as, Text.isIdentifierRest d = true := fun d hd =>
    hname.rest d (by simp [ha, hd])
  have hname' : String.ofList (a :: as) = name := by rw [← ha, String.ofList_toList]
  unfold identifier?
  simp only [hquotes, Bool.false_eq_true, ↓reduceIte]
  rw [ha, List.cons_append] at hraw ⊢
  split
  next more h => exact absurd h (hraw _)
  next d more _ h =>
    obtain ⟨rfl, rfl⟩ := List.cons.inj h
    rw [if_pos hstart, takeWhile_stops hall (hc.stops rest), dropWhile_stops hall (hc.stops rest),
      hname']
  next h => simp at h

/-- A word is not found where another name stands. -/
theorem keyword?_of_name {word : String} (hname : IsName name) (hc : ClosesName c)
    (rest : List Char) (hword : word.toList.all Text.isIdentifierRest = true)
    (hne : name ≠ word) : keyword? word (name.toList ++ c :: rest) = none := by
  rw [Option.eq_none_iff_forall_not_mem]
  intro more hmore
  obtain ⟨htext, hstops⟩ := keyword?_eq_some.1 hmore
  have htaken := congrArg (List.takeWhile Text.isIdentifierRest) htext
  rw [takeWhile_stops hname.rest (hc.stops rest),
    takeWhile_stops (List.all_eq_true.1 hword) hstops] at htaken
  exact hne (String.toList_inj.1 htaken)

end Name

end FlowGraph.Ron
