import FlowGraph.Proofs.Ron.Numbers

/-!
# Reading written texts

Writing a text replaces each character by itself, by a backslash and a letter, or by its code point
in braces.  Reading undoes this one character at a time.
-/

namespace FlowGraph.Ron

variable {close : Char}

@[simp] theorem decodeBytes_nil : decodeBytes [] = some [] := rfl

/-- The code point of a character stands for that character. -/
theorem character?_toNat (c : Char) : character? c.toNat = some c := by
  have hvalid : c.toNat.isValidChar := c.valid
  rw [character?, if_pos hvalid, Char.ofNat_toNat]

/-! ## Code points -/

/-- Digits between braces add up as digits do elsewhere. -/
theorem quoted?_code {ds : List Char} (hds : '_' ∉ ds) {value read : Nat}
    (hlength : read + ds.length ≤ 6) {n : Nat} (hn : foldDigits 16 value ds = some n)
    (run : List UInt8) (rest : List Char) :
    quoted? close (.code value read) run (ds ++ '\x7d' :: rest) =
      quoted? close (.code n (read + ds.length)) run ('\x7d' :: rest) := by
  induction ds generalizing value read with
  | nil =>
    obtain rfl : value = n := by simpa [foldDigits] using hn
    rfl
  | cons d ds ih =>
    simp only [List.mem_cons, not_or] at hds
    rw [foldDigits.eq_3 _ _ _ _ (fun hd => hds.1 hd.symm)] at hn
    obtain ⟨v, hv, hn⟩ := Option.bind_eq_some_iff.1 hn
    split at hn
    case isFalse => cases hn
    case isTrue =>
      have hbrace : d ≠ '\x7d' := by rintro rfl; cases hv
      simp only [List.length_cons] at hlength
      rw [List.cons_append, quoted?.eq_def]
      simp only [hbrace, ↓reduceIte, show read < 6 by omega, hv, Option.bind_eq_bind,
        Option.bind_some]
      rw [ih hds.2 (by omega) hn, List.length_cons, Nat.add_right_comm, Nat.add_assoc]

theorem length_hex_le (c : Char) : (Text.hex c.toNat).length ≤ 6 := by
  rw [Text.hex, Nat.length_toDigits_le_iff (by decide) (by decide)]
  have hvalid : c.toNat.isValidChar := c.valid
  unfold Nat.isValidChar at hvalid
  omega

/-- A character written by its code point is read as itself. -/
theorem quoted?_codePoint (c : Char) (rest : List Char) :
    quoted? close (.code 0 0) [] (Text.hex c.toNat ++ '\x7d' :: rest) =
      (quoted? close .text [] rest).map (Prod.map (c :: ·) id) := by
  have hread : foldDigits 16 0 (Text.hex c.toNat) = some c.toNat :=
    foldDigits_toDigits (by decide) (by decide) _
  have hpositive : (Text.hex c.toNat).length ≠ 0 := Nat.pos_iff_ne_zero.1 Nat.length_toDigits_pos
  have hplain : '_' ∉ Text.hex c.toNat := underscore_not_mem_toDigits (by decide) _
  rw [quoted?_code hplain (by simpa using length_hex_le c) hread, quoted?.eq_6]
  simp only [↓reduceIte, Nat.zero_add, hpositive, decodeBytes_nil, character?_toNat,
    Option.bind_eq_bind, Option.bind_some, List.nil_append]
  cases quoted? close .text [] rest <;> rfl

/-! ## Characters -/

/-- A letter behind a backslash is read as what it stands for. -/
theorem quoted?_letter {letter c : Char} (h : escapedLetter? letter = some c) (rest : List Char) :
    quoted? '"' .text [] ('\\' :: letter :: rest) =
      (quoted? '"' .text [] rest).map (Prod.map (c :: ·) id) := by
  have hx : letter ≠ 'x' := by rintro rfl; cases h
  have hu : letter ≠ 'u' := by rintro rfl; cases h
  rw [quoted?.eq_2, if_neg (by decide), if_pos rfl, quoted?.eq_3, if_neg hx, if_neg hu, h]
  cases quoted? '"' .text [] rest <;> rfl

/-- A character that is neither quote nor backslash is read as itself. -/
theorem quoted?_plain {c : Char} (hquote : c ≠ '"') (hbackslash : c ≠ '\\') (rest : List Char) :
    quoted? '"' .text [] (c :: rest) =
      (quoted? '"' .text [] rest).map (Prod.map (c :: ·) id) := by
  rw [quoted?.eq_2, if_neg hquote, if_neg hbackslash]
  cases quoted? '"' .text [] rest <;> rfl

/-- A code point in braces is read as its character. -/
theorem quoted?_braces (c : Char) (rest : List Char) :
    quoted? '"' .text [] (['\\', 'u', '\x7b'] ++ Text.hex c.toNat ++ ['\x7d'] ++ rest) =
      (quoted? '"' .text [] rest).map (Prod.map (c :: ·) id) := by
  simp only [List.cons_append, List.nil_append, List.append_assoc]
  rw [quoted?.eq_2, if_neg (by decide), if_pos rfl, quoted?.eq_3, if_neg (by decide), if_pos rfl,
    quoted?.eq_5, if_pos rfl, quoted?_codePoint]

/-- One written character is read as itself. -/
theorem quoted?_escapeChar (c : Char) (rest : List Char) :
    quoted? '"' .text [] (Text.escapeChar true c ++ rest) =
      (quoted? '"' .text [] rest).map (Prod.map (c :: ·) id) := by
  fun_cases Text.escapeChar true c with
  | case1 | case2 | case3 | case4 | case5 | case6 | case7 =>
    subst_vars
    exact quoted?_letter rfl rest
  | case8 => contradiction
  | case9 => exact quoted?_braces c rest
  | case10 => exact quoted?_plain (by assumption) (by assumption) rest

theorem quoted?_escaped (cs rest : List Char) :
    quoted? '"' .text [] (cs.flatMap (Text.escapeChar true) ++ '"' :: rest) = some (cs, rest) := by
  induction cs with
  | nil => simp [quoted?]
  | cons c cs ih => rw [List.flatMap_cons, List.append_assoc, quoted?_escapeChar, ih]; rfl

/-- A written text is read as itself. -/
theorem text?_escape (s : String) (rest : List Char) :
    text? ((Text.escape true s).toList ++ rest) = some (s, rest) := by
  simp only [Text.escape, String.toList_ofList, List.cons_append, List.append_assoc,
    List.nil_append, text?, quoted?_escaped, Option.map_some, String.ofList_toList]

end FlowGraph.Ron
