import FlowGraph.Proofs.Ron.Tokens

/-!
# Reading written numbers

Digits are read back by undoing the division that made them.  An integer is told from a float by
the point alone, so the layout of a float matters here and its digits do not: that the digits of a
double stand for the same double is the assumption `ReadsBack`.
-/

namespace FlowGraph.Ron

/-! ## Digits -/

theorem digit?_digitChar {d : Nat} (h : d < 16) : digit? d.digitChar = some d := by
  have hall : ∀ d : Fin 16, digit? (Nat.digitChar d) = some d.val := by decide
  exact hall ⟨d, h⟩

theorem digitChar_ne_underscore (d : Nat) : d.digitChar ≠ '_' :=
  Nat.digitChar_ne '_' (by decide)

theorem foldDigits_digitChar {base d : Nat} (h : d < base) (hbase : base ≤ 16) (n : Nat)
    (rest : List Char) :
    foldDigits base n (d.digitChar :: rest) = foldDigits base (n * base + d) rest := by
  rw [foldDigits.eq_3 _ _ _ _ (digitChar_ne_underscore d), digit?_digitChar (by omega)]
  simp [h]

theorem foldDigits_append (base n : Nat) (cs rest : List Char) :
    foldDigits base n (cs ++ rest) =
      (foldDigits base n cs).bind fun n => foldDigits base n rest := by
  fun_induction foldDigits base n cs with
  | case1 => rfl
  | case2 n cs ih => simpa [foldDigits] using ih
  | case3 n c cs hc ih =>
    rw [List.cons_append, foldDigits.eq_3 _ _ _ _ hc]
    cases hd : digit? c with
    | none => rfl
    | some d =>
      simp only [Option.bind_eq_bind, Option.bind_some]
      split
      case isTrue => exact ih d
      case isFalse => rfl

/-- The digits of a number stand for the number. -/
theorem foldDigits_toDigits {base : Nat} (hbase : 1 < base) (hbase' : base ≤ 16) (n : Nat) :
    foldDigits base 0 (Nat.toDigits base n) = some n := by
  induction n using Nat.strongRecOn with
  | ind n ih =>
    rw [Nat.toDigits_eq_if hbase]
    split
    case isTrue h => rw [foldDigits_digitChar h hbase', foldDigits]; simp
    case isFalse h =>
      have hlast : n % base < base := Nat.mod_lt _ (by omega)
      rw [foldDigits_append, ih (n / base) (Nat.div_lt_self (by omega) hbase), Option.bind_some,
        foldDigits_digitChar hlast hbase', foldDigits, Nat.div_add_mod']

theorem underscore_not_mem_toDigits {base : Nat} (hbase : 1 < base) (n : Nat) :
    '_' ∉ Nat.toDigits base n := by
  induction n using Nat.strongRecOn with
  | ind n ih =>
    rw [Nat.toDigits_eq_if hbase]
    split
    case isTrue => simp
    case isFalse => simpa using ih (n / base) (Nat.div_lt_self (by omega) hbase)

theorem digit_not_underscore {c : Char} (h : c.isDigit = true) : c ≠ '_' := by
  rintro rfl
  exact absurd h (by decide)

theorem isDigit_of_mem_decimal {n : Nat} : ∀ c ∈ Nat.toDigits 10 n, c.isDigit = true :=
  fun _ hc => Nat.isDigit_of_mem_toDigits (by decide) (by decide) hc

/-- A number has a first digit. -/
theorem decimal_cons (n : Nat) :
    ∃ c cs, Nat.toDigits 10 n = c :: cs ∧ ∀ d ∈ c :: cs, d.isDigit = true := by
  cases hcs : Nat.toDigits 10 n with
  | nil => exact absurd hcs Nat.toDigits_ne_nil
  | cons c cs => exact ⟨c, cs, rfl, hcs ▸ isDigit_of_mem_decimal⟩

/-- Decimal digits are read as the number they stand for. -/
theorem readDigits_toDigits (n : Nat) : readDigits 10 (Nat.toDigits 10 n) = some n := by
  obtain ⟨c, cs, hcs, hdigits⟩ := decimal_cons n
  have hc : c ≠ '_' := digit_not_underscore (hdigits c List.mem_cons_self)
  rw [hcs, readDigits.eq_3 _ _ (by simp) (by simpa using hc), ← hcs,
    foldDigits_toDigits (by decide) (by decide)]

/-! ## What a digit is not -/

section Digit

variable {c : Char}

theorem isIntChar_of_digit (h : c.isDigit = true) : isIntChar c = true := by
  simp [isIntChar, digit?, h]

theorem isFloatChar_of_digit (h : c.isDigit = true) : isFloatChar c = true := by
  simp [isFloatChar, h]

/-- A digit begins no sign, word, name, bracket or quoted text. -/
theorem ne_of_digit (h : c.isDigit = true) {d : Char} (hd : d.isDigit = false) : c ≠ d := by
  rintro rfl
  simp [h] at hd

end Digit

theorem sign_digit {c : Char} (h : c.isDigit = true) (rest : List Char) :
    sign (c :: rest) = (false, c :: rest) :=
  sign.eq_3 _ (by simpa using ne_of_digit h (by decide)) (by simpa using ne_of_digit h (by decide))

/-! ## Integers -/

/-- The minus of a number that needs one. -/
def minus (negative : Bool) : List Char := if negative then ['-'] else []

theorem sign_minus {c : Char} (h : c.isDigit = true) (negative : Bool) (rest : List Char) :
    sign (minus negative ++ c :: rest) = (negative, c :: rest) := by
  cases negative with
  | false => exact sign_digit h rest
  | true => rfl

theorem toList_toString_int (n : Int) :
    (toString n).toList = minus (n < 0) ++ Nat.toDigits 10 n.natAbs := by
  rw [Int.toString_eq_repr, Int.repr_eq_if]
  split
  case isTrue h =>
    rw [Nat.toList_repr, show n.toNat = n.natAbs by omega]
    simp [minus, h]
  case isFalse h =>
    rw [String.toList_append, Nat.toList_repr, show (-n).toNat = n.natAbs by omega]
    simp [minus, show n < 0 by omega]

/-- Decimal digits announce no other base. -/
theorem announcedBase_decimal {c : Char} {cs rest : List Char}
    (h : ∀ d ∈ cs, d.isDigit = true) (hrest : Ended rest) :
    announcedBase (c :: (cs ++ rest)) = (10, c :: (cs ++ rest)) := by
  have hmark : ∀ mark : Char, mark.isDigit = false → mark ≠ ',' → mark ≠ ':' →
      ∀ more, cs ++ rest ≠ mark :: more := by
    intro mark hdigit hcomma hcolon more heq
    cases cs with
    | nil =>
      rw [List.nil_append] at heq
      obtain rfl | rfl := hrest mark (by simp [heq])
      · exact hcomma rfl
      · exact hcolon rfl
    | cons d ds => exact ne_of_digit (h d List.mem_cons_self) hdigit (List.cons.inj heq).1
  have hx := hmark 'x' (by decide) (by decide) (by decide)
  have hb := hmark 'b' (by decide) (by decide) (by decide)
  have ho := hmark 'o' (by decide) (by decide) (by decide)
  exact announcedBase.eq_4 _ (fun more h => hx more (List.cons.inj h).2)
    (fun more h => hb more (List.cons.inj h).2) (fun more h => ho more (List.cons.inj h).2)

/-- No type is named behind a term. -/
theorem Ended.no_mark {rest : List Char} (h : Ended rest) {α : Type} {words : List (String × α)}
    (hwords : ∀ w ∈ words, w.1.toList.head?.any (fun c => c != ',' && c != ':') = true) :
    anyKeyword? words rest = none := by
  cases rest with
  | nil =>
    refine anyKeyword?_eq_none fun w hw => ?_
    rw [Option.eq_none_iff_forall_not_mem]
    intro more hmore
    have hword := hwords w hw
    rw [(List.append_eq_nil_iff.1 (keyword?_eq_some.1 hmore).1.symm).1] at hword
    cases hword
  | cons c rest =>
    refine anyKeyword?_of_head hwords ?_
    obtain rfl | rfl := h c rfl <;> rfl

/-- Digits are taken as a whole by whatever takes digits. -/
theorem Ended.takeWhile_digits {cs rest : List Char} (hrest : Ended rest)
    (hcs : ∀ c ∈ cs, c.isDigit = true) {p : Char → Bool} (hp : ∀ c, c.isDigit = true → p c = true)
    (hcomma : p ',' = false) (hcolon : p ':' = false) :
    (cs ++ rest).takeWhile p = cs ∧ (cs ++ rest).dropWhile p = rest :=
  ⟨takeWhile_stops (fun c hc => hp c (hcs c hc)) (hrest.stops hcomma hcolon),
    dropWhile_stops (fun c hc => hp c (hcs c hc)) (hrest.stops hcomma hcolon)⟩

section Integer

variable {n : Int} {rest : List Char}

theorem natAbs_signed (n : Int) :
    (if decide (n < 0) = true then -(n.natAbs : Int) else n.natAbs) = n := by
  simp only [decide_eq_true_eq]
  split <;> omega

/-- An integer of 64 bits, signed or unsigned. -/
def isWord (n : Int) : Bool := (IntType.int 64).holds n || (IntType.nat 64).holds n

theorem isWord_of_nat {bits : Nat} (hbits : bits ≤ 64) (h : (IntType.nat bits).holds n = true) :
    isWord n = true := by
  have hpow : (Nat.pow 2 bits : Int) ≤ Nat.pow 2 64 :=
    Int.ofNat_le.2 (Nat.pow_le_pow_right (by decide) hbits)
  refine Bool.or_eq_true_iff.2 (.inr ?_)
  simp only [IntType.holds, IntType.nat, IntType.least, IntType.greatest, Bool.false_eq_true,
    ↓reduceIte, Bool.and_eq_true, decide_eq_true_eq] at h ⊢
  exact ⟨h.1, by omega⟩

/-- The type an integer without a mark is read at: signed exactly below zero. -/
theorem holds_unmarked (h : isWord n = true) :
    (if decide (n < 0) = true then IntType.int 64 else IntType.nat 64).holds n = true := by
  simp only [isWord, IntType.holds, IntType.int, IntType.nat, IntType.least, IntType.greatest,
    Bool.or_eq_true, Bool.and_eq_true, decide_eq_true_eq, Nat.pow_eq, ↓reduceIte,
    Bool.false_eq_true] at h
  split <;> simp_all [IntType.holds, IntType.int, IntType.nat, IntType.least, IntType.greatest] <;>
    omega

theorem integer?_int (hword : isWord n = true) (hrest : Ended rest) :
    integer? ((toString n).toList ++ rest) = some (.int n none, rest) := by
  have hread := readDigits_toDigits n.natAbs
  have hmark : anyKeyword? (IntType.all.map fun t => (t.name, t)) rest = none :=
    hrest.no_mark (by decide)
  rw [toList_toString_int, List.append_assoc]
  obtain ⟨c, cs, hcs, hdigits⟩ := decimal_cons n.natAbs
  obtain ⟨htaken, hleft⟩ :=
    hrest.takeWhile_digits hdigits (fun _ => isIntChar_of_digit) (by decide) (by decide)
  have hbase : announcedBase (c :: (cs ++ rest)) = (10, c :: (cs ++ rest)) :=
    announcedBase_decimal (fun d hd => hdigits d (List.mem_cons_of_mem _ hd)) hrest
  rw [hcs] at hread ⊢
  rw [List.cons_append] at htaken hleft ⊢
  simp only [integer?, sign_minus (hdigits c List.mem_cons_self), htaken, hleft, hbase, hmark,
    hread, Option.bind_eq_bind, Option.bind_some, natAbs_signed, holds_unmarked hword,
    ↓reduceIte]

/-- An integer of 64 bits is read as itself. -/
theorem number?_int (hword : isWord n = true) (hrest : Ended rest) :
    number? ((toString n).toList ++ rest) = some (.int n none, rest) := by
  have hint := integer?_int hword hrest
  obtain ⟨c, cs, hcs, hdigits⟩ := decimal_cons n.natAbs
  obtain ⟨hintChars, -⟩ :=
    hrest.takeWhile_digits hdigits (fun _ => isIntChar_of_digit) (by decide) (by decide)
  obtain ⟨hfloatChars, -⟩ :=
    hrest.takeWhile_digits hdigits (fun _ => isFloatChar_of_digit) (by decide) (by decide)
  have hsign : (sign ((toString n).toList ++ rest)).2 = c :: cs ++ rest := by
    rw [toList_toString_int, List.append_assoc, hcs, List.cons_append,
      sign_minus (hdigits c List.mem_cons_self)]
  simp only [number?, hsign, hintChars, hfloatChars, gt_iff_lt, Nat.lt_irrefl, ↓reduceIte, hint,
    Option.some_or]

end Integer

/-! ## Floats -/

/-- The number a text stands for, as the library of numbers reads it: a sign and digits around a
    point. -/
def readFloat? (s : String) : Option Float :=
  let (negative, digits) := sign s.toList
  (readDecimal digits).map (·.toFloat negative)

/-- The text of `x` stands for `x`.  This is what documents assume of the library of numbers for
    every finite double. -/
def ReadsBack (x : Float) : Prop := readFloat? (Number.documentText x) = some x

instance (x : Float) : Decidable (ReadsBack x) :=
  inferInstanceAs (Decidable (_ = _))

/-- Digits around a point, with at least one digit before it. -/
structure IsPointed (whole fraction : List Char) : Prop where
  nonempty : whole ≠ []
  digits : ∀ c ∈ whole ++ fraction, c.isDigit = true

/-- The positional layout always has a point, and a zero before it if nothing else is there. -/
theorem positional_pointed (d : Decimal) :
    ∃ whole fraction, IsPointed whole fraction ∧
      d.positional.toList = whole ++ '.' :: fraction := by
  have hfigures : ∀ c ∈ d.figures, c.isDigit = true := isDigit_of_mem_decimal
  have hzeros : ∀ n, ∀ c ∈ List.replicate n '0', c.isDigit = true := by
    intro n c hc
    rw [(List.mem_replicate.1 hc).2]
    rfl
  unfold Decimal.positional
  dsimp only
  split
  case isTrue =>
    refine ⟨d.figures ++ List.replicate d.exponent.toNat '0', ['0'], ⟨?_, ?_⟩, by simp⟩
    · simp [Decimal.figures]
    · simp only [List.mem_append]
      rintro c ((hc | hc) | hc)
      · exact hfigures c hc
      · exact hzeros _ c hc
      · exact hzeros 1 c hc
  case isFalse =>
    split
    case isTrue =>
      refine ⟨['0'], List.replicate (d.exponent.natAbs - d.figures.length) '0' ++ d.figures,
        ⟨by simp, ?_⟩, by simp⟩
      simp only [List.mem_append]
      rintro c (hc | hc | hc)
      · exact hzeros 1 c hc
      · exact hzeros _ c hc
      · exact hfigures c hc
    case isFalse hwhole =>
      refine ⟨d.figures.take (d.figures.length - d.exponent.natAbs),
        d.figures.drop (d.figures.length - d.exponent.natAbs), ⟨?_, ?_⟩, by simp⟩
      · rw [ne_eq, List.take_eq_nil_iff]
        rintro (h | h)
        · exact hwhole h
        · simp [h] at hwhole
      · rwa [List.take_append_drop]

theorem documentText_pointed {x : Float} (h : Number.isFinite x = true) :
    ∃ negative whole fraction, IsPointed whole fraction ∧
      (Number.documentText x).toList = minus negative ++ (whole ++ '.' :: fraction) := by
  unfold Number.isFinite at h
  unfold Number.documentText Number.write
  split at h
  case h_1 sign m q hm hx =>
    obtain ⟨whole, fraction, hpointed, htext⟩ := positional_pointed (Decimal.shortest .up m q)
    rw [hx]
    cases sign with
    | negative => exact ⟨true, whole, fraction, hpointed, by simp [htext, minus]⟩
    | positive => exact ⟨false, whole, fraction, hpointed, by simp [htext, minus]⟩
  case h_2 sign hx =>
    rw [hx]
    cases sign with
    | negative => exact ⟨true, ['0'], ['0'], ⟨by simp, by simp⟩, by simp [minus]⟩
    | positive => exact ⟨false, ['0'], ['0'], ⟨by simp, by simp⟩, by simp [minus]⟩
  all_goals cases h

theorem dropUnderscores_of_not_mem {cs : List Char} (h : '_' ∉ cs) (allowed : Bool) :
    dropUnderscores allowed cs = some cs := by
  induction cs generalizing allowed with
  | nil => rfl
  | cons c cs ih =>
    simp only [List.mem_cons, not_or] at h
    rw [dropUnderscores.eq_3 _ _ _ (fun hc => h.1 hc.symm), ih h.2, Option.map_some]

section Pointed

variable {whole fraction rest : List Char} {negative : Bool}

theorem IsPointed.cons (h : IsPointed whole fraction) :
    ∃ c cs, whole = c :: cs ∧ c.isDigit = true := by
  cases hwhole : whole with
  | nil => exact absurd hwhole h.nonempty
  | cons c cs => exact ⟨c, cs, rfl, h.digits c (by simp [hwhole])⟩

theorem IsPointed.floatChars (h : IsPointed whole fraction) (negative : Bool) :
    ∀ c ∈ minus negative ++ (whole ++ '.' :: fraction), isFloatChar c = true := by
  have hdigits : ∀ c ∈ whole ++ fraction, isFloatChar c = true :=
    fun c hc => isFloatChar_of_digit (h.digits c hc)
  intro c hc
  simp only [List.mem_append, List.mem_cons] at hc hdigits
  obtain hc | hc | rfl | hc := hc
  · cases negative <;> simp_all [minus, isFloatChar]
  · exact hdigits c (.inl hc)
  · rfl
  · exact hdigits c (.inr hc)

theorem IsPointed.no_underscore (h : IsPointed whole fraction) (negative : Bool) :
    '_' ∉ minus negative ++ (whole ++ '.' :: fraction) := by
  have hdigits : '_' ∉ whole ++ fraction := fun hc => digit_not_underscore (h.digits _ hc) rfl
  simp only [List.mem_append, List.mem_cons, not_or] at hdigits ⊢
  refine ⟨?_, hdigits.1, by decide, hdigits.2⟩
  cases negative <;> decide

/-- Behind the sign, more characters of a float than of an integer stand: the point. -/
theorem IsPointed.longer (h : IsPointed whole fraction) (hrest : Ended rest) :
    ((whole ++ '.' :: fraction ++ rest).takeWhile isIntChar).length <
      ((whole ++ '.' :: fraction ++ rest).takeWhile isFloatChar).length := by
  have hint : (whole ++ ('.' :: fraction ++ rest)).takeWhile isIntChar = whole :=
    takeWhile_stops (fun c hc => isIntChar_of_digit (h.digits c (by simp [hc]))) rfl
  have hfloat : (whole ++ '.' :: fraction ++ rest).takeWhile isFloatChar =
      whole ++ '.' :: fraction :=
    takeWhile_stops (h.floatChars false) (hrest.stops rfl rfl)
  rw [hfloat, List.append_assoc, hint]
  simp

theorem IsPointed.sign_append (h : IsPointed whole fraction) (negative : Bool)
    (rest : List Char) :
    sign (minus negative ++ (whole ++ '.' :: fraction) ++ rest) =
      (negative, whole ++ '.' :: fraction ++ rest) := by
  obtain ⟨c, cs, rfl, hc⟩ := h.cons
  rw [List.append_assoc, List.cons_append, List.cons_append]
  exact sign_minus hc negative _

theorem IsPointed.sign_eq (h : IsPointed whole fraction) (negative : Bool) :
    sign (minus negative ++ (whole ++ '.' :: fraction)) = (negative, whole ++ '.' :: fraction) := by
  simpa using h.sign_append negative []

/-- A number with a point is read as the float it stands for. -/
theorem IsPointed.number? (h : IsPointed whole fraction) (hrest : Ended rest) {d : Decimal}
    (hread : readDecimal (whole ++ '.' :: fraction) = some d) :
    number? (minus negative ++ (whole ++ '.' :: fraction) ++ rest) =
      some (.float (d.toFloat negative), rest) := by
  have hstops := hrest.stops (p := isFloatChar) (by decide) (by decide)
  have hsign := h.sign_eq negative
  have hwords : anyKeyword? floatWords (whole ++ '.' :: fraction ++ rest) = none := by
    obtain ⟨c, cs, rfl, hc⟩ := h.cons
    exact anyKeyword?_of_head (p := (!·.isDigit)) (by decide) (by simp [hc])
  have hmark : anyKeyword? [("f32", true), ("f64", false)] rest = none :=
    hrest.no_mark (by decide)
  simp only [Ron.number?, h.sign_append, gt_iff_lt, h.longer hrest, ↓reduceIte, float?, hwords,
    takeWhile_stops (h.floatChars negative) hstops, dropWhile_stops (h.floatChars negative) hstops,
    dropUnderscores_of_not_mem (h.no_underscore negative), Option.bind_eq_bind, Option.bind_some,
    hsign, hread, hmark]

end Pointed

/-- A float is read as itself. -/
theorem number?_float {x : Float} (hfinite : Number.isFinite x = true) (hback : ReadsBack x)
    {rest : List Char} (hrest : Ended rest) :
    number? ((Number.documentText x).toList ++ rest) = some (.float x, rest) := by
  obtain ⟨negative, whole, fraction, hpointed, htext⟩ := documentText_pointed hfinite
  rw [ReadsBack, readFloat?, htext, hpointed.sign_eq] at hback
  obtain ⟨d, hread, rfl⟩ := Option.map_eq_some_iff.1 hback
  rw [htext, hpointed.number? hrest hread]

end FlowGraph.Ron
