import FlowGraph.Ron.Term
import FlowGraph.Text.Identifier

/-!
# Numbers of RON

An integer is decimal or marked by `0x`, `0b` or `0o`, may have underscores between its digits and
may be followed by the name of its type.  A float has a point or an exponent, or is an integer too
large for its type.  Infinities and NaN are words.
-/

namespace FlowGraph.Ron

/-- The value of a digit in bases up to sixteen. -/
def digit? (c : Char) : Option Nat :=
  if c.isDigit then some (c.toNat - '0'.toNat)
  else if 'a' ≤ c && c ≤ 'f' then some (c.toNat - 'a'.toNat + 10)
  else if 'A' ≤ c && c ≤ 'F' then some (c.toNat - 'A'.toNat + 10)
  else none

def isIntChar (c : Char) : Bool := c = '_' || (digit? c).isSome

def isFloatChar (c : Char) : Bool :=
  c.isDigit || c = 'e' || c = 'E' || c = '.' || c = '+' || c = '-' || c = '_'

/-- Whether a minus stands in front, and what follows the sign. -/
def sign : List Char → Bool × List Char
  | '-' :: rest => (true, rest)
  | '+' :: rest => (false, rest)
  | cs => (false, cs)

/-- Takes a word off the front, if no further character of an identifier follows it. -/
def keyword? (word : String) (cs : List Char) : Option (List Char) :=
  if word.toList.isPrefixOf cs then
    let rest := cs.drop word.length
    if (rest.head?.any Text.isIdentifierRest) then none else some rest
  else none

/-- Takes one of several words off the front. -/
def anyKeyword? {α : Type} (words : List (String × α)) (cs : List Char) : Option (α × List Char) :=
  words.findSome? fun (word, a) => (keyword? word cs).map fun rest => (a, rest)

/-! ## Integers -/

/-- Adds digits of a base to a number, passing over underscores. -/
def foldDigits (base : Nat) : Nat → List Char → Option Nat
  | n, [] => some n
  | n, '_' :: rest => foldDigits base n rest
  | n, c :: rest => do
    let d ← digit? c
    if d < base then foldDigits base (n * base + d) rest else none

/-- The number that digits stand for; the first may not be an underscore. -/
def readDigits (base : Nat) : List Char → Option Nat
  | [] => none
  | '_' :: _ => none
  | cs => foldDigits base 0 cs

/-- The base a number announces, and its digits. -/
def announcedBase : List Char → Nat × List Char
  | '0' :: 'x' :: rest => (16, rest)
  | '0' :: 'b' :: rest => (2, rest)
  | '0' :: 'o' :: rest => (8, rest)
  | cs => (10, cs)

/-- An integer.  Without a mark it has to fit into 64 bits, signed exactly if it has a minus. -/
def integer? (cs : List Char) : Option (Term × List Char) := do
  let (negative, body) := sign cs
  let mark := anyKeyword? (IntType.all.map fun t => (t.name, t)) (body.dropWhile isIntChar)
  let (base, digits) := announcedBase body
  let magnitude ← readDigits base (digits.takeWhile isIntChar)
  let n : Int := if negative then -magnitude else magnitude
  match mark with
  | some (type, rest) => if type.holds n then some (.int n (some type), rest) else none
  | none =>
    let type : IntType := if negative then .int 64 else .nat 64
    if type.holds n then some (.int n none, digits.dropWhile isIntChar) else none

/-! ## Floats -/

/-- The words for numbers without digits. -/
def floatWords : List (String × Float) :=
  ["", "f32", "f64"].flatMap fun mark => [("inf" ++ mark, 1.0 / 0.0), ("NaN" ++ mark, 0.0 / 0.0)]

/-- Removes underscores; one may follow a digit or an exponent mark but not a point. -/
def dropUnderscores : Bool → List Char → Option (List Char)
  | _, [] => some []
  | allowed, '_' :: rest => if allowed then dropUnderscores allowed rest else none
  | allowed, c :: rest =>
    let next := if c = '.' then false else if c = '+' || c = '-' then allowed else true
    (dropUnderscores next rest).map (c :: ·)

/-- The exponent at the end of a number: empty, or a mark, a sign and at least one digit. -/
def readExponent : List Char → Option Int
  | [] => some 0
  | c :: rest => do
    if c ≠ 'e' && c ≠ 'E' then none
    let (negative, digits) := sign rest
    let n ← if digits.all Char.isDigit then readDigits 10 digits else none
    return if negative then -n else n

/-- A decimal without its sign: digits around a point of which one side may be empty, then an
    exponent. -/
def readDecimal (cs : List Char) : Option Decimal := do
  let whole := cs.takeWhile Char.isDigit
  let rest := cs.dropWhile Char.isDigit
  let (fraction, rest) := match rest with
    | '.' :: rest => (rest.takeWhile Char.isDigit, rest.dropWhile Char.isDigit)
    | rest => ([], rest)
  let digits ← readDigits 10 (whole ++ fraction)
  let exponent ← readExponent rest
  return ⟨digits, exponent - fraction.length⟩

/-- A float, rounded to the type it is marked with. -/
def float? (cs : List Char) : Option (Term × List Char) :=
  let (negative, body) := sign cs
  match anyKeyword? floatWords body with
  | some (x, rest) => some (.float (if negative then -x else x), rest)
  | none => do
    let (minus, number) := sign (← dropUnderscores false (cs.takeWhile isFloatChar))
    let decimal ← readDecimal number
    let rest := cs.dropWhile isFloatChar
    match anyKeyword? [("f32", true), ("f64", false)] rest with
    | some (true, rest) => some (.float (Number.widen (decimal.toFloat32 minus)), rest)
    | some (false, rest) => some (.float (decimal.toFloat minus), rest)
    | none => some (.float (decimal.toFloat minus), rest)

/-- A number.  It is a float if more characters of a float than of an integer follow its sign;
    otherwise an integer, or a float if it is no integer. -/
def number? (cs : List Char) : Option (Term × List Char) :=
  let body := (sign cs).2
  if (body.takeWhile isFloatChar).length > (body.takeWhile isIntChar).length then float? cs
  else (integer? cs).or (float? cs)

end FlowGraph.Ron
