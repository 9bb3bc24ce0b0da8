import FlowGraph.Ron.Blank
import FlowGraph.Ron.Quoted

/-!
# Reading RON

`term?` reads one term and gives what follows it.  Terms may nest only so deep, so the recursion is
on the depth that is left: a pair of brackets takes one level, each thing inside another, and `Some`
one in all.  Inside a pair of brackets the recursion is on a bound for the number of elements, for
which the length of the text will do.

A text may begin with a list of extensions in use.  Only one of them matters here: with
`explicit_struct_names` the name of a record may not be left out.
-/

namespace FlowGraph.Ron

/-- How many levels terms may nest. -/
def maxDepth : Nat := 128

/-- A reader of something at the front of a text. -/
abbrev Reader (α : Type) := List Char → Option (α × List Char)

/-- Reads elements with commas between them up to the closing bracket; one comma may follow the
    last element. -/
def elements? {α : Type} (close : Char) (element : Reader α) : Nat → Reader (List α)
  | 0, _ => none
  | bound + 1, cs => do
    match ← skip cs with
    | [] => none
    | c :: rest =>
      if c = close then return ([], rest)
      let (a, cs) ← element (c :: rest)
      match ← skip cs with
      | ',' :: rest =>
        let (as, rest) ← elements? close element bound rest
        return (a :: as, rest)
      | c :: rest => if c = close then return ([a], rest) else none
      | [] => none

/-- Reads a key, a colon and a term. -/
def keyed? {α : Type} (key : Reader α) (value : Reader Term) : Reader (α × Term) := fun cs => do
  let (k, cs) ← key cs
  match ← skip cs with
  | ':' :: rest =>
    let (t, rest) ← value (← skip rest)
    return ((k, t), rest)
  | _ => none

/-- Whether the bracket holds named fields: an identifier and a colon come first. -/
def startsNamed (cs : List Char) : Bool :=
  match (skip cs).bind identifier? with
  | some (_, rest) => ((skip rest).bind (·.head?)) = some ':'
  | none => false

/-- Reads what may follow a name, or stand without one: round brackets around fields or terms. -/
def round? (bound : Nat) (element? : Option (Reader Term)) (name : Option String) : Reader Term
  | '(' :: rest => do
    let element ← element?
    if startsNamed rest then
      let (fields, rest) ← elements? ')' (keyed? identifier? element) bound rest
      return (.struct name fields, rest)
    else
      let (items, rest) ← elements? ')' element bound rest
      return (.tuple name items, rest)
  | _ => none

/-- Reads the brackets of an optional value after its `Some`. -/
def optional? (element : Reader Term) (cs : List Char) : Option (Term × List Char) := do
  match ← skip cs with
  | '(' :: rest =>
    let (t, rest) ← element (← skip rest)
    match ← skip rest with
    | ')' :: rest => return (.present t, rest)
    | ',' :: rest =>
      match ← skip rest with
      | ')' :: rest => return (.present t, rest)
      | _ => none
    | _ => none
  | _ => none

/-- The words that are terms of their own. -/
def termWords : List (String × Term) :=
  [("true", .bool true), ("false", .bool false), ("None", .absent)] ++
    floatWords.map fun (word, x) => (word, .float x)

/-- Reads a term that starts with an identifier or an opening bracket, or is a literal.  Brackets
    need a reader for what is inside them; where there is none they may not be opened. -/
def plainTerm? (bound : Nat) (element? : Option (Reader Term)) (cs : List Char) :
    Option (Term × List Char) :=
  match identifier? cs with
  | some (name, rest) => do
    let rest ← skip rest
    match round? bound element? (some name) rest with
    | some found => return found
    | none => if rest.head? = some '(' then none else return (.word name, rest)
  | none =>
    match cs with
    | '(' :: ')' :: rest => some (.unit, rest)
    | '(' :: _ => round? bound element? none cs
    | '[' :: rest => do
      let (items, rest) ← elements? ']' (← element?) bound rest
      return (.list items, rest)
    | '\x7b' :: rest => do
      let element ← element?
      let (entries, rest) ← elements? '\x7d' (keyed? element element) bound rest
      return (.map entries, rest)
    | '"' :: _ | 'r' :: _ => (text? cs).map fun (s, rest) => (.string s, rest)
    | '\x27' :: _ => (character cs).map fun (c, rest) => (.char c, rest)
    | 'b' :: '\x27' :: _ =>
      (byte? cs).map fun (n, rest) => (.int n (some (.nat 8)), rest)
    | 'b' :: _ => (bytes? cs).map fun rest => (.bytes, rest)
    | _ => number? cs

/-- Reads a term, given the readers for what is inside brackets and for what is inside `Some`. -/
def nested? (bound : Nat) (element? : Option (Reader Term)) (present : Reader Term)
    (cs : List Char) : Option (Term × List Char) :=
  match anyKeyword? termWords cs with
  | some found => some found
  | none =>
    match keyword? "Some" cs with
    | some rest => optional? present rest
    | none => plainTerm? bound element? cs

/-- Reads a term with so many levels left.  On the last level brackets may be opened only to be
    closed at once. -/
def term? (bound : Nat) : Nat → Reader Term
  | 0, cs => nested? bound none (fun _ => none) cs
  | 1, cs => nested? bound (some fun _ => none) (term? bound 0) cs
  | depth + 2, cs => nested? bound (some (term? bound depth)) (term? bound (depth + 1)) cs

/-! ## Whole texts -/

/-- The extensions a text may ask for. -/
def extensions : List String :=
  ["unwrap_newtypes", "implicit_some", "unwrap_variant_newtypes", "explicit_struct_names"]

/-- Takes tokens off the front, with blanks before each. -/
def tokens? : List String → List Char → Option (List Char)
  | [], cs => some cs
  | token :: more, cs => do
    let cs ← skip cs
    if token.toList.isPrefixOf cs then tokens? more (cs.drop token.length) else none

/-- Reads the attributes in front of the term: which extensions are in use, and the rest. -/
def attributes? : Nat → Reader (List String)
  | 0, _ => none
  | bound + 1, cs => do
    match ← skip cs with
    | '#' :: rest =>
      let rest ← tokens? ["!", "[", "enable", "("] rest
      let (names, rest) ← elements? ')' identifier? bound rest
      if names.isEmpty || !names.all (· ∈ extensions) then none
      let rest ← tokens? ["]"] rest
      let (more, rest) ← attributes? bound rest
      return (names ++ more, rest)
    | cs => return ([], cs)

/-- A text as it was read. -/
structure Parsed where
  /-- Whether records have to be named. -/
  named : Bool
  term : Term
deriving Repr

/-- Reads a whole text: attributes, one term, and nothing but blanks after it. -/
def parse? (s : String) : Option Parsed := do
  let cs := s.toList
  let bound := cs.length + 1
  let (used, cs) ← attributes? bound cs
  let (term, cs) ← term? bound maxDepth (← skip cs)
  match ← skip cs with
  | [] => return ⟨used.contains "explicit_struct_names", term⟩
  | _ => none

end FlowGraph.Ron
