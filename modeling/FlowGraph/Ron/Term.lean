import FlowGraph.Json

/-!
# RON terms

RON is the notation in which graphs and settings are saved.  A term is the syntax of a text without
its layout: which brackets were used, whether a name stood before them, and which type an integer
was marked with.  What a term means depends on where it stands; `Term.toJson?` is its meaning where
nothing definite is expected.
-/

namespace FlowGraph.Ron

/-- The type an integer is marked with. -/
structure IntType where
  signed : Bool
  bits : Nat
deriving DecidableEq, Repr, Inhabited

namespace IntType

def nat (bits : Nat) : IntType := ⟨false, bits⟩

def int (bits : Nat) : IntType := ⟨true, bits⟩

def least (t : IntType) : Int := if t.signed then -(Nat.pow 2 (t.bits - 1) : Int) else 0

def greatest (t : IntType) : Int :=
  (Nat.pow 2 (if t.signed then t.bits - 1 else t.bits) : Int) - 1

def holds (t : IntType) (n : Int) : Bool := t.least ≤ n && n ≤ t.greatest

/-- The name of the type, as a mark. -/
def name (t : IntType) : String := (if t.signed then "i" else "u") ++ toString t.bits

def all : List IntType := [int 8, int 16, int 32, int 64, nat 8, nat 16, nat 32, nat 64]

end IntType

inductive Term where
  | unit
  | bool (b : Bool)
  | int (n : Int) (mark : Option IntType)
  | float (x : Float)
  | char (c : Char)
  | string (s : String)
  | bytes
  | absent
  | present (t : Term)
  /-- A name alone. -/
  | word (s : String)
  | list (items : List Term)
  | map (entries : List (Term × Term))
  | struct (name : Option String) (fields : List (String × Term))
  | tuple (name : Option String) (items : List Term)
deriving Repr, Inhabited

namespace Term

def string? : Term → Option String
  | .string s => some s
  | _ => none

/-! ## Meaning where any value may stand -/

mutual

/-- The untyped value of a term.  Names carry no information of their own: a name alone is `null`,
    and a named bracket is read like one without a name. -/
def toJson? : Term → Option Json
  | .unit | .absent | .word _ => some .null
  | .present t => toJson? t
  | .bool b => some (.bool b)
  | .int n _ => some (.int n)
  | .float x => some (.double x)
  | .char c => some (.string c.toString)
  | .string s => some (.string s)
  | .bytes => none
  | .list items | .tuple _ items => (toJsons? items).map .list
  | .map entries => (toEntries? entries).map .ofFields
  | .struct _ fields => (toFields? fields).map .ofFields

def toJsons? : List Term → Option (List Json)
  | [] => some []
  | t :: rest => do
    let v ← toJson? t
    let vs ← toJsons? rest
    return v :: vs

/-- The entries of a map, whose keys have to be texts. -/
def toEntries? : List (Term × Term) → Option (List (String × Json))
  | [] => some []
  | (key, t) :: rest => do
    let key ← key.string?
    let v ← toJson? t
    let vs ← toEntries? rest
    return (key, v) :: vs

def toFields? : List (String × Term) → Option (List (String × Json))
  | [] => some []
  | (key, t) :: rest => do
    let v ← toJson? t
    let vs ← toFields? rest
    return (key, v) :: vs

end

/-! ## Terms of untyped values -/

mutual

/-- The term under which an untyped value is saved. -/
def ofJson : Json → Term
  | .null => .unit
  | .bool b => .bool b
  | .int n => .int n none
  | .float x => .float x
  | .string s => .string s
  | .list items => .list (ofJsons items)
  | .object fields => .map (ofFields fields)

def ofJsons : List Json → List Term
  | [] => []
  | v :: rest => ofJson v :: ofJsons rest

def ofFields : List (String × Json) → List (Term × Term)
  | [] => []
  | (key, v) :: rest => (.string key, ofJson v) :: ofFields rest

end

/-! ## Records -/

/-- The fields of a record with the given name.  The name may be left out unless names are
    required; a record without fields may be written as empty brackets. -/
def recordFields? (named : Bool) (record : String) : Term → Option (List (String × Term))
  | .unit => if named then none else some []
  | .struct name fields => if accepts name then some fields else none
  | .tuple name [] => if accepts name then some [] else none
  | _ => none
where
  accepts : Option String → Bool
    | none => !named
    | some name => name = record

/-- Reads a field of a record, which may not be given twice.  Without it the default stands. -/
def field? {α : Type} (fields : List (String × Term)) (key : String) (default : α)
    (read : Term → Option α) : Option α :=
  match fields.filter (·.1 = key) with
  | [] => some default
  | [(_, t)] => read t
  | _ => none

/-- Reads an integer of a type, which may be marked with that type. -/
def readInt (type : IntType) : Term → Option Int
  | .int n mark => if type.holds n && mark.all (· = type) then some n else none
  | _ => none

def readNat (bits : Nat) (t : Term) : Option Nat := (readInt (.nat bits) t).map Int.toNat

def readList {α : Type} (read : Term → Option α) : Term → Option (List α)
  | .list items => items.mapM read
  | _ => none

end Term

end FlowGraph.Ron
