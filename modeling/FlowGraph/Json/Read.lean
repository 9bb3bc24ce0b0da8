import FlowGraph.Json.Mismatch

/-!
# Reading untyped values as definite types

One reader per type.  Each accepts exactly one shape and otherwise says why not; an integer is
never read from a float, while a single is read from either and rounded once.
-/

namespace FlowGraph.Json

/-- A result of reading. -/
abbrev Reading (α : Type) := Except Mismatch α

/-- An integer between the bounds, both included. -/
def readBetween (low high : Int) (wanted : Wanted) : Json → Reading Int
  | .int n => if low ≤ n && n ≤ high then .ok n else .error (.range n wanted)
  | v => .error (.shape v wanted)

def readInt32 (v : Json) : Reading Int32 :=
  (readBetween (-0x80000000) 0x7fffffff .int32 v).map Int32.ofInt

def readNat32 (v : Json) : Reading Nat :=
  (readBetween 0 0xffffffff .nat32 v).map Int.toNat

def readNat64 (v : Json) : Reading Nat :=
  (readBetween 0 0xffffffffffffffff .nat64 v).map Int.toNat

/-- A number of components. -/
def readCount (v : Json) : Reading Nat :=
  (readBetween 0 0xffffffffffffffff .count v).map Int.toNat

def readSingle : Json → Reading Float32
  | .int n => .ok (Float32.ofInt n)
  | .float x => .ok (Number.narrow x)
  | v => .error (.shape v .single)

def readBool : Json → Reading Bool
  | .bool b => .ok b
  | v => .error (.shape v .boolean)

def readString : Json → Reading String
  | .string s => .ok s
  | v => .error (.shape v .string)

/-- The ids of a list, in order. -/
def readNats : Json → Reading (List Nat)
  | .list items => items.mapM readNat64
  | v => .error (.shape v .sequence)

/-- A list of exactly `n` singles.  The items are read in order, so that a bad item counts before
    a wrong length. -/
def readSingles (n : Nat) : Json → Reading (List Float32)
  | .list items => do
    let xs ← (items.take n).mapM readSingle
    if items.length < n then .error (.tooShort items.length (.singles n))
    else if n < items.length then .error (.tooLong items.length)
    else .ok xs
  | v => .error (.shape v (.singles n))

/-- The only value of the flow type. -/
def readFlow : Json → Reading Unit
  | .null => .ok ()
  | v => .error (.shape v .flow)

/-- A record with one field: an object whose other fields do not count, or a list with the field
    alone.  Where the field is absent the default stands. -/
def readRecord {α : Type} (record field : String) (default : α) (read : Json → Reading α) :
    Json → Reading α
  | .object fields =>
    match fields.lookup field with
    | some v => read v
    | none => .ok default
  | .list [] => .ok default
  | .list (v :: rest) => do
    let a ← read v
    if rest.isEmpty then .ok a else .error (.tooLong (rest.length + 1))
  | v => .error (.shape v (.record record))

/-- `null`, or what `read` accepts. -/
def readOption {α : Type} (read : Json → Reading α) : Json → Reading (Option α)
  | .null => .ok none
  | v => (read v).map some

end FlowGraph.Json
