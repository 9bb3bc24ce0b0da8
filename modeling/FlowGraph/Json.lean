import FlowGraph.Number.Decimal
import FlowGraph.Text.Quoted

/-!
# Untyped values

The shape every saved field has before it is read as something definite.  A number is an integer or
a float and stays what it is: `1` and `1.0` are different values.  The fields of an object are kept
in the order of their names.
-/

namespace FlowGraph

inductive Json where
  | null
  | bool (b : Bool)
  | int (n : Int)
  | float (x : Float)
  | string (s : String)
  | list (items : List Json)
  | object (fields : List (String × Json))
deriving Repr, Inhabited

namespace Json

/-- Adds a field at its place in the order of names; a field of that name is replaced. -/
def insertField (name : String) (value : Json) : List (String × Json) → List (String × Json)
  | [] => [(name, value)]
  | (other, v) :: rest =>
    if name = other then (name, value) :: rest
    else if name < other then (name, value) :: (other, v) :: rest
    else (other, v) :: insertField name value rest

/-- The object with the given fields; of two fields with one name the later one counts. -/
def ofFields (fields : List (String × Json)) : Json :=
  .object (fields.foldl (fun acc (name, value) => insertField name value acc) [])

/-- A natural number, such as an id or a count. -/
def nat (n : Nat) : Json := .int n

/-- A single as the double of the same value.  Numbers without a decimal text become `null`. -/
def single (x : Float32) : Json :=
  if Number.isFinite (Number.widen x) then .float (Number.widen x) else .null

/-- A double, or `null` if it is infinite or not a number. -/
def double (x : Float) : Json :=
  if Number.isFinite x then .float x else .null

def isNull : Json → Bool
  | .null => true
  | _ => false

/-! ## Text -/

mutual

/-- The value on one line, without blanks. -/
def render : Json → String
  | .null => "null"
  | .bool true => "true"
  | .bool false => "false"
  | .int n => toString n
  | .float x => Number.text x
  | .string s => Text.plain s
  | .list [] => "[]"
  | .list (item :: items) => "[" ++ render item ++ renderItems items ++ "]"
  | .object [] => "\x7b\x7d"
  | .object ((name, value) :: fields) =>
    "\x7b" ++ Text.plain name ++ ":" ++ render value ++ renderFields fields ++ "\x7d"

/-- The items after the first, each behind a comma. -/
def renderItems : List Json → String
  | [] => ""
  | item :: items => "," ++ render item ++ renderItems items

/-- The fields after the first, each behind a comma. -/
def renderFields : List (String × Json) → String
  | [] => ""
  | (name, value) :: fields =>
    "," ++ Text.plain name ++ ":" ++ render value ++ renderFields fields

end

end Json

end FlowGraph
