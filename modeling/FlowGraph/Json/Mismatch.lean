import FlowGraph.Json

/-!
# Why an untyped value is not of the wanted shape

A reader that meets the wrong shape says what it found and what it wanted.  Both are recorded as
causes here; the wording is in `Mismatch.message`.
-/

namespace FlowGraph

/-- What a reader wanted. -/
inductive Wanted where
  | single
  | int32
  | nat32
  | nat64
  | count
  | boolean
  | string
  | singles (n : Nat)
  | flow
  | sequence
  | variant
  | noPayload
  | record (name : String)
deriving DecidableEq, Repr

def Wanted.text : Wanted → String
  | .single => "f32"
  | .int32 => "i32"
  | .nat32 => "u32"
  | .nat64 => "u64"
  | .count => "usize"
  | .boolean => "a boolean"
  | .string => "a string"
  | .singles n => s!"an array of length {n}"
  | .flow => "unit struct Flow"
  | .sequence => "a sequence"
  | .variant => "string or map"
  | .noPayload => "unit"
  | .record name => s!"struct {name}"

inductive Mismatch where
  /-- A value of another shape. -/
  | shape (found : Json) (wanted : Wanted)
  /-- An integer outside the range of its type. -/
  | range (found : Int) (wanted : Wanted)
  /-- A list that ends too early. -/
  | tooShort (length : Nat) (wanted : Wanted)
  /-- A list with items left over. -/
  | tooLong (length : Nat)
  /-- The name of neither direction. -/
  | unknownDirection (name : String)
  /-- An object with no field or several where exactly one names the variant. -/
  | notOneField
deriving Repr

/-- What was found, as messages put it: scalars with their value, the others by shape alone. -/
def Json.found : Json → String
  | .null => "null"
  | .bool true => "boolean `true`"
  | .bool false => "boolean `false`"
  | .int n => s!"integer `{n}`"
  | .float x => s!"floating point `{Number.text x}`"
  | .string s => "string " ++ Text.escape false s
  | .list _ => "sequence"
  | .object _ => "map"

def Mismatch.message : Mismatch → String
  | .shape found wanted => s!"invalid type: {found.found}, expected {wanted.text}"
  | .range found wanted => s!"invalid value: integer `{found}`, expected {wanted.text}"
  | .tooShort length wanted => s!"invalid length {length}, expected {wanted.text}"
  | .tooLong length => s!"invalid length {length}, expected fewer elements in array"
  | .unknownDirection name => s!"unknown variant `{name}`, expected `Input` or `Output`"
  | .notOneField => "invalid value: map, expected map with a single key"

end FlowGraph
