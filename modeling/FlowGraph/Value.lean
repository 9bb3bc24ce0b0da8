import FlowGraph.Json.Read

/-!
# Values of pins and properties

A value belongs to one of nine types, and it keeps its type for as long as its pin or property
lives: `Value.copy` and `Value.load` either give a value of the same type or fail.  The type of a
value is written in documents as a tag and a number of components.
-/

namespace FlowGraph

inductive ValueType where
  | flow
  | float
  | float2
  | float3
  | float4
  | int
  | bool
  | string
  | texture
deriving DecidableEq, Repr, Inhabited

namespace ValueType

/-- Every type, in the order in which they are listed. -/
def all : List ValueType :=
  [.flow, .float, .float2, .float3, .float4, .int, .bool, .string, .texture]

def tag : ValueType → String
  | .flow => "flow"
  | .float | .float2 | .float3 | .float4 => "float"
  | .int => "int"
  | .bool => "bool"
  | .string => "string"
  | .texture => "texture"

/-- The number of components; a flow has none. -/
def size : ValueType → Nat
  | .flow => 0
  | .float2 => 2
  | .float3 => 3
  | .float4 => 4
  | _ => 1

/-- Whether a saved tag and size name this type. -/
def matchesTag (t : ValueType) (tag : String) (size : Nat) : Bool :=
  t.tag = tag && t.size = size

/-- The type with the given tag and size. -/
def ofTag? (tag : String) (size : Nat) : Option ValueType :=
  all.find? (·.matchesTag tag size)

/-- The tag, followed by the size if there are several components. -/
def text (t : ValueType) : String :=
  if t.size ≤ 1 then t.tag else t.tag ++ toString t.size

def isFlow (t : ValueType) : Bool := t = .flow

theorem mem_all (t : ValueType) : t ∈ all := by
  cases t <;> decide

/-- A type is found again under its own tag and size. -/
theorem ofTag?_tag_size (t : ValueType) : ofTag? t.tag t.size = some t := by
  cases t <;> decide

end ValueType

inductive Value where
  | flow
  | float (x : Float32)
  | float2 (x y : Float32)
  | float3 (x y z : Float32)
  | float4 (x y z w : Float32)
  | int (n : Int32)
  | bool (b : Bool)
  | string (s : String)
  | texture (handle : UInt64)
deriving DecidableEq, Repr, Inhabited

/-- Why a value cannot take on another one. -/
inductive ValueError where
  | typeMismatch (expected found : ValueType)
  | codec (type : ValueType) (cause : Mismatch)
deriving Repr

def ValueError.message : ValueError → String
  | .typeMismatch expected found => s!"Type mismatch: expected {expected.text}, found {found.text}"
  | .codec type cause => s!"Invalid {type.text} value: {cause.message}"

namespace Value

def type : Value → ValueType
  | .flow => .flow
  | .float _ => .float
  | .float2 .. => .float2
  | .float3 .. => .float3
  | .float4 .. => .float4
  | .int _ => .int
  | .bool _ => .bool
  | .string _ => .string
  | .texture _ => .texture

/-- The value a pin or property of the type starts with. -/
def ofType : ValueType → Value
  | .flow => .flow
  | .float => .float 0
  | .float2 => .float2 0 0
  | .float3 => .float3 0 0 0
  | .float4 => .float4 0 0 0 0
  | .int => .int 0
  | .bool => .bool false
  | .string => .string ""
  | .texture => .texture 0

def isFlow (v : Value) : Bool := v.type.isFlow

/-- The number of a single-component float. -/
def float? : Value → Option Float32
  | .float x => some x
  | _ => none

/-- What the target holds after the source was copied into it: types never change. -/
def copy (target source : Value) : Except ValueError Value :=
  if source.type = target.type then .ok source
  else .error (.typeMismatch target.type source.type)

/-- The untyped form under which the value is saved. -/
def toJson : Value → Json
  | .flow => .null
  | .float x => .single x
  | .float2 x y => .list [.single x, .single y]
  | .float3 x y z => .list [.single x, .single y, .single z]
  | .float4 x y z w => .list [.single x, .single y, .single z, .single w]
  | .int n => .int n.toInt
  | .bool b => .bool b
  | .string s => .string s
  | .texture handle => .nat handle.toNat

/-- Reads a value of the type from its untyped form. -/
def read (type : ValueType) (json : Json) : Json.Reading Value :=
  match type with
  | .flow => json.readFlow.map fun _ => .flow
  | .float => json.readSingle.map .float
  | .float2 => json.readSingles 2 >>= fun
    | [x, y] => .ok (.float2 x y)
    | xs => .error (.tooShort xs.length (.singles 2))
  | .float3 => json.readSingles 3 >>= fun
    | [x, y, z] => .ok (.float3 x y z)
    | xs => .error (.tooShort xs.length (.singles 3))
  | .float4 => json.readSingles 4 >>= fun
    | [x, y, z, w] => .ok (.float4 x y z w)
    | xs => .error (.tooShort xs.length (.singles 4))
  | .int => json.readInt32.map .int
  | .bool => json.readBool.map .bool
  | .string => json.readString.map .string
  | .texture => json.readNat64.map fun n => .texture (UInt64.ofNat n)

/-- What the value becomes when it is loaded from an untyped one. -/
def load (v : Value) (json : Json) : Except ValueError Value :=
  (read v.type json).mapError (.codec v.type)

@[simp] theorem type_ofType (t : ValueType) : (ofType t).type = t := by
  cases t <;> rfl

/-- A copy succeeds exactly between equal types, and then gives the source. -/
theorem copy_eq_ok_iff {target source v : Value} :
    target.copy source = .ok v ↔ source.type = target.type ∧ v = source := by
  unfold copy
  split <;> simp_all [eq_comm]

end Value

end FlowGraph
