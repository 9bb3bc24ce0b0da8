import FlowGraph.Document

/-!
# Saved graphs as untyped values

A saved graph need not come as a text.  As an untyped value it is an object with the fields by
name, or a list with the fields by position, in the order in which a text has them.  A field that
is absent has its default.  An object may have further fields, which do not count, but a list may
not be longer.  A document in it is always an object.
-/

namespace FlowGraph

/-- The document with the fields of an object. -/
def Document.ofJson? : Json → Option Document
  | .object fields => some ⟨fields⟩
  | _ => none

namespace GraphDocument

/-- The names of the fields in the order of their positions. -/
def fieldNames : List String :=
  ["version", "name", "next_id", "nodes", "pins", "links", "properties"]

/-- The fields by name; those of a list get the names of their positions. -/
def fields? : Json → Option (List (String × Json))
  | .object fields => some fields
  | .list items => if items.length ≤ fieldNames.length then some (fieldNames.zip items) else none
  | _ => none

/-- Reads a field, or gives the default where there is none. -/
def readField? {α : Type} (fields : List (String × Json)) (name : String) (default : α)
    (read : Json → Option α) : Option α :=
  match fields.lookup name with
  | some v => read v
  | none => some default

def readDocuments? : Json → Option (List Document)
  | .list items => items.mapM Document.ofJson?
  | _ => none

def ofJson? (v : Json) : Option GraphDocument := do
  let fields ← fields? v
  let version ← readField? fields "version" 0 fun v => (Json.readNat32 v).toOption
  let name ← readField? fields "name" "" fun v => (Json.readString v).toOption
  let nextId ← readField? fields "next_id" 0 fun v => (Json.readNat64 v).toOption
  let nodes ← readField? fields "nodes" [] readDocuments?
  let pins ← readField? fields "pins" [] readDocuments?
  let links ← readField? fields "links" [] readDocuments?
  let properties ← readField? fields "properties" [] readDocuments?
  return ⟨version, name, nextId, nodes, pins, links, properties⟩

end GraphDocument

end FlowGraph
