import FlowGraph.Id
import FlowGraph.Json.Read
import FlowGraph.Value

/-!
# Documents

A document is the saved record of one entity: named fields in the order in which they were first
set.  A `GraphDocument` holds the records of a whole graph.  This file knows fields only; what the
fields of an entity are is in `FlowGraph.Document.Entity`.
-/

namespace FlowGraph

/-- The newest version of the document format. -/
def documentVersion : Nat := 1

/-- The highest id a document may use.  The ids above are left for entities made after loading. -/
def maxDocumentId : Nat := 0x7fffffffffffffff

/-- Why a file could not be read or written. -/
inductive FileError where
  | notFound
  | permissionDenied
  | notADirectory
  | isADirectory
  | nameTooLong
  /-- The file is there, but does not hold text. -/
  | notText
  | other (message : String)
deriving DecidableEq, Repr

def FileError.message : FileError → String
  | .notFound => "No such file or directory (os error 2)"
  | .permissionDenied => "Permission denied (os error 13)"
  | .notADirectory => "Not a directory (os error 20)"
  | .isADirectory => "Is a directory (os error 21)"
  | .nameTooLong => "File name too long (os error 36)"
  | .notText => "stream did not contain valid UTF-8"
  | .other message => message

inductive DocumentError where
  | file (cause : FileError)
  | parse
  | missingField (key : String)
  | field (key : String) (cause : Mismatch)
  | unknownNodeType (type : String)
  | unknownValueType (tag : String) (size : Nat)
  | duplicateId (id : Nat)
  | idOutOfRange (id : Nat)
  | state (node : NodeId) (cause : Mismatch)
  | unsupportedVersion (found : Nat)
  | value (cause : ValueError)
deriving Repr

def DocumentError.message : DocumentError → String
  | .file cause => s!"I/O error: {cause.message}"
  | .parse => "Parse error"
  | .missingField key => s!"Missing field '{key}'"
  | .field key cause => s!"Invalid field '{key}': {cause.message}"
  | .unknownNodeType type => s!"Unknown node type: {type}"
  | .unknownValueType tag size => s!"Unknown value kind: {tag}{size}"
  | .duplicateId id => s!"Duplicate id: {id}"
  | .idOutOfRange id => s!"Id {id} is out of range (max {maxDocumentId})"
  | .state node cause => s!"Invalid state for {node.text}: {cause.message}"
  | .unsupportedVersion found =>
    s!"Document version {found} is newer than supported version {documentVersion}"
  | .value cause => cause.message

structure Document where
  fields : List (String × Json) := []
deriving Repr, Inhabited

namespace Document

/-- Replaces the field where it stands, or adds it at the end. -/
def put (key : String) (value : Json) : List (String × Json) → List (String × Json)
  | [] => [(key, value)]
  | (k, v) :: rest => if k = key then (key, value) :: rest else (k, v) :: put key value rest

def set (d : Document) (key : String) (value : Json) : Document := ⟨put key value d.fields⟩

def get? (d : Document) (key : String) : Option Json := d.fields.lookup key

def contains (d : Document) (key : String) : Bool := (d.get? key).isSome

def erase (d : Document) (key : String) : Document := ⟨d.fields.filter (·.1 ≠ key)⟩

/-- The document with the given fields; of two fields with one key the later value counts, at the
    place of the earlier. -/
def ofFields (fields : List (String × Json)) : Document :=
  fields.foldl (fun d (key, value) => d.set key value) {}

/-- Reads a field that has to be there. -/
def require {α : Type} (d : Document) (key : String) (read : Json → Json.Reading α) :
    Except DocumentError α :=
  match d.get? key with
  | none => .error (.missingField key)
  | some v => (read v).mapError (.field key)

/-- Reads a field that may be absent; `null` counts as absent. -/
def optional {α : Type} (d : Document) (key : String) (read : Json → Json.Reading α) :
    Except DocumentError (Option α) :=
  match d.get? key with
  | none | some .null => .ok none
  | some v => ((read v).mapError (.field key)).map some

end Document

/-- The saved form of a graph. -/
structure GraphDocument where
  version : Nat := 0
  name : String := ""
  nextId : Nat := 0
  nodes : List Document := []
  pins : List Document := []
  links : List Document := []
  properties : List Document := []
deriving Repr, Inhabited

/-- Refuses a document of a newer format. -/
def GraphDocument.checkVersion (d : GraphDocument) : Except DocumentError Unit :=
  if d.version > documentVersion then .error (.unsupportedVersion d.version) else .ok ()

end FlowGraph
