import FlowGraph.Document
import FlowGraph.Ron.Reader
import FlowGraph.Ron.Writer

/-!
# The text of a saved graph

A saved graph is a record whose fields all have defaults.  A document in it is a map from texts to
values of any kind; its fields keep the order of the text.
-/

namespace FlowGraph

open Ron (Term)

/-- The document that a map stands for. -/
def Document.ofTerm? : Term → Option Document
  | .map entries => (Term.toEntries? entries).map Document.ofFields
  | _ => none

def Document.toTerm (d : Document) : Term := .map (Term.ofFields d.fields)

namespace GraphDocument

/-- The name of the record. -/
def recordName : String := "GraphDocument"

def ofTerm? (named : Bool) (t : Term) : Option GraphDocument := do
  let fields ← t.recordFields? named recordName
  let version ← Term.field? fields "version" 0 (Term.readNat 32)
  let name ← Term.field? fields "name" "" Term.string?
  let nextId ← Term.field? fields "next_id" 0 (Term.readNat 64)
  let nodes ← Term.field? fields "nodes" [] (Term.readList Document.ofTerm?)
  let pins ← Term.field? fields "pins" [] (Term.readList Document.ofTerm?)
  let links ← Term.field? fields "links" [] (Term.readList Document.ofTerm?)
  let properties ← Term.field? fields "properties" [] (Term.readList Document.ofTerm?)
  return ⟨version, name, nextId, nodes, pins, links, properties⟩

def toTerm (d : GraphDocument) : Term :=
  .struct (some recordName) [
    ("version", .int d.version none),
    ("name", .string d.name),
    ("next_id", .int d.nextId none),
    ("nodes", .list (d.nodes.map Document.toTerm)),
    ("pins", .list (d.pins.map Document.toTerm)),
    ("links", .list (d.links.map Document.toTerm)),
    ("properties", .list (d.properties.map Document.toTerm))]

/-- Writes the text of a document. -/
def toText (d : GraphDocument) : String := d.toTerm.toText

/-- Reads a document from its text; newer versions are refused. -/
def ofText (s : String) : Except DocumentError GraphDocument := do
  match (Ron.parse? s).bind fun parsed => ofTerm? parsed.named parsed.term with
  | none => .error .parse
  | some d =>
    d.checkVersion
    return d

end GraphDocument

end FlowGraph
