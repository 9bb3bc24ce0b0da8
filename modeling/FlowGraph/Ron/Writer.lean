import FlowGraph.Ron.Term

/-!
# Writing RON

Every element stands on a line of its own, four blanks deeper than its bracket, with a comma after
it.  Brackets without elements stay on one line.
-/

namespace FlowGraph.Ron

/-- A new line at a depth. -/
def newline (depth : Nat) : String :=
  "\n" ++ String.ofList (List.replicate (4 * depth) ' ')

/-- Puts elements between brackets. -/
def bracket (depth : Nat) (opening closing : String) (elements : List String) : String :=
  if elements.isEmpty then opening ++ closing
  else
    opening ++ String.join (elements.map fun e => newline (depth + 1) ++ e ++ ",") ++
      newline depth ++ closing

namespace Term

mutual

/-- The text of a term whose opening bracket stands at the depth. -/
def render (depth : Nat) : Term → String
  | .unit => "()"
  | .bool true => "true"
  | .bool false => "false"
  | .int n mark => toString n ++ mark.elim "" IntType.name
  | .float x => Number.documentText x
  | .char c => "'" ++ String.ofList (Text.escapeChar true c) ++ "'"
  | .string s => Text.escape true s
  | .bytes => "b\"\""
  | .absent => "None"
  | .present t => "Some(" ++ render depth t ++ ")"
  | .word s => s
  | .list items => bracket depth "[" "]" (renderItems (depth + 1) items)
  | .map entries => bracket depth "\x7b" "\x7d" (renderEntries (depth + 1) entries)
  | .struct name fields => bracket depth (name.getD "" ++ "(") ")" (renderFields (depth + 1) fields)
  | .tuple name items => bracket depth (name.getD "" ++ "(") ")" (renderItems (depth + 1) items)

def renderItems (depth : Nat) : List Term → List String
  | [] => []
  | t :: rest => render depth t :: renderItems depth rest

def renderEntries (depth : Nat) : List (Term × Term) → List String
  | [] => []
  | (key, t) :: rest => (render depth key ++ ": " ++ render depth t) :: renderEntries depth rest

def renderFields (depth : Nat) : List (String × Term) → List String
  | [] => []
  | (key, t) :: rest => (key ++ ": " ++ render depth t) :: renderFields depth rest

end

/-- The text of a whole term. -/
def toText (t : Term) : String := t.render 0

end Term

end FlowGraph.Ron
