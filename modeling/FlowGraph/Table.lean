/-!
# Insertion-ordered tables

The four collections of a graph are tables from ids to entities that keep the order in which
entries were added.  `entries` is the view every statement is made on: `insert` replaces in place
or appends, `erase` keeps the order of what is left, `modify` changes one entry where it stands.
-/

namespace FlowGraph

structure Table (κ α : Type) where
  entries : List (κ × α) := []
deriving Repr, Inhabited

namespace Table

variable {κ α : Type} [DecidableEq κ]

def empty : Table κ α := ⟨[]⟩

def size (t : Table κ α) : Nat := t.entries.length

def keys (t : Table κ α) : List κ := t.entries.map (·.1)

def values (t : Table κ α) : List α := t.entries.map (·.2)

/-- The first entry under `key`. -/
def find (key : κ) : List (κ × α) → Option α
  | [] => none
  | (k, a) :: rest => if k = key then some a else find key rest

def get? (t : Table κ α) (key : κ) : Option α := find key t.entries

def contains (t : Table κ α) (key : κ) : Bool := (t.get? key).isSome

/-- Replaces the entry under `key` where it stands, or adds one at the end. -/
def place (key : κ) (a : α) : List (κ × α) → List (κ × α)
  | [] => [(key, a)]
  | (k, b) :: rest => if k = key then (key, a) :: rest else (k, b) :: place key a rest

def insert (t : Table κ α) (key : κ) (a : α) : Table κ α := ⟨place key a t.entries⟩

def erase (t : Table κ α) (key : κ) : Table κ α := ⟨t.entries.filter (·.1 ≠ key)⟩

/-- Changes the entry under `key`, if there is one. -/
def modify (t : Table κ α) (key : κ) (f : α → α) : Table κ α :=
  ⟨t.entries.map fun e => (e.1, if e.1 = key then f e.2 else e.2)⟩

/-- Changes every entry. -/
def map (t : Table κ α) (f : α → α) : Table κ α :=
  ⟨t.entries.map fun e => (e.1, f e.2)⟩

end Table

end FlowGraph
