import ClaimIndex.Datum.Basic

namespace ClaimIndex.Toml

inductive Origin
  | header
  | implied
  | dotted
  deriving DecidableEq

inductive Tree
  | value (d : Datum)
  | table (origin : Origin) (members : List (String × Tree))
  | tables (items : List Tree)

namespace Tree

def empty (o : Origin) : Tree := table o []

def setMember (name : String) (t : Tree) : List (String × Tree) → List (String × Tree)
  | [] => [(name, t)]
  | (n, u) :: ms => if n = name then (n, t) :: ms else (n, u) :: setMember name t ms

def alter (name : String) (f : Option Tree → Option Tree) : Tree → Option Tree
  | table o ms => (f (ms.lookup name)).map fun t => table o (setMember name t ms)
  | value _ | tables _ => none

/-- Change the table that a step of a path leads to; among tables under one name that is the last.
A dotted key does not lead into a table with a header, nor any path into a value. -/
def enter (made : Origin) (f : Tree → Option Tree) : Tree → Option Tree
  | value _ => none
  | table o ms => if made = .dotted ∧ o = .header then none else f (table o ms)
  | tables items =>
    items.getLast?.bind fun last => (f last).map fun t => tables (items.dropLast ++ [t])

def within (made : Origin) (f : Tree → Option Tree) : (path : List String) → Tree → Option Tree
  | [], t => f t
  | name :: path, t =>
    t.alter name fun child => (child.getD (empty made)).enter made (within made f path)

def insert (dotted : Bool) (name : String) (d : Datum) (t : Tree) : Option Tree :=
  match t with
  | table o _ =>
    if dotted = decide (o = .dotted) then
      t.alter name fun child => if child.isNone then some (value d) else none
    else none
  | value _ | tables _ => none

def assign (path : List String) (name : String) (d : Datum) : Tree → Option Tree :=
  within .dotted (insert (!path.isEmpty) name d) path

def openTable : Option Tree → Option Tree
  | none => some (empty .header)
  | some (table .implied ms) => some (table .header ms)
  | some _ => none

def addTable : Option Tree → Option Tree
  | none => some (tables [empty .header])
  | some (tables items) => some (tables (items ++ [empty .header]))
  | some _ => none

mutual

def datum : Tree → Datum
  | value d => d
  | table _ ms => .table (data ms)
  | tables items => .list (listed items)

def data : List (String × Tree) → List (String × Datum)
  | [] => []
  | (name, t) :: ms => (name, t.datum) :: data ms

def listed : List Tree → List Datum
  | [] => []
  | t :: ts => t.datum :: listed ts

end

end Tree

end ClaimIndex.Toml
