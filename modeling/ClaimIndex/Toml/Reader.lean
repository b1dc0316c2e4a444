import ClaimIndex.Toml.Scalar
import ClaimIndex.Toml.Tree

namespace ClaimIndex.Toml

/-- Parts that a key may have, and levels to which values may nest, stay below this. -/
def limit : Nat := 80

def isBare (c : Char) : Bool := c.isAlphanum || c = '-' || c = '_'

def simpleKey : Scan String := do
  match ← Scan.peek with
  | some '"' => discard Scan.next; Quoted.line .double
  | some '\'' => discard Scan.next; Quoted.line .single
  | _ => String.ofList <$> Scan.takeSome isBare

def key : Scan (List String × String) := do
  let parts ← Scan.separated '.' do
    blanks
    let part ← simpleKey
    blanks
    return part
  guard (parts.length < limit)
  return (parts.dropLast, parts.getLastD "")

def items (value : Scan Datum) : Scan (List Datum) := do
  Scan.expect '['
  let ds ← Scan.many do
    gap
    if ← Scan.accept ']' then return none
    else
      let d ← value
      gap
      unless ← Scan.accept ',' do guard ((← Scan.peek) = some ']')
      return some d
  return ds

def keyValue (value : Scan Datum) : Scan ((List String × String) × Datum) := do
  let k ← key
  Scan.expect '='
  blanks
  let d ← value
  blanks
  return (k, d)

def inlineTable (value : Scan Datum) : Scan Datum := do
  Scan.expect '\x7b'
  blanks
  if ← Scan.accept '\x7d' then return .table []
  else
    let members ← Scan.separated ',' (keyValue value)
    Scan.expect '\x7d'
    let tree : Option Tree :=
      members.foldlM (fun t ((path, name), d) => t.assign path name d) (.empty .header)
    Tree.datum <$> tree

def value : (depth : Nat) → Scan Datum
  | 0 => scalar
  | depth + 1 => do
    match ← Scan.peek with
    | some '[' => .list <$> items (value depth)
    | some '\x7b' => inlineTable (value depth)
    | _ => scalar

inductive Statement
  | assignment (path : List String) (name : String) (d : Datum)
  | table (path : List String) (name : String)
  | tables (path : List String) (name : String)

def header : Scan Statement := do
  if ← Scan.acceptText "[[" then
    let (path, name) ← key
    Scan.expectText "]]"
    return .tables path name
  else
    Scan.expect '['
    let (path, name) ← key
    Scan.expect ']'
    return .table path name

def statement : Scan (Option Statement) := do
  match ← Scan.peek with
  | some '#' | some '\n' | some '\r' =>
    trailing
    return none
  | some '[' =>
    let s ← header
    trailing
    return some s
  | _ =>
    let ((path, name), d) ← keyValue (value (limit - 1))
    trailing
    return some (.assignment path name d)

def statements : Scan (List Statement) := do
  discard <| Scan.accept '\uFEFF'
  let lines ← Scan.many do
    blanks
    if (← Scan.peek).isNone then return none
    else some <$> statement
  return lines.reduceOption

structure Draft where
  root : Tree := .empty .header
  current : List String := []

namespace Draft

def execute (d : Draft) : Statement → Option Draft
  | .assignment path name value => do
    let root ← d.root.within .implied (·.assign path name value) d.current
    return { d with root }
  | .table path name => do
    let root ← d.root.within .implied (·.alter name Tree.openTable) path
    return { root, current := path ++ [name] }
  | .tables path name => do
    let root ← d.root.within .implied (·.alter name Tree.addTable) path
    return { root, current := path ++ [name] }

end Draft

def read? (s : String) : Option Datum := do
  let draft ← (← Scan.all? statements s).foldlM Draft.execute {}
  return draft.root.datum

end ClaimIndex.Toml
