import ClaimIndex.Json.Number
import ClaimIndex.Json.Quoted

namespace ClaimIndex.Json

def isBlank (c : Char) : Bool := c = ' ' || c = '\t' || c = '\n' || c = '\r'

def blanks : Scan Unit := Scan.skipWhile isBlank

def enclosed {α : Type} (close : Char) (item : Scan α) : Scan (List α) := do
  blanks
  if ← Scan.accept close then return []
  else
    let items ← Scan.separated ',' item
    Scan.expect close
    return items

def text (s : Option String) : Datum := s.elim .void .text

/-- A member of a table.  A name that stands for nothing spoils the whole table. -/
def member (value : Scan Datum) : Scan (Option String × Datum) := do
  blanks
  Scan.expect '"'
  let name ← Quoted.scan
  blanks
  Scan.expect ':'
  return (name, ← value)

def table (members : List (Option String × Datum)) : Datum :=
  let named : Option (List (String × Datum)) := members.mapM fun (name, d) => (·, d) <$> name
  named.elim .void .table

def value : (depth : Nat) → Scan Datum
  | 0 => failure
  | depth + 1 => do
    blanks
    let d ← match ← Scan.peek with
      | some '"' => discard Scan.next; text <$> Quoted.scan
      | some '[' => discard Scan.next; .list <$> enclosed ']' (value depth)
      | some '\x7b' => discard Scan.next; table <$> enclosed '\x7d' (member (value depth))
      | some 'n' => Scan.expectText "null"; pure .null
      | some 't' => Scan.expectText "true"; pure (.flag true)
      | some 'f' => Scan.expectText "false"; pure (.flag false)
      | _ => Numeral.datum <$> Numeral.scan
    blanks
    return d

def read? (s : String) : Option Datum := Scan.all? (value (s.length + 1)) s

end ClaimIndex.Json
