namespace ClaimIndex

abbrev Scan := StateT (List Char) Option

namespace Scan

variable {α : Type}

def peek : Scan (Option Char) := return (← get).head?

def next : Scan Char := do
  let c :: rest ← get | failure
  set rest
  return c

def accept (c : Char) : Scan Bool := do
  if (← peek) = some c then
    discard next
    return true
  else return false

def expect (c : Char) : Scan Unit := do guard (← accept c)

def acceptText (text : String) : Scan Bool := do
  if text.toList.isPrefixOf (← get) then
    modify (·.drop text.length)
    return true
  else return false

def expectText (text : String) : Scan Unit := do guard (← acceptText text)

def takeWhile (p : Char → Bool) : Scan (List Char) := modifyGet (·.span p)

def takeSome (p : Char → Bool) : Scan (List Char) := do
  let cs ← takeWhile p
  guard !cs.isEmpty
  return cs

def skipWhile (p : Char → Bool) : Scan Unit := discard (takeWhile p)

def takeExactly (n : Nat) (p : Char → Bool) : Scan (List Char) := do
  let cs := (← get).take n
  guard (cs.length = n && cs.all p)
  modify (·.drop n)
  return cs

def optional (scan : Scan α) : Scan (Option α) := fun s =>
  match scan s with
  | some (a, rest) => some (some a, rest)
  | none => some (none, s)

def repeated (item : Scan (Option α)) : (rounds : Nat) → Scan (List α)
  | 0 => failure
  | rounds + 1 => do
    match ← item with
    | none => return []
    | some a => return a :: (← repeated item rounds)

/-- Items up to the first round without one.  Each item takes a character at least, so there are
no more of them than characters. -/
def many (item : Scan (Option α)) : Scan (List α) := do repeated item ((← get).length + 1)

def separated (mark : Char) (item : Scan α) : Scan (List α) := do
  let first ← item
  let rest ← many do
    if ← accept mark then some <$> item else return none
  return first :: rest

def all? (scan : Scan α) (text : String) : Option α :=
  match scan text.toList with
  | some (a, []) => some a
  | _ => none

end Scan

end ClaimIndex
