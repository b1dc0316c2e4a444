import ClaimIndex.Text.Scan

namespace ClaimIndex.Toml

def isBlank (c : Char) : Bool := c = ' ' || c = '\t'

def isPrintable (c : Char) : Bool := c = '\t' || (0x20 ≤ c.toNat && c.toNat ≠ 0x7F)

def blanks : Scan Unit := Scan.skipWhile isBlank

def newline : Scan Bool := do
  if ← Scan.accept '\n' then return true else Scan.acceptText "\r\n"

def comment : Scan Unit := do
  Scan.expect '#'
  Scan.skipWhile isPrintable

def lineEnd : Scan Unit := do
  unless ← newline do guard (← Scan.peek).isNone

def trailing : Scan Unit := do
  blanks
  if (← Scan.peek) = some '#' then comment
  lineEnd

def space : Scan Unit := do
  discard <| Scan.many (α := Unit) do
    if !(← Scan.takeWhile isBlank).isEmpty then return some ()
    else if ← newline then return some ()
    else return none

def gap : Scan Unit := do
  space
  discard <| Scan.many (α := Unit) do
    if (← Scan.peek) = some '#' then
      comment
      space
      return some ()
    else return none

end ClaimIndex.Toml
