import ClaimIndex.Text.Hex
import ClaimIndex.Toml.Lexical

namespace ClaimIndex.Toml.Quoted

def codePoint (width : Nat) : Scan Char := do
  let n := Hex.value 16 (← Scan.takeExactly width Hex.isDigit)
  guard ((n < 0xD800 || 0xDFFF < n) && n < 0x110000)
  return .ofNat n

def escaped : Scan Char := do
  match ← Scan.next with
  | 'b' => return '\x08'
  | 't' => return '\t'
  | 'n' => return '\n'
  | 'f' => return '\x0c'
  | 'r' => return '\r'
  | '"' => return '"'
  | '\\' => return '\\'
  | 'u' => codePoint 4
  | 'U' => codePoint 8
  | _ => failure

inductive Quote
  | double
  | single
  deriving DecidableEq

def Quote.char : Quote → Char
  | double => '"'
  | single => '\''

def Quote.escapes (q : Quote) : Bool := q = .double

def linePart (q : Quote) : Scan (Option Char) := do
  let c ← Scan.next
  if c = q.char then return none
  else if q.escapes && c = '\\' then some <$> escaped
  else
    guard (isPrintable c)
    return some c

def line (q : Quote) : Scan String := String.ofList <$> Scan.many (linePart q)

def joint : Scan Unit := do
  blanks
  guard (← newline)
  space

/-- The next part of text on several lines.  One or two quotes stand for themselves, also before
the three closing ones. -/
def blockPart (q : Quote) : Scan (Option (List Char)) := do
  let quotes := ((← get).takeWhile (· = q.char)).length
  guard (quotes ≤ 5)
  if quotes = 3 then
    discard <| Scan.takeExactly 3 (· = q.char)
    return none
  else if ← newline then return some ['\n']
  else
    let c ← Scan.next
    if q.escapes && c = '\\' then
      match ← Scan.optional joint with
      | some () => return some []
      | none => return some [← escaped]
    else
      guard (isPrintable c)
      return some [c]

def block (q : Quote) : Scan String := do
  discard newline
  return .ofList (← Scan.many (blockPart q)).flatten

def scan (q : Quote) : Scan String := do
  if ← Scan.acceptText (.ofList (.replicate 3 q.char)) then block q
  else
    Scan.expect q.char
    line q

end ClaimIndex.Toml.Quoted
