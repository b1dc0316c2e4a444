import ClaimIndex.Text.Hex
import ClaimIndex.Text.Scan

namespace ClaimIndex.Json.Quoted

inductive Part
  | char (c : Char)
  | half (unit : Nat)

def escape? : Char → Option Char
  | '"' => some '"'
  | '\\' => some '\\'
  | '/' => some '/'
  | 'b' => some '\x08'
  | 'f' => some '\x0c'
  | 'n' => some '\n'
  | 'r' => some '\r'
  | 't' => some '\t'
  | _ => none

def isHalf (unit : Nat) : Bool := 0xD800 ≤ unit && unit < 0xE000

def escaped : Scan Part := do
  let c ← Scan.next
  if c = 'u' then
    let unit := Hex.value 16 (← Scan.takeExactly 4 Hex.isDigit)
    return if isHalf unit then .half unit else .char (.ofNat unit)
  else .char <$> (escape? c : Option Char)

def part : Scan (Option Part) := do
  match ← Scan.next with
  | '"' => return none
  | '\\' => some <$> escaped
  | c =>
    guard (0x20 ≤ c.toNat)
    return some (.char c)

/-- Put halves together; a half without the other stands for nothing. -/
def join : List Part → Option (List Char)
  | [] => some []
  | .char c :: parts => (c :: ·) <$> join parts
  | .half high :: .half low :: parts =>
    if high < 0xDC00 ∧ 0xDC00 ≤ low then
      (.ofNat (0x10000 + (high - 0xD800) * 0x400 + (low - 0xDC00)) :: ·) <$> join parts
    else none
  | .half _ :: _ => none

def scan : Scan (Option String) := return (join (← Scan.many part)).map .ofList

def escape (c : Char) : List Char :=
  match c with
  | '"' => ['\\', '"']
  | '\\' => ['\\', '\\']
  | '\x08' => ['\\', 'b']
  | '\x0c' => ['\\', 'f']
  | '\n' => ['\\', 'n']
  | '\r' => ['\\', 'r']
  | '\t' => ['\\', 't']
  | c =>
    if c.toNat < 0x20 then
      ['\\', 'u', '0', '0'] ++ (if c.toNat < 0x10 then ['0'] else []) ++ Nat.toDigits 16 c.toNat
    else [c]

def write (s : String) : String := .ofList ('"' :: s.toList.flatMap escape ++ ['"'])

end ClaimIndex.Json.Quoted
