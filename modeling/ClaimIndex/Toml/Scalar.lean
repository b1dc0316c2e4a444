import ClaimIndex.Datum.Basic
import ClaimIndex.Number.Decimal
import ClaimIndex.Text.Hex
import ClaimIndex.Toml.Quoted

namespace ClaimIndex.Toml

def digits (isDigit : Char → Bool) : Scan (List Char) := do
  let cs ← Scan.takeWhile fun c => isDigit c || c = '_'
  guard (((String.ofList cs).splitOn "_").all (· ≠ ""))
  return cs.filter (· ≠ '_')

def sign : Scan Bool := do
  if ← Scan.accept '-' then return true
  else
    discard <| Scan.accept '+'
    return false

def whole : Scan (List Char) := do
  let cs ← digits Decimal.isDigit
  guard (cs.length = 1 || cs.head? ≠ some '0')
  return cs

def integer (n : Int) : Scan Datum := do
  guard (Int64.minValue.toInt ≤ n ∧ n ≤ Int64.maxValue.toInt)
  return .integer n

def based (base : Nat) : Scan Datum := do
  let cs ← digits fun c => (Hex.digit? c).any (· < base)
  integer (Hex.value base cs)

def decimalInteger : Scan Datum := do
  let negative ← sign
  let n := Decimal.value (← whole)
  integer (if negative then -(n : Int) else n)

def exponent : Scan Int := do
  unless ← Scan.accept 'e' do Scan.expect 'E'
  let negative ← sign
  let n := Decimal.value (← digits Decimal.isDigit)
  return if negative then -(n : Int) else n

/-- A number with a fraction or an exponent.  One too large is refused, but not one too small to
be negative. -/
def decimal : Scan Datum := do
  let negative ← sign
  let front ← whole
  let fraction ← if ← Scan.accept '.' then some <$> digits Decimal.isDigit else pure none
  let power ← if fraction.isSome then Scan.optional exponent else some <$> exponent
  let fraction := fraction.getD []
  let x := Decimal.toBinary64 negative (Decimal.value (front ++ fraction))
    (power.getD 0 - fraction.length)
  guard (x ≠ .infinite false)
  return .decimal x

def special : Scan Datum := do
  let negative ← sign
  if ← Scan.acceptText "inf" then return .decimal (.infinite negative)
  else
    Scan.expectText "nan"
    return .decimal .nan

def field (width low high : Nat) : Scan Nat := do
  let n := Decimal.value (← Scan.takeExactly width Decimal.isDigit)
  guard (low ≤ n ∧ n ≤ high)
  return n

def isLeap (year : Nat) : Bool := year % 4 = 0 && (year % 100 ≠ 0 || year % 400 = 0)

def daysIn (year month : Nat) : Nat :=
  if month = 2 then (if isLeap year then 29 else 28)
  else if month = 4 || month = 6 || month = 9 || month = 11 then 30
  else 31

def day : Scan Unit := do
  let year ← field 4 0 9999
  Scan.expect '-'
  let month ← field 2 1 12
  Scan.expect '-'
  discard <| field 2 1 (daysIn year month)

def time : Scan Unit := do
  discard <| field 2 0 23
  Scan.expect ':'
  discard <| field 2 0 59
  Scan.expect ':'
  discard <| field 2 0 60
  discard <| Scan.optional do
    Scan.expect '.'
    Scan.takeSome Decimal.isDigit

def offset : Scan Unit := do
  let c ← Scan.next
  unless c = 'Z' || c = 'z' do
    guard (c = '+' || c = '-')
    discard <| field 2 0 23
    Scan.expect ':'
    discard <| field 2 0 59

def date : Scan Datum := do
  match ← Scan.optional day with
  | none => time
  | some () =>
    discard <| Scan.optional do
      let c ← Scan.next
      guard (c = 'T' || c = 't' || c = ' ')
      time
      Scan.optional offset
  return .date

def number : Scan Datum := do
  if ← Scan.acceptText "0x" then based 16
  else if ← Scan.acceptText "0o" then based 8
  else if ← Scan.acceptText "0b" then based 2
  else date <|> decimal <|> special <|> decimalInteger

def scalar : Scan Datum := do
  match ← Scan.peek with
  | some '"' => .text <$> Quoted.scan .double
  | some '\'' => .text <$> Quoted.scan .single
  | some 't' => Scan.expectText "true"; return .flag true
  | some 'f' => Scan.expectText "false"; return .flag false
  | _ => number

end ClaimIndex.Toml
