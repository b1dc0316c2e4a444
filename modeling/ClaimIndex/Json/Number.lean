import ClaimIndex.Datum.Basic
import ClaimIndex.Number.Decimal
import ClaimIndex.Text.Scan

/-! Numbers in JSON text.  A number without point and exponent that fits 64 bits is an integer.
Any other is a decimal, computed from as many leading digits as fit a word by one multiplication
or a few divisions in binary64, so its last bit may be off. -/

namespace ClaimIndex.Json

structure Numeral where
  negative : Bool
  whole : List Char
  fraction : List Char
  exponent : Option Int

namespace Numeral

/-- No digits before the first one that counts, so `0` stands alone. -/
def whole? : Scan (List Char) := do
  let digits ← Scan.takeSome Decimal.isDigit
  guard (digits.length = 1 || digits.head? ≠ some '0')
  return digits

def fraction? : Scan (List Char) := do
  if ← Scan.accept '.' then Scan.takeSome Decimal.isDigit else return []

def exponent? : Scan (Option Int) := do
  match ← Scan.peek with
  | some 'e' | some 'E' =>
    discard Scan.next
    let negative ← Scan.accept '-'
    unless negative do discard <| Scan.accept '+'
    let n := Decimal.value (← Scan.takeSome Decimal.isDigit)
    return some (if negative then -(n : Int) else n)
  | _ => return none

def scan : Scan Numeral := do
  let negative ← Scan.accept '-'
  let whole ← whole?
  let fraction ← fraction?
  return { negative, whole, fraction, exponent := ← exponent? }

def maxWord : Nat := UInt64.size - 1

def gather (significand : Nat) : List Char → Nat × Nat
  | [] => (significand, 0)
  | c :: cs =>
    let longer := 10 * significand + (Decimal.digit? c).getD 0
    if longer ≤ maxWord then gather longer cs else (significand, (c :: cs).length)

def power (n : Nat) : Binary64 := Decimal.toBinary64 false 1 n

/-- Divide by a power of ten, at most `10 ^ 308` at a time.  Three divisions leave nothing of a
word. -/
def divide (x : Binary64) (exponent : Nat) : (rounds : Nat) → Binary64
  | 0 => x
  | rounds + 1 =>
    if exponent ≤ 308 then x / power exponent else divide (x / power 308) (exponent - 308) rounds

def scale (significand : Nat) (exponent : Int) : Option Binary64 :=
  let x := Binary64.ofNat significand
  if significand = 0 then some x
  else if exponent < 0 then some (divide x exponent.natAbs 3)
  else if 308 < exponent then none
  else match x * power exponent.natAbs with
    | .infinite _ => none
    | x => some x

def datum (n : Numeral) : Datum :=
  let (significand, dropped) := gather 0 n.whole
  let isInteger := n.fraction.isEmpty && n.exponent.isNone && dropped = 0
  let isNegatable := 0 < significand && Int64.minValue.toInt ≤ -(significand : Int)
  if isInteger && !n.negative then .integer significand
  else if isInteger && isNegatable then .integer (-(significand : Int))
  else
    let (significand, rest) := gather significand n.fraction
    let taken := n.fraction.length - rest
    match scale significand (dropped - taken + n.exponent.getD 0) with
    | none => .void
    | some x => .decimal (if n.negative then -x else x)

end Numeral

end ClaimIndex.Json
