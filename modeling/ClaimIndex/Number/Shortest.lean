import ClaimIndex.Number.Decimal

namespace ClaimIndex.Shortest

inductive Tie
  | up
  | even

structure Digits where
  significand : Nat
  exponent : Int

/-- The quadrupled ends of the interval of magnitudes that round to `units`.  Below a power of
two the neighbour is half as far. -/
def interval (units : Nat) : Nat × Nat :=
  let step := Binary64.spacing units
  let below := if 1 < step && units = Nat.pow 2 units.log2 then step else 2 * step
  (4 * units - below, 4 * units + 2 * step)

def closed (units : Nat) : Bool := units / Binary64.spacing units % 2 = 0

def leading (units : Nat) : Int :=
  ((Decimal.digits (units * Decimal.power 340 / Binary64.one)).length : Int) - 341

/-- The decimal of `count` digits that rounds to `units` and is nearest to it, if there is one:
of the grid's points only the two around the value have to be tried. -/
def ofCount? (tie : Tie) (units count : Nat) : Option Digits :=
  let exponent := leading units - count + 1
  let up := Binary64.one * Decimal.power exponent.toNat
  let down := Decimal.power (-exponent).toNat
  let floor := units * down / up
  let (low, high) := interval units
  let rounds (d : Nat) : Bool :=
    let point := 4 * d * up
    if closed units then low * down ≤ point && point ≤ high * down
    else low * down < point && point < high * down
  let upper : Bool :=
    let twice := 2 * units * down
    let middle := (2 * floor + 1) * up
    middle < twice || middle = twice && match tie with
      | .up => true
      | .even => floor % 2 = 1
  match rounds floor, rounds (floor + 1) with
  | true, true => some ⟨if upper then floor + 1 else floor, exponent⟩
  | true, false => some ⟨floor, exponent⟩
  | false, true => some ⟨floor + 1, exponent⟩
  | false, false => none

def digits (tie : Tie) (units : Nat) : Digits :=
  ((List.range 17).findSome? fun i => ofCount? tie units (i + 1)).getD ⟨0, 0⟩

def trim (d : Digits) : List Char × Int :=
  let kept := (Decimal.digits d.significand).reverse.dropWhile (· = '0')
  (kept.reverse, d.exponent + ((Decimal.digits d.significand).length - kept.length : Nat))

def positional (cs : List Char) (exponent : Int) : List Char × List Char :=
  if 0 ≤ exponent then (cs ++ .replicate exponent.toNat '0', [])
  else
    let places := exponent.natAbs
    if places < cs.length then cs.splitAt (cs.length - places)
    else (['0'], .replicate (places - cs.length) '0' ++ cs)

private def sign (negative : Bool) : String := if negative then "-" else ""

def plain : Binary64 → String
  | .nan => "NaN"
  | .infinite negative => sign negative ++ "inf"
  | .finite negative units =>
    if units = 0 then sign negative ++ "0"
    else
      let (cs, exponent) := trim (digits .up units)
      let (whole, fraction) := positional cs exponent
      sign negative ++ .ofList whole ++
        (if fraction.isEmpty then "" else "." ++ .ofList fraction)

/-- Text with a point or an exponent: positional from `10 ^ -5` up to `10 ^ 16`.  Only finite
numbers have such a text. -/
def pointed? : Binary64 → Option String
  | .nan | .infinite _ => none
  | .finite negative units => some <|
    if units = 0 then sign negative ++ "0.0"
    else
      let (cs, exponent) := trim (digits .even units)
      let first := exponent + (cs.length - 1 : Nat)
      if -5 ≤ first ∧ first < 16 then
        let (whole, fraction) := positional cs exponent
        sign negative ++ .ofList whole ++ "." ++
          (if fraction.isEmpty then "0" else .ofList fraction)
      else
        let mantissa := match cs with
          | c :: d :: rest => c :: '.' :: d :: rest
          | cs => cs
        sign negative ++ .ofList mantissa ++ "e" ++ (if first < 0 then "-" else "+") ++
          .ofList (Decimal.digits first.natAbs)

end ClaimIndex.Shortest
