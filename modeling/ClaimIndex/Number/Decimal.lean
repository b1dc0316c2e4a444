import ClaimIndex.Number.Binary64

namespace ClaimIndex.Decimal

def digit? (c : Char) : Option Nat :=
  if '0' ≤ c ∧ c ≤ '9' then some (c.toNat - '0'.toNat) else none

def isDigit (c : Char) : Bool := (digit? c).isSome

def value (digits : List Char) : Nat :=
  digits.foldl (fun n c => 10 * n + (digit? c).getD 0) 0

def digits (n : Nat) : List Char := Nat.toDigits 10 n

def power (n : Nat) : Nat := Nat.pow 10 n

def spanDigits (s : List Char) : List Char × List Char := s.span isDigit

def natural? (s : List Char) : Option Nat :=
  if s.isEmpty || !s.all isDigit then none else some (value s)

def splitSign : List Char → Bool × List Char
  | '-' :: s => (true, s)
  | '+' :: s => (false, s)
  | s => (false, s)

def integer? (s : List Char) : Option Int :=
  let (negative, rest) := splitSign s
  (natural? rest).map fun n => if negative then -(n : Int) else n

/-- The value nearest to `digits * 10 ^ exponent`.  The two bounds only keep the powers small:
beyond them the answer is infinite or zero. -/
def toBinary64 (negative : Bool) (digits : Nat) (exponent : Int) : Binary64 :=
  if digits = 0 then .finite negative 0
  else if 310 < exponent then .infinite negative
  else if exponent + (digits.log2 / 3 + 1 : Nat) < -330 then .finite negative 0
  else if exponent < 0 then .ofRatio negative (digits * Binary64.one) (power exponent.natAbs)
  else .ofRatio negative (digits * power exponent.natAbs * Binary64.one) 1

def exponent? : List Char → Option Int
  | [] => some 0
  | c :: s => if c = 'e' || c = 'E' then integer? s else none

def unsigned? (negative : Bool) (s : List Char) : Option Binary64 := do
  let (whole, s) := spanDigits s
  let (fraction, s) := match s with
    | '.' :: s => spanDigits s
    | s => ([], s)
  guard (!whole.isEmpty || !fraction.isEmpty)
  let exponent ← exponent? s
  return toBinary64 negative (value (whole ++ fraction)) (exponent - fraction.length)

def number? (s : List Char) : Option Binary64 :=
  let (negative, rest) := splitSign s
  match rest.map Char.toLower with
  | ['i', 'n', 'f'] | ['i', 'n', 'f', 'i', 'n', 'i', 't', 'y'] => some (.infinite negative)
  | ['n', 'a', 'n'] => some .nan
  | _ => unsigned? negative rest

def fixed (places : Nat) : Binary64 → String
  | .nan => "NaN"
  | .infinite negative => if negative then "-inf" else "inf"
  | .finite negative units =>
    let scaled := Binary64.divEven (units * power places) Binary64.one
    let fraction := digits (scaled % power places)
    let padding := List.replicate (places - fraction.length) '0'
    let sign := if negative then "-" else ""
    sign ++ .ofList (digits (scaled / power places)) ++ "." ++ .ofList (padding ++ fraction)

end ClaimIndex.Decimal
