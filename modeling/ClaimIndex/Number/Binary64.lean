/-! Binary64 numbers.  A finite one is a sign and a count of units of `2 ^ -1074`, the least
positive value of the format, so comparison is comparison of integers and `ofRatio` is the one
place where precision is lost.  Main statements: the order is transitive, and total away from
`nan`. -/

namespace ClaimIndex

inductive Binary64
  | nan
  | infinite (negative : Bool)
  | finite (negative : Bool) (units : Nat)
  deriving DecidableEq

namespace Binary64

def one : Nat := Nat.pow 2 1074

def limit : Nat := Nat.pow 2 2098

def spacing (n : Nat) : Nat := Nat.pow 2 (n.log2 - 52)

def divEven (num den : Nat) : Nat :=
  let q := num / den
  let r := num % den
  if 2 * r < den then q else if den < 2 * r then q + 1 else q + q % 2

def ofRatio (negative : Bool) (num den : Nat) : Binary64 :=
  let step := spacing (num / den)
  let units := divEven num (den * step) * step
  if units < limit then finite negative units else infinite negative

def zero : Binary64 := finite false 0

def greatest : Binary64 := finite false (limit - spacing (limit - 1))

def ofNat (n : Nat) : Binary64 := ofRatio false (n * one) 1

def signed (negative : Bool) (units : Nat) : Int :=
  if negative then -(units : Int) else units

def neg : Binary64 → Binary64
  | nan => nan
  | infinite s => infinite !s
  | finite s m => finite (!s) m

/-- An exact sum of zero is negative only if both summands were. -/
def add : Binary64 → Binary64 → Binary64
  | nan, _ | _, nan => nan
  | infinite s, infinite t => if s = t then infinite s else nan
  | infinite s, finite .. | finite .., infinite s => infinite s
  | finite s m, finite t n =>
    let sum := signed s m + signed t n
    if sum = 0 then finite (s && t) 0 else ofRatio (decide (sum < 0)) sum.natAbs 1

def sub (a b : Binary64) : Binary64 := a.add b.neg

def mul : Binary64 → Binary64 → Binary64
  | nan, _ | _, nan => nan
  | infinite s, infinite t => infinite (s ^^ t)
  | infinite s, finite t n | finite t n, infinite s => if n = 0 then nan else infinite (s ^^ t)
  | finite s m, finite t n => ofRatio (s ^^ t) (m * n) one

def div : Binary64 → Binary64 → Binary64
  | nan, _ | _, nan => nan
  | infinite _, infinite _ => nan
  | infinite s, finite t _ => infinite (s ^^ t)
  | finite s _, infinite t => finite (s ^^ t) 0
  | finite s m, finite t n =>
    if n = 0 then if m = 0 then nan else infinite (s ^^ t)
    else ofRatio (s ^^ t) (m * one) n

instance : Neg Binary64 := ⟨neg⟩
instance : Add Binary64 := ⟨add⟩
instance : Sub Binary64 := ⟨sub⟩
instance : Mul Binary64 := ⟨mul⟩
instance : Div Binary64 := ⟨div⟩

/-- `nan` is neither before nor after anything, itself included. -/
def ble : Binary64 → Binary64 → Bool
  | nan, _ | _, nan => false
  | infinite s, infinite t => s || !t
  | infinite s, finite .. => s
  | finite .., infinite t => !t
  | finite s m, finite t n => signed s m ≤ signed t n

instance : LE Binary64 := ⟨fun a b => a.ble b = true⟩

instance (a b : Binary64) : Decidable (a ≤ b) := inferInstanceAs (Decidable (a.ble b = true))

theorem le_def {a b : Binary64} : a ≤ b ↔ a.ble b = true := Iff.rfl

/-- Equality of the numbers: the two zeros are equal, and `nan` equals nothing. -/
def equals (a b : Binary64) : Bool := a.ble b && b.ble a

def lt (a b : Binary64) : Bool := a.ble b && !b.ble a

def isNan (a : Binary64) : Bool := a = nan

def isNegative : Binary64 → Bool
  | nan => false
  | infinite s | finite s _ => s

@[simp] theorem not_nan_le (a : Binary64) : ¬ nan ≤ a := by simp [le_def, ble]

@[simp] theorem not_le_nan (a : Binary64) : ¬ a ≤ nan := by cases a <;> simp [le_def, ble]

theorem le_refl {a : Binary64} (h : a ≠ nan) : a ≤ a := by
  cases a <;> simp_all [le_def, ble]

theorem le_trans {a b c : Binary64} (hab : a ≤ b) (hbc : b ≤ c) : a ≤ c := by
  cases a <;> cases b <;> cases c <;> grind [le_def, ble]

theorem equals_iff {a b : Binary64} : a.equals b ↔ a ≤ b ∧ b ≤ a := by
  simp [equals, le_def]

def toBits : Binary64 → UInt64
  | nan => 0x7ff8000000000000
  | infinite s => (if s then 0x8000000000000000 else 0) ||| 0x7ff0000000000000
  | finite s m =>
    let scale := m.log2 - 52
    let hidden := Nat.pow 2 52
    let body := if m < hidden then m else (scale + 1) * hidden + (m / spacing m - hidden)
    (if s then 0x8000000000000000 else 0) ||| UInt64.ofNat body

end Binary64

end ClaimIndex
