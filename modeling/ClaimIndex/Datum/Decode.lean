import ClaimIndex.Datum.Basic
import ClaimIndex.Key

namespace ClaimIndex.Datum

variable {α : Type}

def asText : Datum → Option String
  | text s => some s
  | _ => none

def asFlag : Datum → Option Bool
  | flag b => some b
  | _ => none

def asInteger : Datum → Option Int
  | integer n => some n
  | _ => none

def asCount (d : Datum) : Option UInt64 := do
  let n ← d.asInteger
  guard (0 ≤ n ∧ n < UInt64.size)
  return .ofNat n.toNat

def asNamespace (d : Datum) : Option Namespace := d.asInteger >>= Namespace.ofInt?

def asNumber : Datum → Option Binary64
  | integer n => some (.ofRatio (decide (n < 0)) (n.natAbs * Binary64.one) 1)
  | decimal x => some x
  | _ => none

def asList (item : Datum → Option α) : Datum → Option (List α)
  | list items => items.mapM item
  | _ => none

def asMap (value : Datum → Option α) : Datum → Option (List (String × α))
  | table members => members.mapM fun (name, d) => (name, ·) <$> value d
  | _ => none

def asOption (value : Datum → Option α) : Datum → Option (Option α)
  | null => some none
  | d => some <$> value d

/-- How a notation treats a list that stands for a record and is longer than it. -/
inductive Surplus
  | refused
  | ignored
  deriving DecidableEq

/-- The fields of a record by name, absent ones included; no field may be given twice.  A list
gives them in their order, and other members than the named ones are ignored. -/
def fields (surplus : Surplus) (names : List String) : Datum → Option (List (Option Datum))
  | table members => names.mapM fun name =>
    match members.filter (·.1 = name) with
    | [] => some none
    | [(_, d)] => some (some d)
    | _ => none
  | date => some (names.map fun _ => none)
  | list items => do
    guard (surplus = .ignored ∨ items.length ≤ names.length)
    return names.zipIdx.map fun (_, i) => items[i]?
  | _ => none

def withDefault (default : α) (read : Datum → Option α) : Option Datum → Option α
  | none => some default
  | some d => read d

end ClaimIndex.Datum
