import ClaimIndex.Number.Binary64

namespace ClaimIndex

inductive Datum
  | null
  | flag (b : Bool)
  | integer (n : Int)
  | decimal (x : Binary64)
  | text (s : String)
  | date
  | list (items : List Datum)
  | table (members : List (String × Datum))
  /-- A value that is well formed but stands for nothing, so all one can do is pass over it. -/
  | void

namespace Datum

instance : Inhabited Datum := ⟨null⟩

mutual

def depth : Datum → Nat
  | list items => depthOfItems items + 1
  | table members => depthOfMembers members + 1
  | null | flag _ | integer _ | decimal _ | text _ | date | void => 0

def depthOfItems : List Datum → Nat
  | [] => 0
  | d :: ds => max d.depth (depthOfItems ds)

def depthOfMembers : List (String × Datum) → Nat
  | [] => 0
  | (_, d) :: ms => max d.depth (depthOfMembers ms)

end

mutual

def isSolid : Datum → Bool
  | list items => areItemsSolid items
  | table members => areMembersSolid members
  | void => false
  | null | flag _ | integer _ | decimal _ | text _ | date => true

def areItemsSolid : List Datum → Bool
  | [] => true
  | d :: ds => d.isSolid && areItemsSolid ds

def areMembersSolid : List (String × Datum) → Bool
  | [] => true
  | (_, d) :: ms => d.isSolid && areMembersSolid ms

end

end Datum

end ClaimIndex
