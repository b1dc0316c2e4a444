import ClaimIndex.Distinct
import ClaimIndex.Fault
import ClaimIndex.Key

namespace ClaimIndex

inductive Claimants
  | single (id : GroupId)
  | multi (ids : List GroupId)
  deriving DecidableEq

namespace Claimants

def ids : Claimants → List GroupId
  | single id => [id]
  | multi ids => ids

def primary? (c : Claimants) : Option GroupId := c.ids.head?

def size (c : Claimants) : Nat := c.ids.length

def isEmpty (c : Claimants) : Bool := c.ids.isEmpty

def isConflict : Claimants → Bool
  | single _ => false
  | multi _ => true

def contains (c : Claimants) (id : GroupId) : Bool := c.ids.contains id

def push (c : Claimants) (id : GroupId) : Claimants :=
  if c.contains id then c else multi (c.ids ++ [id])

/-- Whether two values have the same claimants in whatever order.  One inclusion is tested: with
equally many distinct ids on both sides it entails the other. -/
def sameMembers (c d : Claimants) : Bool := c.size = d.size && c.ids.all d.contains

def ofList (ids : List GroupId) : Except Fault Claimants :=
  match distinct ids with
  | [] => .error .emptyClaimants
  | [id] => .ok (single id)
  | ids => .ok (multi ids)

def WellFormed : Claimants → Prop
  | single _ => True
  | multi ids => 2 ≤ ids.length ∧ ids.Nodup

end Claimants

end ClaimIndex
