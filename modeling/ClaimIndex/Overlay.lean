import ClaimIndex.Effect
import ClaimIndex.Settings

namespace ClaimIndex.Overlay

def slot : String := "message-index:interim"

inductive Outcome
  | empty
  | purged (keys : Nat)
  | retained (stamp : Instant)
  deriving DecidableEq

def normalized (id : GroupId) (space : Namespace) (raws : List String) :
    Std.ExtTreeMap Key GroupId :=
  .ofList (raws.map fun raw => (Key.ofRaw space raw, id))

def store (id : GroupId) (space : Namespace) (raws : List String) : Attempt Unit := do
  let added := normalized id space raws
  let now ← Proc.ask .now
  let entry ← ExceptT.mk (Proc.ask .readOverlay)
  ExceptT.mk (Proc.ask (.writeOverlay (entry.elim ⟨now, added⟩ (·.merge added now))))

def current : Attempt (Option Entry) := ExceptT.mk (Proc.ask .readOverlay)

def lookup (k : Key) : Attempt (Option GroupId) := return (← current).bind (·.keys[k]?)

/-- Drop the entry if its stamp is not after `purge`.  The removal is conditional on the stamp
that was read, so a merge in between survives and is looked at in the next round; without an
answer the rounds ran out. -/
def reconcile (purge : Instant) : (rounds : Nat) → Attempt (Option Outcome)
  | 0 => return none
  | rounds + 1 => do
    let some entry ← current | return some .empty
    if entry.stamp ≤ purge then
      if ← ExceptT.mk (Proc.ask (.dropOverlay entry.stamp)) then
        return some (.purged entry.keys.size)
      else reconcile purge rounds
    else return some (.retained entry.stamp)

end ClaimIndex.Overlay
