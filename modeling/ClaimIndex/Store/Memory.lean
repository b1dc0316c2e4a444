import ClaimIndex.Difference

namespace ClaimIndex

structure MemoryStore where
  primary : Snapshot := ∅
  replica : Snapshot := ∅
  /-- The replica waits for `sync` instead of following every write. -/
  lagged : Bool := false

namespace MemoryStore

def ofSnapshot (s : Snapshot) : MemoryStore where
  primary := s
  replica := s

def read (m : MemoryStore) (latest : Bool) : Snapshot := if latest then m.primary else m.replica

def get (m : MemoryStore) (k : Key) : Option Claimants := m.replica[k]?

/-- Deletions come from the changes and everything else from the snapshot: a reordering is no
change but moves the first claimant. -/
def apply (primary s : Snapshot) (c : Changes) : Snapshot :=
  s.foldl (fun primary k claimants =>
    if primary[k]? = some claimants then primary else primary.insert k claimants)
    (primary.eraseMany c.removed.keys)

def write (m : MemoryStore) (s : Snapshot) (c : Changes) : MemoryStore :=
  let primary := apply m.primary s c
  { m with primary, replica := if m.lagged then m.replica else primary }

def sync (m : MemoryStore) : MemoryStore := { m with replica := m.primary }

end MemoryStore

end ClaimIndex
