import ClaimIndex.Key
import ClaimIndex.Time

namespace ClaimIndex.Overlay

structure Entry where
  stamp : Instant
  keys : Std.ExtTreeMap Key GroupId

namespace Entry

def merge (e : Entry) (newer : Std.ExtTreeMap Key GroupId) (now : Instant) : Entry :=
  ⟨now, newer.foldl (fun keys k g => keys.insert k g) e.keys⟩

def equals (e f : Entry) : Bool := e.stamp.equals f.stamp && e.keys == f.keys

end Entry

end ClaimIndex.Overlay
