import ClaimIndex.Snapshot

namespace ClaimIndex

structure Change where
  old : List GroupId
  new : List GroupId
  deriving DecidableEq

namespace Change

def touched (c : Change) : List GroupId :=
  c.old.filter (· ∉ c.new) ++ c.new.filter (· ∉ c.old)

end Change

inductive ChangeKind
  | added
  | removed
  | modified
  deriving DecidableEq

structure Changes where
  added : Std.ExtTreeMap Key Change := ∅
  removed : Std.ExtTreeMap Key Change := ∅
  modified : Std.ExtTreeMap Key Change := ∅

namespace Changes

def size (c : Changes) : Nat := c.added.size + c.removed.size + c.modified.size

def isEmpty (c : Changes) : Bool := c.size = 0

def toList (c : Changes) : List (ChangeKind × Key × Change) :=
  c.added.toList.map (.added, ·) ++ c.removed.toList.map (.removed, ·) ++
    c.modified.toList.map (.modified, ·)

end Changes

structure Difference where
  changes : Changes := {}
  touched : Std.ExtTreeSet GroupId := ∅

def Difference.isEmpty (d : Difference) : Bool := d.changes.isEmpty

namespace Snapshot

def changes (old new : Snapshot) : Changes where
  added := new.filterMap fun k c => if k ∈ old then none else some ⟨[], c.ids⟩
  removed := old.filterMap fun k c => if k ∈ new then none else some ⟨c.ids, []⟩
  modified := new.filterMap fun k c =>
    old[k]?.bind fun o => if o.sameMembers c then none else some ⟨o.ids, c.ids⟩

def diff (old new : Snapshot) : Difference :=
  let changes := old.changes new
  ⟨changes, .ofList (changes.toList.flatMap fun (_, _, c) => c.touched)⟩

end Snapshot

end ClaimIndex
