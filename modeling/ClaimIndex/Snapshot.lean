import ClaimIndex.Claimants

namespace ClaimIndex

abbrev Snapshot := Std.ExtTreeMap Key Claimants

inductive Claim
  | new
  | conflict (existing : List GroupId)
  | duplicate
  deriving DecidableEq

namespace Snapshot

def idsOf (s : Snapshot) (k : Key) : List GroupId := (s[k]?.map Claimants.ids).getD []

def claim (s : Snapshot) (k : Key) (id : GroupId) : Claim × Snapshot :=
  match s[k]? with
  | none => (.new, s.insert k (.single id))
  | some c =>
    if c.contains id then (.duplicate, s) else (.conflict c.ids, s.insert k (c.push id))

def ofEntries (entries : List (Key × List GroupId)) : Except Fault Snapshot :=
  entries.foldlM (fun s (k, ids) => (Claimants.ofList ids).map (s.insert k)) ∅

def conflictCount (s : Snapshot) : Nat := s.values.countP Claimants.isConflict

def WellFormed (s : Snapshot) : Prop := ∀ (k : Key) (c : Claimants), s[k]? = some c → c.WellFormed

end Snapshot

end ClaimIndex
