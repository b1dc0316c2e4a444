import ClaimIndex.Effect
import ClaimIndex.Distinct

namespace ClaimIndex

structure Conflict where
  key : Key
  existing : List GroupId
  claimant : GroupId
  ignored : Bool
  deriving DecidableEq

namespace Group

mutual

def enumerate : Group → Attempt (List String)
  | fixed _ _ keys _ => return keys
  | aggregate _ _ members => distinct <$> enumerateAll members
  | scripted id _ keys _ _ failure actions => do
    Proc.ask (.perform id actions)
    match failure with
    | some message => throw (.groupKeys id message)
    | none => return keys
  | registered _ => return []

def enumerateAll : List Group → Attempt (List String)
  | [] => return []
  | g :: gs => do
    let front ← if g.isPresent then g.enumerate else pure []
    return front ++ (← enumerateAll gs)

end

end Group

structure Build where
  snapshot : Snapshot := ∅
  conflicts : List Conflict := []

namespace Build

def claim (id : GroupId) (ignored : Bool) (b : Build) (k : Key) : Build :=
  match b.snapshot.claim k id with
  | (.conflict existing, snapshot) => ⟨snapshot, b.conflicts ++ [⟨k, existing, id, ignored⟩]⟩
  | (_, snapshot) => { b with snapshot }

def claimAll (id : GroupId) (space : Namespace) (ignored : Bool) (raws : List String)
    (b : Build) : Build :=
  raws.foldl (fun b raw => b.claim id ignored (.ofRaw space raw)) b

def add (b : Build) (g : Group) : Attempt Build := do
  if g.isPresent then
    let next := b.claimAll g.id g.space g.isDerived (← g.enumerate)
    unless g.isDerived do
      (next.conflicts.drop b.conflicts.length).forM fun c =>
        Proc.ask (.report (.conflict c.key c.claimant))
    return next
  else
    Proc.ask (.report (.groupMissing g.id))
    return b

def order (groups : List Group) : List Group :=
  groups.filter (!·.isDerived) ++ groups.filter Group.isDerived

def ofGroups (groups : List Group) : Attempt Build := (order groups).foldlM add {}

end Build

end ClaimIndex
