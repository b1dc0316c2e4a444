import ClaimIndex.Overlay

/-! From keys to groups.  The tiers in order are the cache, the overlay and the store; a hit in
the overlay counts alone, since it is newer than the last rebuild.  A lookup never fails: a tier
that fails is reported and passed over, and the answer is then not cached. -/

namespace ClaimIndex.Lookup

def fromStore (k : Key) (generation : Option UInt64) : Proc (List GroupId) := do
  match ← Proc.ask (.readKey k) with
  | .ok found =>
    let ids := (found.map Claimants.ids).getD []
    match generation with
    | some generation =>
      discard <| Proc.ask (.cache generation k ids)
      Proc.ask (.record (.lookup .store))
    | none => Proc.ask (.record (.lookup .degraded))
    return ids
  | .error _ =>
    Proc.ask (.report (.storeLookupFailed k))
    Proc.ask (.record (.lookup .degraded))
    return []

def ofKey (k : Key) : Proc (List GroupId) := do
  match ← Proc.ask (.cached k) with
  | some ids =>
    Proc.ask (.record (.lookup .cache))
    return ids
  | none =>
    let generation ← Proc.ask .generation
    match ← (Overlay.lookup k).run with
    | .ok (some id) =>
      discard <| Proc.ask (.cache generation k [id])
      Proc.ask (.record (.lookup .overlay))
      return [id]
    | .ok none => fromStore k (some generation)
    | .error _ =>
      Proc.ask (.report (.overlayLookupFailed k))
      fromStore k none

def groups (s : Settings) (space : Namespace) (raw : String) : Proc (List GroupId) := do
  if s.accepts space then ofKey (.ofRaw space raw)
  else
    Proc.ask (.record (.lookup .filtered))
    return []

def primary (s : Settings) (space : Namespace) (raw : String) : Proc (Option GroupId) :=
  List.head? <$> groups s space raw

end ClaimIndex.Lookup
