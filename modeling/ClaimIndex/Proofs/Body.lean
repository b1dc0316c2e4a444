import ClaimIndex.World.Operation

namespace ClaimIndex

open Proc (ask)

def Overlay.add (g : Group) (raws : List String) : Proc (Except Fault Unit) := do
  let r ← (store g.id g.space raws).run
  if let .ok () := r then ask (.record .merged)
  return r

namespace Operation

variable {h : Handler World} {w : World} {op : Operation} {p : Proc Answer}

def addTo (id : GroupId) (raws : List String) : Option Group → Proc Answer
  | none => return .outcome (.error (.unknownGroup id))
  | some g => .outcome <$> Overlay.add g raws

def body? (w : World) : Operation → Option (Proc Answer)
  | rebuild purge => some (.report <$> Rebuild.start w.settings purge)
  | rebuildSnapshot purge =>
    some ((fun r => .snapshot (r.map Report.snapshot)) <$> Rebuild.start w.settings purge)
  | lookup space key => some (.ids <$> Lookup.groups w.settings space key)
  | primary space key => some (.id <$> Lookup.primary w.settings space key)
  | lookupKey key => some (.ids <$> Lookup.ofKey key)
  | store group raws => some (.outcome <$> Overlay.add (group.resolve w.registry) raws)
  | storeFor id raws =>
    some (ask .groups >>= fun groups => addTo id raws (groups.find? (·.id = id)))
  | overlay => some (.entry <$> Overlay.current.run)
  | snapshot latest => some (.snapshot <$> ask (.readStore latest))
  | keys => some ((fun r => .keys (r.map Std.ExtTreeMap.keys)) <$> ask (.readStore false))
  | execute task => some (.outcome <$> task.execute w.settings)
  | clearCache => some (ask .clearCache >>= fun _ => return .nothing)
  | _ => none

theorem storeKeys_eq (h : Handler World) (g : Group) (raws : List String) :
    storeKeys h g raws = (Overlay.add g raws).run h := by
  unfold storeKeys Overlay.add
  rw [Proc.run_bind]
  congr 1
  funext r
  cases r with
  | ok u =>
    exact (Proc.run_bind h (ask (.record .merged)) fun _ =>
      pure (Except.ok u : Except Fault Unit)).symm
  | error fault => rfl

theorem perform_body (hp : op.body? w = some p) :
    (op.perform h).run w = (p.run h).run w := by
  cases op with
  | storeFor id raws =>
    cases hp
    rw [Proc.run_bind, Proc.run_ask, perform, StateT.run_bind, StateT.run_bind]
    congr 1
    funext r
    cases r.1.find? (·.id = id) with
    | none => rfl
    | some g =>
      simp only [storeKeys_eq, addTo, map_eq_pure_bind, Proc.run_bind, Proc.run_pure]
  | snapshot | keys | clearCache =>
    cases hp
    simp only [perform, map_eq_pure_bind, Proc.run_bind, Proc.run_pure]
    rfl
  | rebuild | rebuildSnapshot | lookup | primary | lookupKey | store | overlay | execute =>
    cases hp
    simp only [perform, storeKeys_eq, map_eq_pure_bind, Proc.run_bind, Proc.run_pure,
      StateT.run_bind, StateT.run_get, pure_bind]
  | _ => cases hp

end Operation

end ClaimIndex
