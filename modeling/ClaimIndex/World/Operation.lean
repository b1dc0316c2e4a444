import ClaimIndex.World.Handler

namespace ClaimIndex

namespace Operation

variable (h : Handler World)

def executeTasks (s : Settings) : List Task → StateM World (List (Task × Except Fault Unit))
  | [] => return []
  | t :: ts => do
    let r ← (t.execute s).run h
    return (t, r) :: (← executeTasks s ts)

def storeKeys (g : Group) (raws : List String) : StateM World (Except Fault Unit) := do
  let r ← (Overlay.store g.id g.space raws).run.run h
  if let .ok () := r then h (.record .merged)
  return r

def perform : Operation → StateM World Answer
  | .rebuild purge => return .report (← (Rebuild.start (← get).settings purge).run h)
  | .rebuildSnapshot purge => do
    let r ← (Rebuild.start (← get).settings purge).run h
    return .snapshot (r.map Report.snapshot)
  | .lookup space key => return .ids (← (Lookup.groups (← get).settings space key).run h)
  | .primary space key => return .id (← (Lookup.primary (← get).settings space key).run h)
  | .lookupKey key => return .ids (← (Lookup.ofKey key).run h)
  | .store group raws => do
    return .outcome (← storeKeys h (group.resolve (← get).registry) raws)
  | .storeFor id raws => do
    match (← h .groups).find? (·.id = id) with
    | none => return .outcome (.error (.unknownGroup id))
    | some group => return .outcome (← storeKeys h group raws)
  | .overlay => return .entry (← Overlay.current.run.run h)
  | .overlaySize => return .overlaySize ((← get).slots.live (← get).clock)
  | .snapshot latest => return .snapshot (← h (.readStore latest))
  | .keys => return .keys ((← h (.readStore false)).map Std.ExtTreeMap.keys)
  | .advance span => do
    modify fun w => { w with clock := Instant.after w.clock span }
    return .instant (← get).clock
  | .setClock now => do
    modify ({ · with clock := now })
    return .instant now
  | .register group => do
    modify fun w => { w with registry := w.registry ++ [group.resolve w.registry] }
    return .number (← get).registry.length
  | .unregister id => do
    let before := (← get).registry.length
    modify fun w => { w with registry := w.registry.filter (·.id ≠ id) }
    let left := (← get).registry.length
    return .removed (left ≠ before) left
  | .sync => do
    modify fun w => { w with store := w.store.sync }
    return .nothing
  | .pending => return .tasks (← get).queue.tasks
  | .drain => modifyGet fun w => let (ts, queue) := w.queue.drain; (.tasks ts, { w with queue })
  | .executeAll => do
    let ts ← modifyGet fun w => let (ts, queue) := w.queue.drain; (ts, { w with queue })
    return .executed (← executeTasks h (← get).settings ts)
  | .execute task => return .outcome (← (task.execute (← get).settings).run h)
  | .acquire => return .acquired (← World.onLock fun lock files => lock.acquire (files.wait 1))
  | .release => return .outcome (← World.onLock Lock.release)
  | .held => return .flag ((← get).lock.isHeld (← get).files)
  | .token name => do
    let name := name.getD (← get).settings.token
    return .token name ((← get).tokens[name]?.getD 0)
  | .changes => modifyGet fun w =>
    (.log (w.log.drop w.heard), { w with heard := w.log.length })
  | .metrics => return .metrics (← get).metrics
  | .rebuilding => return .flag (← get).running
  | .settings => return .settings (← get).settings
  | .accepts space => return .flag ((← get).settings.accepts space)
  | .clearCache => do
    h .clearCache
    return .nothing
  | .fail point on => do
    modify fun w =>
      { w with failing := if on then point :: w.failing else w.failing.filter (· ≠ point) }
    return .nothing
  | .hook moment operations => do
    modify fun w => { w with hooks := w.hooks ++ [(moment, operations)] }
    return .nothing

end Operation

namespace World

/-- Perform operations within others, at most `depth` levels deep. -/
def play : (depth : Nat) → Player
  | 0, _, _ => return
  | depth + 1, label, operations => operations.forM fun operation => do
    let answer ← operation.perform (handle (play depth))
    modify fun w => { w with nested := w.nested ++ [(label, answer)] }

/-- How deep operations may nest.  Groups nest one level, since a rebuild within a rebuild is
skipped; deeper levels take one waiting hook each. -/
def depth : Nat := 4294967296

def exec {α : Type} (p : Proc α) : StateM World α := p.run (handle (play depth))

def step (operation : Operation) : StateM World Answer := operation.perform (handle (play depth))

def steps : List Operation → StateM World (List Answer)
  | [] => return []
  | operation :: rest => return (← step operation) :: (← steps rest)

end World

end ClaimIndex
