import ClaimIndex.World.Basic

/-! The collaborators' replies.  `reply` is what they do when nothing interferes; `handle` lets
calls fail and operations run at the moments they wait for. -/

namespace ClaimIndex.World

abbrev Player := String → List Operation → StateM World Unit

variable (play : Player)

def onStore {α : Type} (f : Store → FileSystem → α × Store) : StateM World α :=
  modifyGet fun w => let (a, store) := f w.store w.files; (a, { w with store })

def onLock {α : Type} (f : Lock → FileSystem → α × Lock × FileSystem) : StateM World α :=
  modifyGet fun w => let (a, lock, files) := f w.lock w.files; (a, { w with lock, files })

def onSlots {α : Type} (f : Overlay.Slots → Instant → α × Overlay.Slots) : StateM World α :=
  modifyGet fun w => let (a, slots) := f w.slots w.clock; (a, { w with slots })

def reply : Handler World
  | .now => return (← get).clock
  | .uptime => return (← get).uptime
  | .enter => modifyGet fun w => (!w.running, { w with running := true })
  | .leave => modify ({ · with running := false })
  | .acquire => onLock fun lock files => lock.acquire (files.wait 1)
  | .release => onLock Lock.release
  | .cached k => modifyGet fun w => let (a, cache) := w.cache.get k; (a, { w with cache })
  | .generation => return (← get).cache.generation
  | .cache g k ids => modifyGet fun w =>
    let (a, cache) := w.cache.putIf g k ids; (a, { w with cache })
  | .clearCache => modify fun w => { w with cache := w.cache.clear }
  | .readStore latest => onStore fun store files => store.read files latest
  | .readKey k => onStore fun store files => store.get files k
  | .writeStore s c => modifyGet fun w =>
    let (a, store, files) := w.store.write w.files s c; (a, { w with store, files })
  | .readOverlay => .ok <$> onSlots fun slots now => slots.get Overlay.slot now
  | .writeOverlay e => do
    modify fun w => { w with slots := w.slots.set Overlay.slot e w.settings.ttl w.clock }
    return .ok ()
  | .dropOverlay stamp => .ok <$> onSlots fun slots now => slots.deleteIf Overlay.slot stamp now
  | .touch token => do
    modify fun w => { w with tokens := w.tokens.insert token (w.tokens[token]?.getD 0 + 1) }
    return .ok ()
  | .enqueue task => modifyGet fun w =>
    match w.queue.enqueue task with
    | .ok queue => (.ok (), { w with queue })
    | .error fault => (.error fault, w)
  | .notify page change => modify fun w => { w with log := w.log ++ [⟨page, change⟩] }
  | .groups => return (← get).registry
  | .perform group actions => play ("group " ++ group) actions
  | .record event => modify fun w => { w with metrics := w.metrics.record event }
  | .report notice => modify fun w => { w with notices := w.notices ++ [notice] }

def runHook (moment : Moment) : StateM World Unit := do
  match (← get).hooks.find? (·.1 = moment) with
  | none => return
  | some (_, operations) =>
    modify fun w => { w with hooks := w.hooks.eraseP (·.1 = moment) }
    play moment.name operations

def handle : Handler World := fun e =>
  match e.outage? with
  | none => reply play e
  | some (point, down) => do
    runHook play (.before point)
    if point ∈ (← get).failing then return down
    let r ← reply play e
    runHook play (.after point)
    return r

end ClaimIndex.World
