import ClaimIndex.Setup

namespace ClaimIndex

inductive Health
  | starting
  | healthy
  /-- Running, but the rebuild at the start failed. -/
  | degraded
  | stopped
  deriving DecidableEq

def Health.name : Health → String
  | starting => "Starting"
  | healthy => "Healthy"
  | degraded => "Degraded"
  | stopped => "Stopped"

structure Maintenance where
  config : Config
  /-- The maintained index, from the first start on. -/
  index : Option World := none
  health : Health := .starting
  running : Bool := false
  /-- Once told to stop, the process executes no more tasks, not even after another start. -/
  stopping : Bool := false

namespace Maintenance

/-- Tasks executed in one go.  A task leaves a follow-up only if the overlay changed under it. -/
def rounds : Nat := 4294967296

/-- Execute queued tasks until none is left. -/
def settle : (rounds : Nat) → StateM World Unit
  | 0 => return
  | rounds + 1 => do
    let task ← modifyGet fun w => let (t, queue) := w.queue.dequeue; (t, { w with queue })
    match task with
    | none => return
    | some task =>
      discard <| World.step (.execute task)
      settle rounds

def new (config : Config) : Except SetupFault Maintenance :=
  match config.violation? with
  | some _ => .error .configInvalid
  | none => .ok { config }

variable (m : Maintenance)

def onIndex {α : Type} (act : StateM World α) (fs : FileSystem) :
    Option α × Maintenance × FileSystem :=
  match m.index with
  | none => (none, m, fs)
  | some w =>
    let (a, w) := act.run { w with files := fs }
    (some a, { m with index := some w }, w.files)

def work : StateM World Unit := do
  if m.stopping then modify fun w => { w with queue := .shut } else settle rounds

def start (fs : FileSystem) : Except SetupFault Unit × Maintenance × FileSystem :=
  match m.config.assemble fs true with
  | .error fault => (.error fault, m, fs)
  | .ok w =>
    let rebuild : StateM World Health := do
      if m.config.maintenance.rebuildOnStart then
        match ← World.step (.execute (.rebuild none)) with
        | .outcome (.error _) => return .degraded
        | _ => return .healthy
      else return .healthy
    let (health, w) := rebuild.run w
    let ((), w) := m.work.run w
    (.ok (), { m with index := some w, health, running := true }, w.files)

def enqueue (task : Task) (fs : FileSystem) :
    Option (Except Fault Unit) × Maintenance × FileSystem :=
  m.onIndex (do
    match (← get).queue.enqueue task with
    | .error fault => return .error fault
    | .ok queue =>
      modify ({ · with queue })
      m.work
      return .ok ()) fs

def shutdown : Maintenance :=
  let shut (w : World) : World := { w with queue := .shut }
  { m with stopping := true, index := m.index.map shut }

def stop : Maintenance := { m.shutdown with health := .stopped, running := false }

def run (fs : FileSystem) : Except SetupFault Unit × Maintenance × FileSystem :=
  match m.start fs with
  | (.error fault, m, fs) => (.error fault, m, fs)
  | (.ok (), m, fs) => (.ok (), m.stop, fs)

end Maintenance

end ClaimIndex
