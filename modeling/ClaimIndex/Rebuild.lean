import ClaimIndex.Overlay
import ClaimIndex.Rebuild.Build

/-! A full rebuild: every registered group is enumerated into a new snapshot, which is published
under the lock.  Nothing is written before the whole snapshot is there, and what comes after the
write belongs to a committed snapshot, so its failures are reported and do not fail the rebuild.
A rebuild asked for while one runs is skipped. -/

namespace ClaimIndex

structure Report where
  snapshot : Snapshot := ∅
  difference : Difference := {}
  conflicts : List Conflict := []
  lockWait : Span := .zero
  criticalSection : Span := .zero
  purge : Option Instant := none
  overlay : Option Overlay.Outcome := none
  skipped : Bool := false

namespace Report

def reported (r : Report) : List Conflict := r.conflicts.filter (!·.ignored)

def isRetained (r : Report) : Bool := r.overlay matches some (.retained _)

end Report

namespace Rebuild

open Proc (ask)

/-- Rounds in which the overlay may change under a rebuild's eyes. -/
def rounds : Nat := 4294967296

structure Commit where
  build : Build
  difference : Difference

def publish : Attempt Commit := do
  let old ← ExceptT.mk (ask (.readStore true))
  let build ← Build.ofGroups (← ask .groups)
  let difference := old.diff build.snapshot
  ExceptT.mk (ask (.writeStore build.snapshot difference.changes))
  return ⟨build, difference⟩

def sideEffectFailed (step : SideEffect) : Proc Unit := do
  ask (.record .sideEffectFailed)
  ask (.report (.sideEffectFailed step))

def enqueue (task : Task) (step : SideEffect) (done : Proc Unit) : Proc Unit := do
  match ← ask (.enqueue task) with
  | .ok _ => done
  | .error _ => sideEffectFailed step

def reconcile (purge : Instant) : Proc (Option Overlay.Outcome) := do
  match ← (Overlay.reconcile purge rounds).run with
  | .error _ =>
    sideEffectFailed .reconcileOverlay
    return none
  | .ok outcome =>
    match outcome with
    | some (.purged _) => ask (.record .purged)
    | some (.retained _) =>
      ask (.record .retained)
      enqueue (.rebuild none) .enqueueFollowUp (ask (.record .followUp))
    | some .empty | none => pure ()
    return outcome

def notify : ChangeKind × Key × Change → Proc Unit
  | (kind, key, change) =>
    match key.page? with
    | some page => ask (.notify page change)
    | none => ask (.report (.noPage key kind))

def afterCommit (s : Settings) (difference : Difference) (purge : Instant) :
    Proc (Option Overlay.Outcome) := do
  if let .error _ ← ask (.touch s.token) then sideEffectFailed .touchToken
  let outcome ← reconcile purge
  difference.changes.toList.forM notify
  unless difference.touched.isEmpty do
    enqueue (.refreshStatistics difference.touched) .enqueueRefresh (pure ())
  return outcome

def run (s : Settings) (purge : Option Instant) : Proc (Except Fault Report) := do
  let asked ← ask .uptime
  match ← ask .acquire with
  | .error fault => return .error fault
  | .ok false =>
    let waited := Span.ofNanos ((← ask .uptime) - asked)
    ask (.record .lockUnavailable)
    return .error (.lockUnavailable s.name waited.toMillis)
  | .ok true =>
    let entered ← ask .uptime
    let start ← ask .now
    ask .clearCache
    match ← publish.run with
    | .error fault =>
      if let .error _ ← ask .release then ask (.report .lockNotReleased)
      return .error fault
    | .ok commit =>
      if let .error _ ← ask .release then
        ask (.report .lockNotReleased)
        ask (.record .sideEffectFailed)
      let left ← ask .uptime
      -- a lookup during the critical section may have cached what held before the commit
      ask .clearCache
      let purge := purge.getD start
      let overlay ← afterCommit s commit.difference purge
      let report : Report := {
        snapshot := commit.build.snapshot
        difference := commit.difference
        conflicts := commit.build.conflicts
        lockWait := .ofNanos (entered - asked)
        criticalSection := .ofNanos (left - entered)
        purge := some purge
        overlay }
      ask (.record (.conflicts report.reported.length))
      ask (.record (.rebuilt report.snapshot.size report.snapshot.conflictCount
        report.difference.changes.size report.lockWait report.criticalSection))
      return .ok report

/-- Rebuild, unless a rebuild is running already.  `purge` bounds which overlay entry may be
dropped; without it the start of the rebuild does. -/
def start (s : Settings) (purge : Option Instant) : Proc (Except Fault Report) := do
  if ← ask .enter then
    let result ← run s purge
    if let .error _ := result then ask (.record .failed)
    ask .leave
    return result
  else
    ask (.report .nestedRebuild)
    ask (.record .skipped)
    return .ok { skipped := true }

end Rebuild

/-- Carry out a queued task.  Statistics are kept elsewhere, so their refresh asks nothing of the
index. -/
def Task.execute (s : Settings) : Task → Proc (Except Fault Unit)
  | rebuild purge => return (← Rebuild.start s purge).map fun _ => ()
  | refreshStatistics _ => return .ok ()

end ClaimIndex
