import ClaimIndex.Metrics.Basic
import ClaimIndex.Time

namespace ClaimIndex

inductive LookupSource
  | filtered
  | cache
  | overlay
  | store
  | degraded
  deriving DecidableEq

namespace Metrics

namespace Name

def rebuilds := "msgindex.rebuild.total"
def failures := "msgindex.rebuild.failures_total"
def skipped := "msgindex.rebuild.skipped_total"
def lockUnavailable := "msgindex.rebuild.lock_unavailable_total"
def lockWait := "msgindex.rebuild.lock_wait_seconds"
def criticalSection := "msgindex.rebuild.critical_section_seconds"
def snapshotKeys := "msgindex.rebuild.snapshot_keys"
def snapshotConflicts := "msgindex.rebuild.snapshot_conflicts"
def lastLockWait := "msgindex.rebuild.last_lock_wait_ms"
def lastCriticalSection := "msgindex.rebuild.last_critical_section_ms"
def conflicts := "msgindex.rebuild.conflicts_total"
def followUps := "msgindex.rebuild.followups_total"
def changedKeys := "msgindex.rebuild.changed_keys_total"
def sideEffectFailures := "msgindex.rebuild.side_effect_failures_total"
def lookups := "msgindex.lookup.total"
def cacheHits := "msgindex.lookup.cache_hits_total"
def overlayHits := "msgindex.lookup.interim_hits_total"
def lookupErrors := "msgindex.lookup.errors_total"
def merges := "msgindex.interim.merges_total"
def purges := "msgindex.interim.purges_total"
def retained := "msgindex.interim.retained_total"

end Name

inductive Event
  | rebuilt (keys conflicts changed : Nat) (wait critical : Span)
  | failed
  | skipped
  | lockUnavailable
  | conflicts (count : Nat)
  | followUp
  | sideEffectFailed
  | lookup (source : LookupSource)
  | merged
  | purged
  | retained

def sourceCounter? : LookupSource → Option String
  | .cache => some Name.cacheHits
  | .overlay => some Name.overlayHits
  | .degraded => some Name.lookupErrors
  | .filtered | .store => none

def record (m : Metrics) : Event → Metrics
  | .rebuilt keys conflicts changed wait critical =>
    m.raise Name.rebuilds 1
      |>.set Name.snapshotKeys (.ofNat keys)
      |>.set Name.snapshotConflicts (.ofNat conflicts)
      |>.raise Name.changedKeys (.ofNat changed)
      |>.set Name.lastLockWait (.ofNat wait.toMillis)
      |>.set Name.lastCriticalSection (.ofNat critical.toMillis)
      |>.observe Name.lockWait wait.toNumber
      |>.observe Name.criticalSection critical.toNumber
  | .failed => m.raise Name.failures 1
  | .skipped => m.raise Name.skipped 1
  | .lockUnavailable => m.raise Name.lockUnavailable 1
  | .conflicts count => m.raise Name.conflicts (.ofNat count)
  | .followUp => m.raise Name.followUps 1
  | .sideEffectFailed => m.raise Name.sideEffectFailures 1
  | .lookup source =>
    let m := m.raise Name.lookups 1
    (sourceCounter? source).elim m (m.raise · 1)
  | .merged => m.raise Name.merges 1
  | .purged => m.raise Name.purges 1
  | .retained => m.raise Name.retained 1

end Metrics

end ClaimIndex
