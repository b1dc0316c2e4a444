import ClaimIndex.Cache
import ClaimIndex.Lock
import ClaimIndex.Lookup
import ClaimIndex.Overlay.Slots
import ClaimIndex.Queue
import ClaimIndex.Rebuild
import ClaimIndex.Store

namespace ClaimIndex

structure Notification where
  page : Page
  change : Change
  deriving DecidableEq

inductive Answer
  | nothing
  | flag (b : Bool)
  | number (n : Nat)
  | instant (t : Instant)
  | ids (ids : List GroupId)
  | id (id : Option GroupId)
  | outcome (r : Except Fault Unit)
  | acquired (r : Except Fault Bool)
  | report (r : Except Fault Report)
  | snapshot (r : Except Fault Snapshot)
  | entry (r : Except Fault (Option Overlay.Entry))
  | keys (r : Except Fault (List Key))
  | overlaySize (live : Nat)
  | removed (b : Bool) (left : Nat)
  | tasks (tasks : List Task)
  | executed (results : List (Task × Except Fault Unit))
  | token (name : String) (value : UInt64)
  | log (log : List Notification)
  | metrics (m : Metrics)
  | settings (s : Settings)

structure World where
  settings : Settings := {}
  clock : Instant := .zero
  uptime : Nat := 0
  registry : List Group := []
  store : Store := .memory {}
  slots : Overlay.Slots := ∅
  lock : Lock := .memory false
  tokens : Std.ExtTreeMap String UInt64 := ∅
  queue : TaskQueue := {}
  log : List Notification := []
  cache : Cache := .new settings.capacity
  metrics : Metrics := {}
  running : Bool := false
  files : FileSystem := {}
  failing : List Point := []
  hooks : List (Moment × List Operation) := []
  nested : List (String × Answer) := []
  notices : List Notice := []
  heard : Nat := 0

end ClaimIndex
