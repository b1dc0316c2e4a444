import ClaimIndex.Difference

namespace ClaimIndex

inductive Level
  | warning
  | error
  deriving DecidableEq

def Level.text : Level → String
  | warning => "WARN"
  | error => "ERROR"

inductive SideEffect
  | touchToken
  | reconcileOverlay
  | enqueueFollowUp
  | enqueueRefresh
  deriving DecidableEq

def SideEffect.text : SideEffect → String
  | touchToken => "touch invalidation token"
  | reconcileOverlay => "reconcile interim overlay"
  | enqueueFollowUp => "enqueue follow-up rebuild"
  | enqueueRefresh => "enqueue group statistics refresh"

def ChangeKind.text : ChangeKind → String
  | added => "Add"
  | removed => "Del"
  | modified => "Mod"

inductive Notice
  | nestedRebuild
  | groupMissing (group : GroupId)
  | conflict (key : Key) (claimant : GroupId)
  | noPage (key : Key) (kind : ChangeKind)
  | lockNotReleased
  | sideEffectFailed (step : SideEffect)
  | overlayLookupFailed (key : Key)
  | storeLookupFailed (key : Key)
  deriving DecidableEq

namespace Notice

def level : Notice → Level
  | nestedRebuild | groupMissing _ | conflict .. | noPage .. => .warning
  | lockNotReleased | sideEffectFailed _ | overlayLookupFailed _ | storeLookupFailed _ => .error

def message : Notice → String
  | nestedRebuild => "rebuild requested while one is already running on this thread, skipping"
  | groupMissing _ => "group does not exist, skipping"
  | conflict .. => "message key claimed by more than one group"
  | noPage .. => "changed key has no page identity, not notified"
  | lockNotReleased => "failed to release index lock"
  | sideEffectFailed _ => "post-commit step failed"
  | overlayLookupFailed _ => "interim overlay lookup failed"
  | storeLookupFailed _ => "index store lookup failed"

def fields : Notice → List (String × String)
  | nestedRebuild | lockNotReleased => []
  | groupMissing group => [("group", group)]
  | conflict key claimant => [("key", key.text), ("claimant", claimant)]
  | noPage key kind => [("key", key.text), ("kind", kind.text)]
  | sideEffectFailed step => [("step", step.text)]
  | overlayLookupFailed key | storeLookupFailed key => [("key", key.text)]

end Notice

end ClaimIndex
