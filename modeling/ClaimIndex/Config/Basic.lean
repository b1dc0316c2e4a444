import ClaimIndex.Settings
import ClaimIndex.Text.Blank

namespace ClaimIndex

namespace Config

structure Index where
  name : String := "message-index"
  lookupCacheCapacity : UInt64 := 30
  interimTtlSeconds : UInt64 := 86400
  messageNamespaces : List Namespace := []

structure Storage where
  backend : String := "file"
  path : String := "data/message-index.bin"

structure Lock where
  backend : String := "file"
  path : String := "data/message-index.lock"
  timeoutMs : UInt64 := 5000
  staleAfterMs : UInt64 := 300000

structure Groups where
  definitions : String := "config/groups.toml"

structure Maintenance where
  rebuildOnStart : Bool := true
  rebuildIntervalSeconds : UInt64 := 0

structure Telemetry where
  logLevel : String := "info"

end Config

structure Config where
  index : Config.Index := {}
  storage : Config.Storage := {}
  lock : Config.Lock := {}
  groups : Config.Groups := {}
  maintenance : Config.Maintenance := {}
  telemetry : Config.Telemetry := {}

namespace Config

structure Overrides where
  logLevel : Option String := none
  storagePath : Option String := none

variable (c : Config)

def override (o : Overrides) : Config :=
  { c with
    telemetry := { c.telemetry with logLevel := o.logLevel.getD c.telemetry.logLevel }
    storage := { c.storage with path := o.storagePath.getD c.storage.path } }

def interimTtl : Span := .ofSeconds c.index.interimTtlSeconds

def lockTimeout : Span := .ofMillis c.lock.timeoutMs

def staleAfter : Span := .ofMillis c.lock.staleAfterMs

def rebuildInterval : Option Span :=
  if c.maintenance.rebuildIntervalSeconds = 0 then none
  else some (.ofSeconds c.maintenance.rebuildIntervalSeconds)

def settings : Settings where
  name := c.index.name
  capacity := c.index.lookupCacheCapacity.toNat
  ttl := c.interimTtl
  namespaces := c.index.messageNamespaces

def backends : List String := ["memory", "file"]

def logLevels : List String := ["trace", "debug", "info", "warn", "error"]

inductive Violation
  | emptyName
  | noCapacity
  | noTtl
  | storageBackend (got : String)
  | lockBackend (got : String)
  | staleBeforeTimeout (staleAfter timeout : UInt64)
  | logLevel (got : String)
  deriving DecidableEq

def choice (words : List String) : String :=
  "[" ++ ", ".intercalate (words.map fun w => "\"" ++ w ++ "\"") ++ "]"

def Violation.message : Violation → String
  | emptyName => "index.name must not be empty"
  | noCapacity => "index.lookup_cache_capacity must be > 0"
  | noTtl => "index.interim_ttl_seconds must be > 0"
  | storageBackend got => s!"storage.backend must be one of {choice backends}, got: {got}"
  | lockBackend got => s!"lock.backend must be one of {choice backends}, got: {got}"
  | staleBeforeTimeout stale timeout =>
    s!"lock.stale_after_ms ({stale.toNat}) must exceed lock.timeout_ms ({timeout.toNat})"
  | logLevel got => s!"telemetry.log_level must be one of {choice logLevels}, got: {got}"

def violation? : Option Violation :=
  if Blank.only c.index.name then some .emptyName
  else if c.index.lookupCacheCapacity = 0 then some .noCapacity
  else if c.index.interimTtlSeconds = 0 then some .noTtl
  else if c.storage.backend ∉ backends then some (.storageBackend c.storage.backend)
  else if c.lock.backend ∉ backends then some (.lockBackend c.lock.backend)
  else if c.lock.backend = "file" ∧ c.lock.staleAfterMs ≤ c.lock.timeoutMs then
    some (.staleBeforeTimeout c.lock.staleAfterMs c.lock.timeoutMs)
  else if c.telemetry.logLevel ∉ logLevels then some (.logLevel c.telemetry.logLevel)
  else none

end Config

end ClaimIndex
