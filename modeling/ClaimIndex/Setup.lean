import ClaimIndex.Config.Form
import ClaimIndex.Group.Definitions
import ClaimIndex.World.Operation

namespace ClaimIndex

/-- Why there is no index to work with.  Only the outermost reason is told. -/
inductive SetupFault
  | configUnreadable (path : String)
  | configMalformed
  | configInconsistent (violation : Config.Violation)
  | configInvalid
  | groupsUnreadable (path : String)
  | groupsMalformed
  | groupsFaulty (fault : Definitions.Fault)
  | groupsInvalid (path : String)
  | storageUnsupported (backend : String)
  | lockUnsupported (backend : String)
  | cacheUnaddressable
  /-- The table of the lookup cache does not fit the memory of a program. -/
  | cacheUnaffordable
  deriving DecidableEq

def SetupFault.message : SetupFault → String
  | configUnreadable path => "failed to read config file: " ++ path
  | configMalformed => "failed to parse config"
  | configInconsistent violation => violation.message
  | configInvalid => "invalid configuration"
  | groupsUnreadable path => "failed to read group definitions: " ++ path
  | groupsMalformed => "failed to parse group definitions"
  | groupsFaulty fault => fault.message
  | groupsInvalid path => "invalid group definitions: " ++ path
  | storageUnsupported backend => "unsupported storage backend: " ++ backend
  | lockUnsupported backend => "unsupported lock backend: " ++ backend
  | cacheUnaddressable => "Hash table capacity overflow"
  | cacheUnaffordable => "memory allocation failed"

namespace Definitions

def read (s : String) : Except SetupFault (List Group) :=
  match Toml.read? s >>= ofDatum? .ignored with
  | none => .error .groupsMalformed
  | some d =>
    match d.groups with
    | .error fault => .error (.groupsFaulty fault)
    | .ok groups => .ok groups

def load (fs : FileSystem) (path : String) : Except SetupFault (List Group) :=
  match fs.readText path with
  | .error _ => .error (.groupsUnreadable path)
  | .ok s =>
    match read s with
    | .error _ => .error (.groupsInvalid path)
    | .ok groups => .ok groups

end Definitions

namespace Config

def check (c : Config) : Except SetupFault Config :=
  match c.violation? with
  | some violation => .error (.configInconsistent violation)
  | none => .ok c

def read (s : String) : Except SetupFault Config :=
  match ofToml? s with
  | none => .error .configMalformed
  | some c => c.check

def load (fs : FileSystem) (path : String) : Except SetupFault Config :=
  match fs.readText path with
  | .error _ => .error (.configUnreadable path)
  | .ok s => read s

def effective (fs : FileSystem) (path : String) (o : Overrides) : Except SetupFault Config := do
  let c ← if fs.exists? path then load fs path else pure {}
  (c.override o).check

variable (c : Config) (fs : FileSystem)

/-- The groups of the definitions file.  Readers can do without it, but a rebuild without groups
would delete every key. -/
def registry (required : Bool) : Except SetupFault (List Group) :=
  if !required && !fs.exists? c.groups.definitions then .ok []
  else Definitions.load fs c.groups.definitions

def openStore : Except SetupFault Store :=
  match c.storage.backend with
  | "memory" => .ok (.memory {})
  | "file" => .ok (.file { path := c.storage.path })
  | backend => .error (.storageUnsupported backend)

def openLock : Except SetupFault ClaimIndex.Lock :=
  match c.lock.backend with
  | "memory" => .ok (.memory false)
  | "file" =>
    .ok (.file { path := c.lock.path, timeout := c.lockTimeout, staleAfter := c.staleAfter })
  | backend => .error (.lockUnsupported backend)

def openCache : Except SetupFault Cache :=
  let capacity := c.settings.capacity
  if Cache.addressable < capacity then .error .cacheUnaddressable
  else if Cache.affordable < capacity then .error .cacheUnaffordable
  else .ok (.new capacity)

def openIndex (registry : List Group) : Except SetupFault World := do
  let store ← c.openStore
  let lock ← c.openLock
  let cache ← c.openCache
  return { settings := c.settings, clock := (Span.ofNanos fs.now.toNat).toNumber,
           registry, store, lock, cache, files := fs }

def assemble (required : Bool) : Except SetupFault World := do
  c.openIndex fs (← c.registry fs required)

end Config

end ClaimIndex
