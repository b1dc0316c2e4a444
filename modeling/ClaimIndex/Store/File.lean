import ClaimIndex.Difference
import ClaimIndex.Store.Codec

namespace ClaimIndex

structure FileStore where
  path : String
  copy : Option Snapshot := none

namespace FileStore

variable (f : FileStore)

/-- Writes go to a sibling first. -/
def temporary : String := FileSystem.sibling f.path ".tmp"

def decodeFault (detail : String) : Fault :=
  .storage s!"failed to decode snapshot {f.path}: {detail}"

def versionFault (version : Nat) : Fault :=
  .storage s!"snapshot {f.path} has format version {version}, expected {Codec.version}"

/-- What the file holds; no file holds the empty snapshot. -/
def load (fs : FileSystem) : Except Fault Snapshot :=
  if fs.exists? f.path then
    match fs.read f.path with
    | .error fault => .error (.io fault.message)
    | .ok bytes =>
      match Codec.decode bytes with
      | .error detail => .error (f.decodeFault detail)
      | .ok (version, s) =>
        if version = Codec.version then .ok s else .error (f.versionFault version)
  else .ok ∅

def read (fs : FileSystem) (latest : Bool) : Except Fault Snapshot × FileStore :=
  match latest, f.copy with
  | false, some s => (.ok s, f)
  | _, _ =>
    match f.load fs with
    | .ok s => (.ok s, { f with copy := some s })
    | .error fault => (.error fault, f)

/-- The file system after each step that succeeded, and the first fault. -/
def publish (fs : FileSystem) (bytes : Bytes) : Except IoFault Unit × FileSystem :=
  match fs.createDirectories (FileSystem.parent f.path) with
  | (.error fault, fs) => (.error fault, fs)
  | (.ok (), fs) =>
    match fs.write f.temporary bytes with
    | .error fault => (.error fault, fs)
    | .ok fs =>
      match fs.rename f.temporary f.path with
      | .error fault => (.error fault, fs)
      | .ok fs => (.ok (), fs)

def write (fs : FileSystem) (s : Snapshot) : Except Fault Unit × FileStore × FileSystem :=
  match f.publish fs (Codec.encode s.toList) with
  | (.error fault, fs) => (.error (.io fault.message), f, fs)
  | (.ok (), fs) => (.ok (), { f with copy := some s }, fs)

end FileStore

end ClaimIndex
