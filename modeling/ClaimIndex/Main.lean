import ClaimIndex.CommandLine.Run
import Std.Time.DateTime.Timestamp

namespace ClaimIndex.Program

def now : IO Int := return (← Std.Time.Timestamp.now).toNanosecondsSinceUnixEpoch.val

def fetch (fs : FileSystem) (path : String) : IO FileSystem := do
  try
    let place ← IO.FS.realPath path
    if ← place.isDir then return (fs.createDirectories path).2
    let content ← IO.FS.readBinFile path
    let time := (← place.metadata).modified
    let fs := (fs.createDirectories (FileSystem.parent path)).2
    let made := fs.write path content.toList
    return (made.toOption.getD fs).setModified path (time.sec * 1000000000 + time.nsec.toNat)
  catch _ => return fs

def fetchAll (paths : List String) : IO FileSystem := do
  paths.foldlM fetch { now := ← now }

def store (before after : FileSystem) (path : String) : IO Unit := do
  match before.read path, after.read path with
  | .ok old, .ok new => if old ≠ new then replace new
  | .error _, .ok new => replace new
  | .ok _, .error .notFound => IO.FS.removeFile path
  | _, .error _ => return
where
  replace (content : Bytes) : IO Unit := do
    let parent := FileSystem.parent path
    unless parent = "" do IO.FS.createDirAll parent
    let draft := path ++ ".tmp"
    IO.FS.writeBinFile draft ⟨content.toArray⟩
    IO.FS.rename draft path

def wait : (seconds : Nat) → IO Unit
  | 0 => return
  | seconds + 1 => do
    IO.sleep 1000
    wait seconds

partial def serve (m : Maintenance) : IO Unit := do
  match m.config.rebuildInterval with
  | none =>
    wait 3600
    serve m
  | some interval =>
    wait interval.seconds.toNat
    let paths := [m.config.storage.path, m.config.lock.path]
    let before ← fetchAll paths
    let (_, m, after) := m.enqueue (.rebuild none) before
    paths.forM (store before after)
    serve m

def run (args : List String) : IO UInt32 := do
  let paths ← match CommandLine.Arguments.read args with
    | .error _ => pure []
    | .ok a => pure (a.reads (← fetchAll [a.configPath]))
  let before ← fetchAll paths
  let outcome := CommandLine.execute args before
  paths.forM (store before outcome.files)
  outcome.output.forM IO.println
  if let some message := outcome.error then IO.eprintln ("Error: " ++ message)
  if let some m := outcome.process then serve m
  return .ofNat (outcome.exit.getD 134)

end ClaimIndex.Program

def main (args : List String) : IO UInt32 := ClaimIndex.Program.run args
