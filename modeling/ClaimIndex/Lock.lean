import ClaimIndex.Fault
import ClaimIndex.FileSystem
import ClaimIndex.Time

/-! The lock that keeps rebuilds apart: a flag, or a file that only one holder can create.  A
lock file older than a limit belongs to a holder that is gone, and is broken. -/

namespace ClaimIndex

structure FileLock where
  path : String
  timeout : Span
  staleAfter : Span
  interval : Span := .ofMillis 50
  owner : Nat := 1

namespace FileLock

variable (l : FileLock)

def create (fs : FileSystem) : Except IoFault FileSystem :=
  fs.create l.path (Bytes.ofString (toString l.owner ++ "\n"))

/-- A lock file is stale once its age exceeds the limit; one from the future is not. -/
def isStale (fs : FileSystem) : Bool :=
  match fs.find? l.path with
  | none => false
  | some entry => entry.modified + l.staleAfter.toNanos < fs.now

def attempt (fs : FileSystem) : Except Fault Bool × FileSystem :=
  match l.create fs with
  | .ok fs => (.ok true, fs)
  | .error .alreadyExists =>
    if l.isStale fs then
      match fs.remove l.path with
      | .error fault => (.error (.lock ("failed to break stale lock: " ++ fault.message)), fs)
      | .ok fs =>
        match l.create fs with
        | .ok fs => (.ok true, fs)
        | .error fault => (.error (.io fault.message), fs)
    else (.ok false, fs)
  | .error fault => (.error (.io fault.message), fs)

/-- Try, and after a failure try `n` times more, an interval apart. -/
def retry : (n : Nat) → FileSystem → Except Fault Bool × FileSystem
  | 0, fs => l.attempt fs
  | n + 1, fs =>
    match l.attempt fs with
    | (.ok false, fs) => retry n (fs.wait l.interval.toNanos)
    | done => done

def retries : Nat := (l.timeout.toNanos + (l.interval.toNanos - 1)) / max l.interval.toNanos 1

def acquire (fs : FileSystem) : Except Fault Bool × FileSystem :=
  match fs.createDirectories (FileSystem.parent l.path) with
  | (.error fault, fs) => (.error (.io fault.message), fs)
  | (.ok (), fs) => l.retry l.retries fs

def release (fs : FileSystem) : Except Fault Unit × FileSystem :=
  match fs.remove l.path with
  | .ok fs => (.ok (), fs)
  | .error .notFound => (.ok (), fs)
  | .error fault => (.error (.io fault.message), fs)

end FileLock

inductive Lock
  | memory (held : Bool)
  | file (lock : FileLock)

namespace Lock

def acquire (l : Lock) (fs : FileSystem) : Except Fault Bool × Lock × FileSystem :=
  match l with
  | memory held => (.ok !held, memory true, fs)
  | file f =>
    let (answer, fs) := f.acquire fs
    (answer, file f, fs)

def release (l : Lock) (fs : FileSystem) : Except Fault Unit × Lock × FileSystem :=
  match l with
  | memory _ => (.ok (), memory false, fs)
  | file f =>
    let (answer, fs) := f.release fs
    (answer, file f, fs)

def isHeld (l : Lock) (fs : FileSystem) : Bool :=
  match l with
  | memory held => held
  | file f => fs.exists? f.path

end Lock

end ClaimIndex
