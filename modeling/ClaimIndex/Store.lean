import ClaimIndex.Store.File
import ClaimIndex.Store.Memory

namespace ClaimIndex

inductive Store
  | memory (store : MemoryStore)
  /-- A memory store that answers for one key by reading the whole snapshot. -/
  | whole (store : MemoryStore)
  | file (store : FileStore)

namespace Store

variable (s : Store) (fs : FileSystem)

def read (latest : Bool) : Except Fault Snapshot × Store :=
  match s with
  | memory m | whole m => (.ok (m.read latest), s)
  | file f =>
    let (answer, f) := f.read fs latest
    (answer, file f)

def get (k : Key) : Except Fault (Option Claimants) × Store :=
  match s with
  | memory m => (.ok (m.get k), s)
  | whole _ | file _ =>
    let (answer, s) := s.read fs false
    (answer.map (·[k]?), s)

def write (new : Snapshot) (c : Changes) : Except Fault Unit × Store × FileSystem :=
  match s with
  | memory m => (.ok (), memory (m.write new c), fs)
  | whole m => (.ok (), whole (m.write new c), fs)
  | file f =>
    let (answer, f, fs) := f.write fs new
    (answer, file f, fs)

def sync : Store → Store
  | memory m => memory m.sync
  | whole m => whole m.sync
  | file f => file f

end Store

end ClaimIndex
