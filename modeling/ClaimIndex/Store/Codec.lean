import ClaimIndex.FileSystem
import ClaimIndex.Snapshot

/-! Snapshots as bytes.  Numbers are little-endian with fixed width; texts and lists stand
behind their length; entries are a key and a list of ids; a version comes first. -/

namespace ClaimIndex.Codec

def version : Nat := 1

def natural : (width n : Nat) → Bytes
  | 0, _ => []
  | width + 1, n => .ofNat n :: natural width (n / 256)

def text (s : String) : Bytes :=
  let bytes := Bytes.ofString s
  natural 8 bytes.length ++ bytes

def list {α : Type} (item : α → Bytes) (as : List α) : Bytes :=
  natural 8 as.length ++ as.flatMap item

def entry (e : Key × Claimants) : Bytes := text e.1.text ++ list text e.2.ids

def encode (entries : List (Key × Claimants)) : Bytes := natural 4 version ++ list entry entries

abbrev Reader (α : Type) := StateT Bytes (Except String) α

def ending : String := "unexpected end of file"

def natural? : (width : Nat) → Reader Nat
  | 0 => return 0
  | width + 1 => do
    let b :: rest ← get | throw ending
    set rest
    return b.toNat + 256 * (← natural? width)

def take? (count : Nat) : Reader Bytes := do
  let bytes ← get
  if bytes.length < count then throw ending
  set (bytes.drop count)
  return bytes.take count

def text? : Reader String := do
  let bytes ← take? (← natural? 8)
  match bytes.toString? with
  | none => throw "invalid utf-8 sequence"
  | some s => return s

def items? {α : Type} (item : Reader α) : (count : Nat) → Reader (List α)
  | 0 => return []
  | count + 1 => return (← item) :: (← items? item count)

def list? {α : Type} (item : Reader α) : Reader (List α) := do items? item (← natural? 8)

def entry? : Reader (Key × Claimants) := do
  let key ← text?
  match Claimants.ofList (← list? text?) with
  | .error fault => throw fault.message
  | .ok claimants => return (⟨key⟩, claimants)

/-- The version and the snapshot; a later entry of a key replaces an earlier one and bytes after
the last entry are ignored. -/
def decode (bytes : Bytes) : Except String (Nat × Snapshot) := do
  let read : Reader (Nat × Snapshot) := do
    let version ← natural? 4
    return (version, .ofList (← list? entry?))
  return (← read.run bytes).1

end ClaimIndex.Codec
