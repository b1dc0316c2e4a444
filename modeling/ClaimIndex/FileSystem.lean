import ClaimIndex.FileSystem.Path
import Std.Data.ExtTreeMap

/-! A tree of files.  Paths lead from its root; everything in it remembers when it was last
changed, in nanoseconds of the tree's own clock. -/

namespace ClaimIndex

abbrev Bytes := List UInt8

def Bytes.ofString (s : String) : Bytes := s.toUTF8.data.toList

def Bytes.toString? (b : Bytes) : Option String := String.fromUTF8? ⟨b.toArray⟩

inductive IoFault
  | notFound
  | alreadyExists
  | notADirectory
  | isADirectory
  | nameTooLong
  | nullInPath
  | notUtf8
  deriving DecidableEq

def IoFault.message : IoFault → String
  | notFound => "No such file or directory (os error 2)"
  | alreadyExists => "File exists (os error 17)"
  | notADirectory => "Not a directory (os error 20)"
  | isADirectory => "Is a directory (os error 21)"
  | nameTooLong => "File name too long (os error 36)"
  | nullInPath => "file name contained an unexpected NUL byte"
  | notUtf8 => "stream did not contain valid UTF-8"

namespace FileSystem

inductive Node
  | file (content : Bytes)
  | directory

structure Entry where
  node : Node
  modified : Int

def checkPath (path : String) : Except IoFault Unit :=
  if path.toList.contains '\x00' then .error .nullInPath
  else if path.utf8ByteSize ≤ maxPath then .ok ()
  else .error .nameTooLong

def checkName (name : String) : Except IoFault Unit :=
  if name.utf8ByteSize ≤ maxName then .ok () else .error .nameTooLong

end FileSystem

structure FileSystem where
  now : Int := 0
  rootModified : Int := now
  entries : Std.ExtTreeMap (List String) FileSystem.Entry := ∅

namespace FileSystem

variable (fs : FileSystem)

def wait (nanos : Nat) : FileSystem := { fs with now := fs.now + nanos }

def entry? : List String → Option Entry
  | [] => some ⟨.directory, fs.rootModified⟩
  | names => fs.entries[names]?

def node? (names : List String) : Option Node := (fs.entry? names).map Entry.node

def checkDirectory (names : List String) : Except IoFault Unit :=
  match fs.node? names with
  | none => .error .notFound
  | some (.file _) => .error .notADirectory
  | some .directory => .ok ()

/-- The names a path leads to.  Every part of a path starts from a directory that is there; an
empty path leads nowhere. -/
def locate (path : String) : Except IoFault (List String) := do
  checkPath path
  if path = "" then throw .notFound
  (components path).foldlM
    (fun names part => do
      fs.checkDirectory names
      checkName part
      return advance names part) []

def locateFile (path : String) : Except IoFault (List String) :=
  if endsOpen path then .error .isADirectory else fs.locate path

def find? (path : String) : Option Entry := (fs.locate path).toOption >>= fs.entry?

def exists? (path : String) : Bool := (fs.find? path).isSome

def read (path : String) : Except IoFault Bytes := do
  let names ← fs.locate path
  match fs.node? names with
  | none => .error .notFound
  | some .directory => .error .isADirectory
  | some (.file content) => .ok content

def readText (path : String) : Except IoFault String := do
  match (← fs.read path).toString? with
  | none => .error .notUtf8
  | some text => .ok text

def touch (time : Int) : List String → FileSystem
  | [] => { fs with rootModified := time }
  | names => { fs with entries := fs.entries.modify names ({ · with modified := time }) }

def touchParent (names : List String) : FileSystem := fs.touch fs.now names.dropLast

def set (names : List String) (entry : Entry) : FileSystem :=
  { fs with entries := fs.entries.insert names entry }

def erase (names : List String) : FileSystem := { fs with entries := fs.entries.erase names }

def put (names : List String) (node : Node) : FileSystem :=
  let fs := if (fs.node? names).isSome then fs else fs.touchParent names
  fs.set names ⟨node, fs.now⟩

def write (path : String) (content : Bytes) : Except IoFault FileSystem := do
  let names ← fs.locateFile path
  match fs.node? names with
  | some .directory => .error .isADirectory
  | _ => .ok (fs.put names (.file content))

def create (path : String) (content : Bytes) : Except IoFault FileSystem := do
  let names ← fs.locateFile path
  match fs.node? names with
  | some _ => .error .alreadyExists
  | none => .ok (fs.put names (.file content))

def remove (path : String) : Except IoFault FileSystem := do
  let names ← fs.locate path
  match fs.node? names with
  | none => .error .notFound
  | some .directory => .error .isADirectory
  | some (.file _) => .ok ((fs.erase names).touchParent names)

def rename (source target : String) : Except IoFault FileSystem := do
  let names ← fs.locate source
  let place ← fs.locate target
  match fs.entries[names]?, fs.node? place with
  | none, _ => .error .notFound
  | some _, some .directory => .error .isADirectory
  | some entry, _ =>
    .ok ((((fs.erase names).touchParent names).set place entry).touchParent place)

def createAlong (fs : FileSystem) (names : List String) :
    List String → Except IoFault Unit × FileSystem
  | [] => (.ok (), fs)
  | part :: rest =>
    let place := advance names part
    match fs.node? place with
    | some .directory => createAlong fs place rest
    | some (.file _) => (.error .notADirectory, fs)
    | none =>
      match checkName part with
      | .error fault => (.error fault, fs)
      | .ok () => createAlong (fs.put place .directory) place rest

/-- Create a directory and those before it, as far as they are missing.  What was created stays
if a later part cannot be. -/
def createDirectories (path : String) : Except IoFault Unit × FileSystem :=
  match checkPath path with
  | .error fault => (.error fault, fs)
  | .ok () => createAlong fs [] (parts path)

def setModified (path : String) (time : Int) : FileSystem :=
  match fs.locate path with
  | .error _ => fs
  | .ok names => fs.touch time names

end FileSystem

end ClaimIndex
