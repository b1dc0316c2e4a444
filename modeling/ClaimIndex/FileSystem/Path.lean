namespace ClaimIndex.FileSystem

def maxName : Nat := 255

def maxPath : Nat := 4095

def advance (names : List String) (part : String) : List String :=
  if part = "" ∨ part = "." then names
  else if part = ".." then names.dropLast
  else names ++ [part]

def components (path : String) : List String := (path.toList.splitOn '/').map String.ofList

def parts (path : String) : List String :=
  (components path).filter fun part => part ≠ "" && part ≠ "."

def join (path : String) (parts : List String) : String :=
  (if path.startsWith "/" then "/" else "") ++ "/".intercalate parts

def parent (path : String) : String := join path (parts path).dropLast

def sibling (path ending : String) : String :=
  match (parts path).getLast? with
  | none | some ".." => path ++ "/" ++ ending
  | some name => join path ((parts path).dropLast ++ [name ++ ending])

def endsOpen (path : String) : Bool :=
  path.endsWith "/" &&
    ((components path).filter (· ≠ "")).getLast?.any fun name => name ≠ "." && name ≠ ".."

end ClaimIndex.FileSystem
