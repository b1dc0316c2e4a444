import ClaimIndex.Key

namespace ClaimIndex

structure Cache where
  capacity : Nat
  /-- Most recently used first. -/
  entries : List (Key × List GroupId) := []
  generation : UInt64 := 0

namespace Cache

def new (capacity : Nat) : Cache where
  capacity := max capacity 1

/-- The greatest capacity whose table can be addressed: of its places, 17 bytes each and a power
of two in number, an eighth stays empty, and 2 ^ 58 of them still fit 63 bits. -/
def addressable : Nat := 7 * Nat.pow 2 55

/-- The greatest capacity whose table may fit the 47 bits that one program can use. -/
def affordable : Nat := 7 * Nat.pow 2 39

variable (c : Cache)

def size : Nat := c.entries.length

def isEmpty : Bool := c.entries.isEmpty

def find? (k : Key) : Option (List GroupId) := c.entries.lookup k

def touch (k : Key) (ids : List GroupId) : Cache :=
  { c with entries := (k, ids) :: c.entries.filter (·.1 ≠ k) }

def get (k : Key) : Option (List GroupId) × Cache :=
  match c.find? k with
  | none => (none, c)
  | some ids => (some ids, c.touch k ids)

def put (k : Key) (ids : List GroupId) : Cache :=
  { c.touch k ids with entries := (c.touch k ids).entries.take c.capacity }

def putIf (generation : UInt64) (k : Key) (ids : List GroupId) : Bool × Cache :=
  if c.generation = generation then (true, c.put k ids) else (false, c)

def clear : Cache := { c with entries := [], generation := c.generation + 1 }

def text : String := s!"LookupCache \x7b len: {c.size}, capacity: {c.capacity} \x7d"

end Cache

end ClaimIndex
