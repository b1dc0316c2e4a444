import ClaimIndex.Overlay.Entry

namespace ClaimIndex.Overlay

structure Slot where
  entry : Entry
  expiry : Instant

def Slot.expired (s : Slot) (now : Instant) : Bool := s.expiry ≤ now

abbrev Slots := Std.ExtTreeMap String Slot

namespace Slots

/-- The entry of a live slot; an expired slot is removed on the way. -/
def get (s : Slots) (name : String) (now : Instant) : Option Entry × Slots :=
  match s[name]? with
  | none => (none, s)
  | some slot => if slot.expired now then (none, s.erase name) else (some slot.entry, s)

def set (s : Slots) (name : String) (entry : Entry) (ttl : Span) (now : Instant) : Slots :=
  s.insert name ⟨entry, now.after ttl⟩

def delete (s : Slots) (name : String) : Slots := s.erase name

def deleteIf (s : Slots) (name : String) (stamp now : Instant) : Bool × Slots :=
  match s[name]? with
  | none => (false, s)
  | some slot =>
    if !slot.expired now && slot.entry.stamp.equals stamp then (true, s.erase name)
    else (false, s)

def live (s : Slots) (now : Instant) : Nat := s.values.countP (!·.expired now)

end Slots

end ClaimIndex.Overlay
