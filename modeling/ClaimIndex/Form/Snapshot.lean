import ClaimIndex.Datum.Decode
import ClaimIndex.Notice

namespace ClaimIndex

open Datum (asText asList asMap)

def GroupId.toDatum (id : GroupId) : Datum := .text id

def GroupId.listToDatum (ids : List GroupId) : Datum := .list (ids.map GroupId.toDatum)

namespace Claimants

def ofDatum? (d : Datum) : Option Claimants := do (ofList (← d.asList asText)).toOption

def toDatum (c : Claimants) : Datum := GroupId.listToDatum c.ids

end Claimants

/-- A map of keys is written in key order; of two members of one name the last counts. -/
def Key.mapToDatum {α : Type} (value : α → Datum) (m : Std.ExtTreeMap Key α) : Datum :=
  .table (m.toList.map fun (k, a) => (k.text, value a))

def Key.mapOfDatum? {α : Type} (value : Datum → Option α) (d : Datum) :
    Option (Std.ExtTreeMap Key α) :=
  (d.asMap value).map fun members =>
    Std.ExtTreeMap.ofList (members.map fun (name, a) => (Key.mk name, a))

namespace Snapshot

def ofDatum? : Datum → Option Snapshot := Key.mapOfDatum? Claimants.ofDatum?

def toDatum (s : Snapshot) : Datum := Key.mapToDatum Claimants.toDatum s

end Snapshot

namespace Change

def ofDatum? (d : Datum) : Option Change := do
  let [old, new] ← d.fields .refused ["old", "new"] | none
  return { old := ← (← old).asList asText, new := ← (← new).asList asText }

def toDatum (c : Change) : Datum :=
  .table [("old", GroupId.listToDatum c.old), ("new", GroupId.listToDatum c.new)]

end Change

namespace Changes

def ofDatum? (d : Datum) : Option Changes := do
  let [added, removed, modified] ← d.fields .refused ["add", "del", "mod"] | none
  return {
    added := ← Key.mapOfDatum? Change.ofDatum? (← added)
    removed := ← Key.mapOfDatum? Change.ofDatum? (← removed)
    modified := ← Key.mapOfDatum? Change.ofDatum? (← modified) }

def toDatum (c : Changes) : Datum :=
  .table [("add", Key.mapToDatum Change.toDatum c.added),
    ("del", Key.mapToDatum Change.toDatum c.removed),
    ("mod", Key.mapToDatum Change.toDatum c.modified)]

end Changes

namespace Difference

def ofDatum? (d : Datum) : Option Difference := do
  let [keys, values] ← d.fields .refused ["keys", "values"] | none
  return {
    changes := ← Changes.ofDatum? (← keys)
    touched := .ofList (← (← values).asList asText) }

def toDatum (d : Difference) : Datum :=
  .table [("keys", d.changes.toDatum), ("values", GroupId.listToDatum d.touched.toList)]

end Difference

namespace ChangeKind

def ofText? (s : String) : Option ChangeKind := [added, removed, modified].find? (·.text = s)

def ofDatum? : Datum → Option ChangeKind
  | .text name | .table [(name, .null)] => ofText? name
  | _ => none

def toDatum (k : ChangeKind) : Datum := .text k.text

end ChangeKind

end ClaimIndex
