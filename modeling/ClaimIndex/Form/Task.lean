import ClaimIndex.Datum.Decode
import ClaimIndex.Form.Snapshot
import ClaimIndex.Overlay.Entry
import ClaimIndex.Task

namespace ClaimIndex

namespace Page

def ofDatum? (d : Datum) : Option Page := do
  let [space, title] ← d.fields .refused ["namespace", "key"] | none
  return { space := ← (← space).asNamespace, title := ← (← title).asText }

def toDatum (p : Page) : Datum :=
  .table [("namespace", .integer p.space.toInt), ("key", .text p.title)]

end Page

namespace Instant

def ofDatum? (d : Datum) : Option Instant := d.asNumber

def toDatum (t : Instant) : Datum := .decimal t

end Instant

namespace Overlay.Entry

def ofDatum? (d : Datum) : Option Entry := do
  let [stamp, keys] ← d.fields .refused ["timestamp", "new_keys"] | none
  return {
    stamp := ← Instant.ofDatum? (← stamp)
    keys := ← Key.mapOfDatum? Datum.asText (← keys) }

def toDatum (e : Entry) : Datum :=
  .table [("new_keys", Key.mapToDatum GroupId.toDatum e.keys),
    ("timestamp", Instant.toDatum e.stamp)]

end Overlay.Entry

namespace Task

/-- A task is kept whole until its kind is known, and what is kept nests less deep than this. -/
def maxDepth : Nat := 128

/-- The fields of a task of a known kind.  An absent purge point is none in a table, but a list
has to give every field. -/
def ofFields? (kind : String) (fields : Datum) : Option Task :=
  match kind with
  | "rebuild" => do
    let [purge] ← fields.fields .refused ["purge_timestamp"] | none
    guard (purge.isSome || fields matches .table _)
    return rebuild (← (purge.getD .null).asOption Instant.ofDatum?)
  | "refresh_group_stats" => do
    let [groups] ← fields.fields .refused ["group_ids"] | none
    return refreshStatistics (.ofList (← (← groups).asList Datum.asText))
  | _ => none

/-- The kind stands among the fields of a table, or first in a list. -/
def ofDatum? (d : Datum) : Option Task := do
  guard (d.isSolid && d.depth < maxDepth)
  match d with
  | .table members =>
    let [(_, kind)] := members.filter (·.1 = "type") | none
    ofFields? (← kind.asText) (.table (members.filter (·.1 ≠ "type")))
  | .list (kind :: fields) => ofFields? (← kind.asText) (.list fields)
  | _ => none

def toDatum : Task → Datum
  | rebuild purge =>
    .table [("type", .text "rebuild"), ("purge_timestamp", purge.elim .null Instant.toDatum)]
  | refreshStatistics groups =>
    .table [("type", .text "refresh_group_stats"),
      ("group_ids", GroupId.listToDatum groups.toList)]

end Task

end ClaimIndex
