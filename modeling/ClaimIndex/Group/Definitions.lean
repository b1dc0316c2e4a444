import ClaimIndex.Datum.Decode
import ClaimIndex.Form.Snapshot
import ClaimIndex.Group

namespace ClaimIndex

namespace Definitions

structure Plain where
  id : GroupId
  space : Namespace
  keys : List String := []
  present : Bool := true
  deriving DecidableEq

structure Aggregate where
  id : GroupId
  space : Namespace
  members : List GroupId
  deriving DecidableEq

inductive Fault
  | declaredTwice (id : GroupId)
  | unknownMember (aggregate member : GroupId)
  deriving DecidableEq

def Fault.message : Fault → String
  | declaredTwice id => s!"group '{id}' is declared twice"
  | unknownMember aggregate member =>
    s!"aggregate '{aggregate}' references unknown group '{member}'"

def Plain.group (p : Plain) : Group :=
  if p.present then .fixed p.id p.space p.keys true else .fixed p.id p.space [] false

def find? (groups : List Group) (id : GroupId) : Option Group := groups.find? (·.id = id)

def addPlain (groups : List Group) (p : Plain) : Except Fault (List Group) :=
  if (find? groups p.id).isSome then .error (.declaredTwice p.id)
  else .ok (groups ++ [p.group])

def member (groups : List Group) (aggregate id : GroupId) : Except Fault Group :=
  match find? groups id with
  | none => .error (.unknownMember aggregate id)
  | some group => .ok group

def addAggregate (groups : List Group) (a : Aggregate) : Except Fault (List Group) :=
  if (find? groups a.id).isSome then .error (.declaredTwice a.id)
  else do
    let members ← a.members.mapM (member groups a.id)
    return groups ++ [.aggregate a.id a.space members]

end Definitions

structure Definitions where
  plain : List Definitions.Plain := []
  aggregates : List Definitions.Aggregate := []
  deriving DecidableEq

namespace Definitions

def groups (d : Definitions) : Except Fault (List Group) := do
  d.aggregates.foldlM addAggregate (← d.plain.foldlM addPlain [])

open Datum (asText asList asFlag withDefault)

def Plain.ofDatum? (surplus : Datum.Surplus) (d : Datum) : Option Plain := do
  let [id, space, keys, present] ← d.fields surplus ["id", "namespace", "keys", "exists"] | none
  return {
    id := ← (← id).asText
    space := ← (← space).asNamespace
    keys := ← withDefault [] (asList asText) keys
    present := ← withDefault true asFlag present }

def Plain.toDatum (p : Plain) : Datum :=
  .table [("id", .text p.id), ("namespace", .integer p.space.toInt),
    ("keys", .list (p.keys.map .text)), ("exists", .flag p.present)]

def Aggregate.ofDatum? (surplus : Datum.Surplus) (d : Datum) : Option Aggregate := do
  let [id, space, members] ← d.fields surplus ["id", "namespace", "members"] | none
  return {
    id := ← (← id).asText
    space := ← (← space).asNamespace
    members := ← (← members).asList asText }

def Aggregate.toDatum (a : Aggregate) : Datum :=
  .table [("id", .text a.id), ("namespace", .integer a.space.toInt),
    ("members", GroupId.listToDatum a.members)]

def ofDatum? (surplus : Datum.Surplus) (d : Datum) : Option Definitions := do
  let [plain, aggregates] ← d.fields surplus ["group", "aggregate"] | none
  return {
    plain := ← withDefault [] (asList (Plain.ofDatum? surplus)) plain
    aggregates := ← withDefault [] (asList (Aggregate.ofDatum? surplus)) aggregates }

def toDatum (d : Definitions) : Datum :=
  .table [("group", .list (d.plain.map Plain.toDatum)),
    ("aggregate", .list (d.aggregates.map Aggregate.toDatum))]

end Definitions

end ClaimIndex
