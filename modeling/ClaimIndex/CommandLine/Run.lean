import ClaimIndex.CommandLine.Arguments
import ClaimIndex.Json.Writer
import ClaimIndex.Form.Snapshot
import ClaimIndex.Maintenance

namespace ClaimIndex.CommandLine

structure Outcome where
  exit : Option Nat := some 0
  output : List String := []
  error : Option String := none
  files : FileSystem
  process : Option Maintenance := none

inductive Failure
  | setup (fault : SetupFault)
  | index (fault : Fault)
  | rebuild
  | followUp
  | definitions (path : String)
  deriving DecidableEq

def Failure.message : Failure → String
  | setup fault => fault.message
  | index fault => fault.message
  | rebuild => "rebuild failed"
  | followUp => "follow-up task failed"
  | definitions path => s!"group definitions {path} are invalid"

def Failure.exit : Failure → Option Nat
  | setup .cacheUnaddressable => some 101
  | setup .cacheUnaffordable => none
  | _ => some 1

def Failure.told (f : Failure) : Option String := if f.exit = some 1 then some f.message else none

structure Console where
  files : FileSystem
  printed : List String := []
  process : Option Maintenance := none

abbrev Action := ExceptT Failure (StateM Console)

def print (line : String) : Action Unit :=
  modify fun s => { s with printed := s.printed ++ [line] }

def lift {α : Type} (r : Except SetupFault α) : Action α :=
  match r with
  | .ok a => return a
  | .error fault => throw (.setup fault)

def Arguments.config (a : Arguments) : Action Config := do
  lift (Config.effective (← get).files a.configPath a.overrides)

def onIndex {α : Type} (w : World) (act : StateM World α) : Action α := do
  let (r, w) := act.run { w with files := (← get).files }
  modify ({ · with files := w.files })
  return r

def assemble (c : Config) (required : Bool) : Action World := do
  lift (c.assemble (← get).files required)

structure Summary where
  index : String
  report : Report

namespace Summary

variable (s : Summary)

def touched : List GroupId := s.report.difference.touched.toList

def text : List String :=
  let changes := s.report.difference.changes
  [s!"Rebuilt index '{s.index}'",
    s!"  Keys:           {s.report.snapshot.size}",
    s!"  Conflicting:    {s.report.snapshot.conflictCount}",
    s!"  Changes:        +{changes.added.size} -{changes.removed.size} ~{changes.modified.size}"] ++
  (if s.touched.isEmpty then [] else ["  Groups touched: " ++ ", ".intercalate s.touched]) ++
  [s!"  Lock wait:      {s.report.lockWait.toMillis}ms",
    s!"  Lock held:      {s.report.criticalSection.toMillis}ms"]

def toDatum : Datum :=
  let changes := s.report.difference.changes
  let count (n : Nat) : Datum := .integer n
  .table [("index", .text s.index), ("keys", count s.report.snapshot.size),
    ("conflicting_keys", count s.report.snapshot.conflictCount),
    ("added", count changes.added.size), ("deleted", count changes.removed.size),
    ("modified", count changes.modified.size),
    ("touched_groups", GroupId.listToDatum s.touched),
    ("lock_wait_ms", count s.report.lockWait.toMillis),
    ("critical_section_ms", count s.report.criticalSection.toMillis)]

end Summary

/-- Rebuild and execute the tasks it left; what these leave is for others. -/
def rebuildOnce (purge : Option Instant) : StateM World (Except Failure Report) := do
  match ← World.step (.rebuild purge) with
  | .report (.ok report) =>
    match ← World.step .executeAll with
    | .executed results =>
      return if results.all (·.2.isOk) then .ok report else .error .followUp
    | _ => return .ok report
  | _ => return .error .rebuild

def runRebuild (c : Config) (purge : Option Instant) (format : String) : Action Unit := do
  let w ← assemble c true
  match ← onIndex w (rebuildOnce purge) with
  | .error failure => throw failure
  | .ok report =>
    let summary : Summary := { index := c.index.name, report }
    if format = "json" then print (Json.pretty "" summary.toDatum)
    else summary.text.forM print

def runLookup (c : Config) (space : Namespace) (key : String) (primaryOnly : Bool) :
    Action Unit := do
  let w ← assemble c false
  let ids ← onIndex w do
    match ← World.step (.lookup space key) with
    | .ids ids => return ids
    | _ => return []
  let shown := if primaryOnly then ids.take 1 else ids
  if shown.isEmpty then print "(none)" else shown.forM print

def listed (s : Snapshot) (conflictsOnly : Bool) : Snapshot :=
  s.filter fun _ c => !conflictsOnly || c.isConflict

def runInspect (c : Config) (format : String) (conflictsOnly : Bool) : Action Unit := do
  let w ← assemble c false
  match ← onIndex w (World.step (.snapshot true)) with
  | .snapshot (.ok s) =>
    let entries := listed s conflictsOnly
    if format = "json" then print (Json.pretty "" entries.toDatum)
    else
      print s!"Index '{c.index.name}'"
      print s!"  Storage:     {c.storage.backend}"
      print s!"  Keys:        {s.size}"
      print s!"  Conflicting: {s.conflictCount}"
      print ""
      entries.toList.forM fun (k, c) => print (k.text ++ "\t" ++ ", ".intercalate c.ids)
  | .snapshot (.error fault) => throw (.index fault)
  | _ => return

def runValidate (a : Arguments) : Action Unit := do
  let c ← lift (Config.load (← get).files a.configPath)
  let c ← lift (c.override a.overrides).check
  print s!"✓ {a.configPath} is valid"
  match Definitions.load (← get).files c.groups.definitions with
  | .error _ => throw (.definitions c.groups.definitions)
  | .ok groups =>
    print s!"✓ {c.groups.definitions} defines {groups.length} groups"
    if c.storage.backend = "memory" then
      print "  ⚠ Warning: memory storage does not survive restarts"
    if c.lock.backend = "memory" then
      print "  ⚠ Warning: memory lock does not exclude other processes"

def runStart (c : Config) (rebuildFirst : Bool) : Action Unit := do
  let c := if rebuildFirst then c
    else { c with maintenance := { c.maintenance with rebuildOnStart := false } }
  let m ← lift (Maintenance.new c)
  let (r, m, files) := m.start (← get).files
  modify ({ · with files })
  lift r
  modify ({ · with process := some m })

def run (a : Arguments) : Action Unit := do
  match a.command with
  | .validate => runValidate a
  | .show format =>
    let c ← a.config
    print (if format = "json" then Json.pretty "" c.toDatum else c.toToml)
  | .start rebuildFirst => runStart (← a.config) rebuildFirst
  | .rebuild purge format => runRebuild (← a.config) purge format
  | .lookup space key primaryOnly => runLookup (← a.config) space key primaryOnly
  | .inspect format conflictsOnly => runInspect (← a.config) format conflictsOnly

def Arguments.reads (a : Arguments) (fs : FileSystem) : List String :=
  match Config.effective fs a.configPath a.overrides with
  | .error _ => [a.configPath]
  | .ok c => [a.configPath, c.groups.definitions, c.storage.path, c.lock.path]

def version : String := "msgindex 0.1.0"

def execute (args : List String) (files : FileSystem) : Outcome :=
  match Arguments.read args with
  | .error .usage => { exit := some 2, files }
  | .error .help => { files }
  | .error .version => { output := [version], files }
  | .ok a =>
    let (r, s) := (run a).run.run { files }
    let outcome : Outcome := { output := s.printed, files := s.files, process := s.process }
    match r with
    | .ok () => outcome
    | .error failure => { outcome with exit := failure.exit, error := failure.told }

end ClaimIndex.CommandLine
