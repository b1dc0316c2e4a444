import ClaimIndex.Config.Basic
import ClaimIndex.Datum.Decode
import ClaimIndex.Toml.Reader
import ClaimIndex.Toml.Writer

namespace ClaimIndex.Config

open Datum (asText asFlag asCount asList asNamespace withDefault Surplus)

def Index.ofDatum? (d : Datum) : Option Index := do
  let [name, capacity, ttl, namespaces] ← d.fields .ignored
    ["name", "lookup_cache_capacity", "interim_ttl_seconds", "message_namespaces"] | none
  let standard : Index := {}
  return {
    name := ← withDefault standard.name asText name
    lookupCacheCapacity := ← withDefault standard.lookupCacheCapacity asCount capacity
    interimTtlSeconds := ← withDefault standard.interimTtlSeconds asCount ttl
    messageNamespaces := ← withDefault [] (asList asNamespace) namespaces }

def Storage.ofDatum? (d : Datum) : Option Storage := do
  let [backend, path] ← d.fields .ignored ["backend", "path"] | none
  let standard : Storage := {}
  return {
    backend := ← withDefault standard.backend asText backend
    path := ← withDefault standard.path asText path }

def Lock.ofDatum? (d : Datum) : Option Lock := do
  let [backend, path, timeout, stale] ← d.fields .ignored
    ["backend", "path", "timeout_ms", "stale_after_ms"] | none
  let standard : Lock := {}
  return {
    backend := ← withDefault standard.backend asText backend
    path := ← withDefault standard.path asText path
    timeoutMs := ← withDefault standard.timeoutMs asCount timeout
    staleAfterMs := ← withDefault standard.staleAfterMs asCount stale }

def Groups.ofDatum? (d : Datum) : Option Groups := do
  let [definitions] ← d.fields .ignored ["definitions"] | none
  return { definitions := ← withDefault ({} : Groups).definitions asText definitions }

def Maintenance.ofDatum? (d : Datum) : Option Maintenance := do
  let [onStart, interval] ← d.fields .ignored
    ["rebuild_on_start", "rebuild_interval_seconds"] | none
  return {
    rebuildOnStart := ← withDefault true asFlag onStart
    rebuildIntervalSeconds := ← withDefault 0 asCount interval }

def Telemetry.ofDatum? (d : Datum) : Option Telemetry := do
  let [level] ← d.fields .ignored ["log_level"] | none
  return { logLevel := ← withDefault ({} : Telemetry).logLevel asText level }

def ofDatum? (d : Datum) : Option Config := do
  let [index, storage, lock, groups, maintenance, telemetry] ← d.fields .ignored
    ["index", "storage", "lock", "groups", "maintenance", "telemetry"] | none
  return {
    index := ← withDefault {} Index.ofDatum? index
    storage := ← withDefault {} Storage.ofDatum? storage
    lock := ← withDefault {} Lock.ofDatum? lock
    groups := ← withDefault {} Groups.ofDatum? groups
    maintenance := ← withDefault {} Maintenance.ofDatum? maintenance
    telemetry := ← withDefault {} Telemetry.ofDatum? telemetry }

def count (n : UInt64) : Datum := .integer n.toNat

def sections (c : Config) : List (String × Datum) :=
  [("index", .table [("name", .text c.index.name),
      ("lookup_cache_capacity", count c.index.lookupCacheCapacity),
      ("interim_ttl_seconds", count c.index.interimTtlSeconds),
      ("message_namespaces", .list (c.index.messageNamespaces.map fun n => .integer n.toInt))]),
    ("storage", .table [("backend", .text c.storage.backend), ("path", .text c.storage.path)]),
    ("lock", .table [("backend", .text c.lock.backend), ("path", .text c.lock.path),
      ("timeout_ms", count c.lock.timeoutMs), ("stale_after_ms", count c.lock.staleAfterMs)]),
    ("groups", .table [("definitions", .text c.groups.definitions)]),
    ("maintenance", .table [("rebuild_on_start", .flag c.maintenance.rebuildOnStart),
      ("rebuild_interval_seconds", count c.maintenance.rebuildIntervalSeconds)]),
    ("telemetry", .table [("log_level", .text c.telemetry.logLevel)])]

def toDatum (c : Config) : Datum := .table c.sections

def ofToml? (s : String) : Option Config := do ofDatum? (← Toml.read? s)

def toToml (c : Config) : String := Toml.write c.sections

end ClaimIndex.Config
