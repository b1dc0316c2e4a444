import ClaimIndex.CommandLine.Syntax
import ClaimIndex.Config.Basic

namespace ClaimIndex.CommandLine

inductive Command
  | start (rebuildFirst : Bool)
  | rebuild (purge : Option Instant) (format : String)
  | lookup (space : Namespace) (key : String) (primaryOnly : Bool)
  | inspect (format : String) (conflictsOnly : Bool)
  | validate
  | show (format : String)

structure Arguments where
  configPath : String := "config/msgindex.toml"
  overrides : Config.Overrides := {}
  command : Command

def path : String → Bool := (· ≠ "")

def anyText : String → Bool := fun _ => true

def globals : List Flag :=
  [{ name := "config", letter := some 'c', value := some path },
    { name := "log-level", value := some anyText },
    { name := "storage-path", value := some path }]

def format : Flag where
  name := "format"
  value := some anyText

def program : Shape where
  flags := globals
  subcommands := ["start", "rebuild", "lookup", "inspect", "config", "help"]
  versioned := true

def start : Shape where
  flags := { name := "no-initial-rebuild" } :: globals

def purgeTimestamp : Flag where
  name := "purge-timestamp"
  value := some fun s => (Decimal.number? s.toList).isSome

def rebuild : Shape where
  flags := purgeTimestamp :: format :: globals

def lookup : Shape where
  flags := { name := "primary" } :: globals
  words := [{ accepts := fun s => (Namespace.read? s.toList).isSome, signed := true },
    { accepts := anyText }]

def inspect : Shape where
  flags := { name := "conflicts" } :: format :: globals

def config : Shape where
  flags := globals
  subcommands := ["validate", "show", "help"]

def validate : Shape where
  flags := globals

def shown : Shape where
  flags := format :: globals

def hasHelp : List String → Bool
  | [] => true
  | ["config", name] => name ∈ config.subcommands
  | [name] => name ∈ program.subcommands
  | _ => false

structure Request where
  command : Command
  levels : List Given

def Request.value? (r : Request) (name : String) : Option String :=
  r.levels.findSome? (·.value? name)

def Request.arguments (r : Request) : Arguments where
  configPath := (r.value? "config").getD "config/msgindex.toml"
  overrides := { logLevel := r.value? "log-level", storagePath := r.value? "storage-path" }
  command := r.command

def configRequest (outer : Given) (args : List String) : Except Stop Request := do
  let level ← config.read {} args
  match level.subcommand with
  | some ("validate", rest) =>
    let g ← validate.read {} rest
    return ⟨.validate, [g, level, outer]⟩
  | some ("show", rest) =>
    let g ← shown.read {} rest
    return ⟨.show ((g.value? "format").getD "toml"), [g, level, outer]⟩
  | some ("help", rest) => throw (if hasHelp ("config" :: rest) then .help else .usage)
  | _ => throw .usage

def request (args : List String) : Except Stop Request := do
  let outer ← program.read {} args
  match outer.subcommand with
  | some ("start", rest) =>
    let g ← start.read {} rest
    return ⟨.start !(g.has "no-initial-rebuild"), [g, outer]⟩
  | some ("rebuild", rest) =>
    let g ← rebuild.read {} rest
    let purge := g.value? "purge-timestamp" >>= fun s => Decimal.number? s.toList
    return ⟨.rebuild purge ((g.value? "format").getD "text"), [g, outer]⟩
  | some ("lookup", rest) =>
    let g ← lookup.read {} rest
    let [space, key] := g.words | throw .usage
    let some space := Namespace.read? space.toList | throw .usage
    return ⟨.lookup space key (g.has "primary"), [g, outer]⟩
  | some ("inspect", rest) =>
    let g ← inspect.read {} rest
    return ⟨.inspect ((g.value? "format").getD "text") (g.has "conflicts"), [g, outer]⟩
  | some ("config", rest) => configRequest outer rest
  | some ("help", rest) => throw (if hasHelp rest then .help else .usage)
  | _ => throw .usage

def Arguments.read (args : List String) : Except Stop Arguments :=
  Request.arguments <$> request args

end ClaimIndex.CommandLine
