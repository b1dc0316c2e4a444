import ClaimIndex.Cache
import ClaimIndex.Claimants
import ClaimIndex.CommandLine.Arguments
import ClaimIndex.CommandLine.Run
import ClaimIndex.CommandLine.Syntax
import ClaimIndex.Config.Basic
import ClaimIndex.Config.Form
import ClaimIndex.Datum.Basic
import ClaimIndex.Datum.Decode
import ClaimIndex.Difference
import ClaimIndex.Distinct
import ClaimIndex.Effect
import ClaimIndex.Fault
import ClaimIndex.FileSystem
import ClaimIndex.FileSystem.Path
import ClaimIndex.Form.Snapshot
import ClaimIndex.Form.Task
import ClaimIndex.Group
import ClaimIndex.Group.Definitions
import ClaimIndex.Json.Number
import ClaimIndex.Json.Quoted
import ClaimIndex.Json.Reader
import ClaimIndex.Json.Writer
import ClaimIndex.Key
import ClaimIndex.Lock
import ClaimIndex.Lookup
import ClaimIndex.Main
import ClaimIndex.Maintenance
import ClaimIndex.Metrics.Basic
import ClaimIndex.Metrics.Event
import ClaimIndex.Notice
import ClaimIndex.Number.Binary64
import ClaimIndex.Number.Decimal
import ClaimIndex.Number.Shortest
import ClaimIndex.Overlay
import ClaimIndex.Overlay.Entry
import ClaimIndex.Overlay.Slots
import ClaimIndex.Proofs.Accounts
import ClaimIndex.Proofs.Aftermath
import ClaimIndex.Proofs.Aggregates
import ClaimIndex.Proofs.Atomicity
import ClaimIndex.Proofs.Backends
import ClaimIndex.Proofs.Body
import ClaimIndex.Proofs.Built
import ClaimIndex.Proofs.Chronicle
import ClaimIndex.Proofs.Codec
import ClaimIndex.Proofs.Collision
import ClaimIndex.Proofs.Conflicts
import ClaimIndex.Proofs.Convergence
import ClaimIndex.Proofs.Course
import ClaimIndex.Proofs.Declarations
import ClaimIndex.Proofs.Difference
import ClaimIndex.Proofs.Durability
import ClaimIndex.Proofs.Edits
import ClaimIndex.Proofs.Enactment
import ClaimIndex.Proofs.Entries
import ClaimIndex.Proofs.Exclusion
import ClaimIndex.Proofs.Expiry
import ClaimIndex.Proofs.Files
import ClaimIndex.Proofs.Folding
import ClaimIndex.Proofs.Formation
import ClaimIndex.Proofs.Freshness
import ClaimIndex.Proofs.Gauges
import ClaimIndex.Proofs.Generations
import ClaimIndex.Proofs.Interlude
import ClaimIndex.Proofs.Lagging
import ClaimIndex.Proofs.Likeness
import ClaimIndex.Proofs.Lookup
import ClaimIndex.Proofs.Members
import ClaimIndex.Proofs.Membership
import ClaimIndex.Proofs.Merging
import ClaimIndex.Proofs.Modest
import ClaimIndex.Proofs.Motion
import ClaimIndex.Proofs.Nested
import ClaimIndex.Proofs.Numerals
import ClaimIndex.Proofs.Origins
import ClaimIndex.Proofs.Overlay
import ClaimIndex.Proofs.Pages
import ClaimIndex.Proofs.Parallel
import ClaimIndex.Proofs.Paths
import ClaimIndex.Proofs.Phases
import ClaimIndex.Proofs.Places
import ClaimIndex.Proofs.Precedence
import ClaimIndex.Proofs.Procedure
import ClaimIndex.Proofs.Publication
import ClaimIndex.Proofs.Purging
import ClaimIndex.Proofs.Race
import ClaimIndex.Proofs.Racing
import ClaimIndex.Proofs.Recency
import ClaimIndex.Proofs.Reconciling
import ClaimIndex.Proofs.Reentry
import ClaimIndex.Proofs.Removal
import ClaimIndex.Proofs.Repetition
import ClaimIndex.Proofs.Replication
import ClaimIndex.Proofs.Requests
import ClaimIndex.Proofs.Residue
import ClaimIndex.Proofs.Resolution
import ClaimIndex.Proofs.Retention
import ClaimIndex.Proofs.Serving
import ClaimIndex.Proofs.Settlement
import ClaimIndex.Proofs.Shared
import ClaimIndex.Proofs.Staleness
import ClaimIndex.Proofs.Steady
import ClaimIndex.Proofs.Steps
import ClaimIndex.Proofs.Survival
import ClaimIndex.Proofs.Sweeping
import ClaimIndex.Proofs.Tallies
import ClaimIndex.Proofs.Transcript
import ClaimIndex.Proofs.Undisturbed
import ClaimIndex.Proofs.Writers
import ClaimIndex.Queue
import ClaimIndex.Rebuild
import ClaimIndex.Rebuild.Build
import ClaimIndex.Settings
import ClaimIndex.Setup
import ClaimIndex.Snapshot
import ClaimIndex.Store
import ClaimIndex.Store.Codec
import ClaimIndex.Store.File
import ClaimIndex.Store.Memory
import ClaimIndex.Task
import ClaimIndex.Text.Blank
import ClaimIndex.Text.Hex
import ClaimIndex.Text.Lowercase
import ClaimIndex.Text.Scan
import ClaimIndex.Time
import ClaimIndex.Toml.Lexical
import ClaimIndex.Toml.Quoted
import ClaimIndex.Toml.Reader
import ClaimIndex.Toml.Scalar
import ClaimIndex.Toml.Tree
import ClaimIndex.Toml.Writer
import ClaimIndex.World.Basic
import ClaimIndex.World.Handler
import ClaimIndex.World.Operation
