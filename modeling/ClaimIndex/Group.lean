import ClaimIndex.Key
import ClaimIndex.Task

namespace ClaimIndex

inductive Point
  | storeRead
  | storeGet
  | storeWrite
  | overlayGet
  | overlaySet
  | overlayDelete
  | lockAcquire
  | lockRelease
  | tokensTouch
  | queueEnqueue
  deriving DecidableEq

def Point.name : Point → String
  | storeRead => "store.read"
  | storeGet => "store.get"
  | storeWrite => "store.write"
  | overlayGet => "interim.get"
  | overlaySet => "interim.set"
  | overlayDelete => "interim.delete"
  | lockAcquire => "lock.acquire"
  | lockRelease => "lock.release"
  | tokensTouch => "tokens.touch"
  | queueEnqueue => "queue.enqueue"

inductive Moment
  | before (p : Point)
  /-- The real call has been made and its reply not yet been handed on. -/
  | after (p : Point)
  deriving DecidableEq

def Moment.name : Moment → String
  | before p => p.name
  | after p => p.name ++ ".after"

mutual

inductive Group
  | fixed (id : GroupId) (space : Namespace) (keys : List String) (present : Bool)
  /-- The keys of the members, each key once. -/
  | aggregate (id : GroupId) (space : Namespace) (members : List Group)
  | scripted (id : GroupId) (space : Namespace) (keys : List String) (derived present : Bool)
      (failure : Option String) (actions : List Operation)
  | registered (id : GroupId)

inductive Operation
  | rebuild (purge : Option Instant)
  | rebuildSnapshot (purge : Option Instant)
  | lookup (space : Namespace) (key : String)
  | primary (space : Namespace) (key : String)
  | lookupKey (key : Key)
  | store (group : Group) (keys : List String)
  | storeFor (id : GroupId) (keys : List String)
  | overlay
  | overlaySize
  | snapshot (latest : Bool)
  | keys
  | advance (by' : Span)
  | setClock (now : Instant)
  | register (group : Group)
  | unregister (id : GroupId)
  | sync
  | pending
  | drain
  | executeAll
  | execute (task : Task)
  | acquire
  | release
  | held
  | token (name : Option String)
  | changes
  | metrics
  | rebuilding
  | settings
  | accepts (space : Namespace)
  | clearCache
  | fail (point : Point) (on : Bool)
  | hook (moment : Moment) (operations : List Operation)

end

instance : Inhabited Group := ⟨.registered ""⟩

instance : Inhabited Operation := ⟨.sync⟩

namespace Group

def id : Group → GroupId
  | fixed id .. | aggregate id .. | scripted id .. | registered id => id

def space : Group → Namespace
  | fixed _ n .. | aggregate _ n .. | scripted _ n .. => n
  | registered _ => 0

def isPresent : Group → Bool
  | fixed _ _ _ present => present
  | aggregate .. => true
  | scripted _ _ _ _ present .. => present
  | registered _ => false

def isDerived : Group → Bool
  | fixed .. | registered _ => false
  | aggregate .. => true
  | scripted _ _ _ derived .. => derived

mutual

def resolve (registry : List Group) : Group → Group
  | registered id => (registry.find? (·.id = id)).getD (registered id)
  | aggregate id space members => aggregate id space (resolveAll registry members)
  | fixed id space keys present => fixed id space keys present
  | scripted id space keys derived present failure actions =>
    scripted id space keys derived present failure actions

def resolveAll (registry : List Group) : List Group → List Group
  | [] => []
  | g :: gs => resolve registry g :: resolveAll registry gs

end

end Group

end ClaimIndex
