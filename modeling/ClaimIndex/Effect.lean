import ClaimIndex.Difference
import ClaimIndex.Group
import ClaimIndex.Metrics.Event
import ClaimIndex.Notice
import ClaimIndex.Overlay.Entry

/-! What an index asks of its collaborators, one atomic request at a time, and procedures made
of such requests.  A procedure is data, so it can be run against any state, with requests of
others in between. -/

namespace ClaimIndex

inductive Effect
  | now
  | uptime
  | enter
  | leave
  | acquire
  | release
  | cached (key : Key)
  | generation
  | cache (generation : UInt64) (key : Key) (ids : List GroupId)
  | clearCache
  | readStore (latest : Bool)
  | readKey (key : Key)
  | writeStore (snapshot : Snapshot) (changes : Changes)
  | readOverlay
  | writeOverlay (entry : Overlay.Entry)
  | dropOverlay (stamp : Instant)
  | touch (token : String)
  | enqueue (task : Task)
  | notify (page : Page) (change : Change)
  | groups
  | perform (group : GroupId) (actions : List Operation)
  | record (event : Metrics.Event)
  | report (notice : Notice)

@[reducible] def Effect.Reply : Effect → Type
  | now => Instant
  | uptime => Nat
  | enter => Bool
  | acquire => Except Fault Bool
  | cached _ => Option (List GroupId)
  | generation => UInt64
  | cache .. => Bool
  | readStore _ => Except Fault Snapshot
  | readKey _ => Except Fault (Option Claimants)
  | readOverlay => Except Fault (Option Overlay.Entry)
  | dropOverlay _ => Except Fault Bool
  | release | writeStore .. | writeOverlay _ | touch _ | enqueue _ => Except Fault Unit
  | groups => List Group
  | leave | clearCache | notify .. | perform .. | record _ | report _ => Unit

/-- The point at which an effect can be made to fail, and its reply then. -/
def Effect.outage? : (e : Effect) → Option (Point × e.Reply)
  | readStore _ => some (.storeRead, .error (.storage "store.read down"))
  | readKey _ => some (.storeGet, .error (.storage "store.get down"))
  | writeStore .. => some (.storeWrite, .error (.storage "store.write down"))
  | readOverlay => some (.overlayGet, .error (.storage "interim.get down"))
  | writeOverlay _ => some (.overlaySet, .error (.storage "interim.set down"))
  | dropOverlay _ => some (.overlayDelete, .error (.storage "interim.delete down"))
  | acquire => some (.lockAcquire, .error (.lock "lock.acquire down"))
  | release => some (.lockRelease, .error (.lock "lock.release down"))
  | touch _ => some (.tokensTouch, .error (.storage "tokens.touch down"))
  | enqueue _ => some (.queueEnqueue, .error (.queueUnavailable "queue.enqueue down"))
  | now | uptime | enter | leave | cached _ | generation | cache .. | clearCache | notify ..
  | groups | perform .. | record _ | report _ => none

inductive Proc (α : Type) : Type
  | done (a : α)
  | call (e : Effect) (next : e.Reply → Proc α)

abbrev Handler (σ : Type) := (e : Effect) → StateM σ e.Reply

namespace Proc

variable {α β γ σ : Type}

def bind : Proc α → (α → Proc β) → Proc β
  | done a, f => f a
  | call e next, f => call e fun r => (next r).bind f

instance : Monad Proc where
  pure := done
  bind := bind

theorem bind_done (p : Proc α) : p.bind done = p := by
  induction p with
  | done a => rfl
  | call e next ih => simp [bind, ih]

theorem bind_assoc (p : Proc α) (f : α → Proc β) (g : β → Proc γ) :
    (p.bind f).bind g = p.bind fun a => (f a).bind g := by
  induction p with
  | done a => rfl
  | call e next ih => simp [bind, ih]

instance : LawfulMonad Proc := .mk' Proc bind_done (fun _ _ => rfl) bind_assoc

def ask (e : Effect) : Proc e.Reply := call e done

def run (h : Handler σ) : Proc α → StateM σ α
  | done a => pure a
  | call e next => h e >>= fun r => (next r).run h

@[simp] theorem run_pure (h : Handler σ) (a : α) : (pure a : Proc α).run h = pure a := rfl

@[simp] theorem run_ask (h : Handler σ) (e : Effect) : (ask e).run h = h e := by
  simp [ask, run]

@[simp] theorem run_bind (h : Handler σ) (p : Proc α) (f : α → Proc β) :
    (p >>= f).run h = p.run h >>= fun a => (f a).run h := by
  change (p.bind f).run h = _
  induction p with
  | done a => simp [bind, run]
  | call e next ih => simp [bind, run, ih]

end Proc

abbrev Attempt := ExceptT Fault Proc

end ClaimIndex
