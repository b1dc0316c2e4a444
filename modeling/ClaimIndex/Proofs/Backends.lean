import ClaimIndex.Proofs.Parallel
import ClaimIndex.Proofs.Shared
import ClaimIndex.Proofs.Steps

/-! Stores of different kinds under the same operations.  Each holds the same latest snapshot, and
nothing else of a store shows in what an index answers. -/

namespace ClaimIndex

theorem FileStore.load_congr {f : FileStore} {fs fs' : FileSystem}
    (still : ∀ names ∈ FileSystem.course f.path, fs'.node? names = fs.node? names) :
    f.load fs' = f.load fs := by
  have alike : FileSystem.Alike none (· ∈ FileSystem.course f.path) fs' fs :=
    .of_kind fun names hn => congrArg (Option.map _) (still names hn)
  unfold load FileSystem.read
  rw [alike.exists? fun _ => id, alike.locate fun _ => id]
  cases found : fs.locate f.path with
  | error fault => rfl
  | ok names =>
    obtain rfl := FileSystem.eq_place found
    simp only [bind, Except.bind, still _ (FileSystem.place_mem_course f.path)]

namespace Store

variable {lock lock' : Lock} {fs fs' : FileSystem} {s new : Snapshot} {store : Store}

def Current (lock : Lock) (fs : FileSystem) (s : Snapshot) : Store → Prop
  | memory m | whole m => m = .ofSnapshot s
  | file f =>
    (∀ copy ∈ f.copy, copy = s) ∧ f.load fs = .ok s ∧ f.Ready fs ∧ lock.Apart f fs

def Fresh (lock : Lock) (fs : FileSystem) : Store → Prop
  | memory m | whole m => m = {}
  | file f => f.copy = none ∧ fs.exists? f.path = false ∧ f.Ready fs ∧ lock.Apart f fs

theorem Fresh.current (h : store.Fresh lock fs) : store.Current lock fs ∅ := by
  cases store with
  | memory m | whole m => exact h
  | file f =>
    obtain ⟨copied, absent, ready, apart⟩ := h
    refine ⟨by simp [copied], ?_, ready, apart⟩
    unfold FileStore.load
    rw [absent]
    rfl

namespace Current

theorem read (h : store.Current lock fs s) (latest : Bool) :
    (store.read fs latest).1 = .ok s ∧ (store.read fs latest).2.Current lock fs s := by
  cases store with
  | memory m | whole m =>
    obtain rfl : m = .ofSnapshot s := h
    cases latest <;> exact ⟨rfl, rfl⟩
  | file f =>
    obtain ⟨copied, loaded, ready, apart⟩ := h
    have answered : f.read fs latest = (.ok s, f) ∨
        f.read fs latest = (.ok s, { f with copy := some s }) := by
      unfold FileStore.read
      split
      · rename_i copy held
        obtain rfl := copied copy held
        exact .inl rfl
      · rw [loaded]
        exact .inr rfl
    simp only [Store.read]
    obtain answered | answered := answered
    · rw [answered]
      exact ⟨rfl, copied, loaded, ready, apart⟩
    · rw [answered]
      exact ⟨rfl, fun _ held => (Option.some.inj held).symm, loaded, ready, apart.own, apart.shared⟩

theorem get (h : store.Current lock fs s) (k : Key) :
    (store.get fs k).1 = .ok s[k]? ∧ (store.get fs k).2.Current lock fs s := by
  have answered := h.read false
  cases store with
  | memory m =>
    obtain rfl : m = .ofSnapshot s := h
    exact ⟨rfl, rfl⟩
  | whole m => exact ⟨congrArg (Except.map (·[k]?)) answered.1, answered.2⟩
  | file f => exact ⟨congrArg (Except.map (·[k]?)) answered.1, answered.2⟩

theorem sync (h : store.Current lock fs s) : store.sync.Current lock fs s := by
  cases store with
  | memory m | whole m =>
    obtain rfl : m = .ofSnapshot s := h
    rfl
  | file f => exact h

theorem still (h : store.Current lock fs s) (quiet : ∀ f : FileStore, lock.Apart f fs →
    lock'.Apart f fs' ∧ ∀ names ∈ f.reach, fs'.node? names = fs.node? names) :
    store.Current lock' fs' s := by
  cases store with
  | memory m | whole m => exact h
  | file f =>
    obtain ⟨copied, loaded, ready, apart⟩ := h
    obtain ⟨apart', nodes⟩ := quiet f apart
    refine ⟨copied, ?_, ready.of_alike (.of_kind fun names hn => ?_), apart'⟩
    · rw [FileStore.load_congr fun names hn => nodes names (FileStore.course_subset hn), loaded]
    · exact congrArg (Option.map _) (nodes names hn).symm

theorem write (h : store.Current lock fs' s) (agree : lock.Agree fs fs') (hnew : new.WellFormed)
    (fits : (Codec.encode new.toList).length < 2 ^ 64) :
    let r := store.write fs' new (s.changes new)
    r.1 = .ok () ∧ r.2.1.Current lock r.2.2 new ∧ lock.Agree fs r.2.2 := by
  cases store with
  | memory m | whole m =>
    obtain rfl : m = .ofSnapshot s := h
    refine ⟨rfl, ?_, agree⟩
    change MemoryStore.mk _ _ _ = MemoryStore.mk _ _ _
    simp [MemoryStore.apply_changes, MemoryStore.ofSnapshot]
  | file f =>
    obtain ⟨copied, loaded, ready, apart⟩ := h
    have done := ready.publish (Codec.encode new.toList)
    have again := ready.published (Codec.encode new.toList)
    obtain ⟨still, agree⟩ := apart.publish agree (Codec.encode new.toList)
    intro r
    cases published : f.publish fs' (Codec.encode new.toList) with
    | mk answer gs =>
    rw [published] at done again still agree
    obtain rfl : answer = .ok () := done
    have wrote : r = (.ok (), .file { f with copy := some new }, gs) := by
      simp only [r, Store.write, FileStore.write, published]
    rw [wrote]
    refine ⟨rfl, ⟨fun copy held => (Option.some.inj held).symm, ?_, again, still.own,
      still.shared⟩, agree⟩
    exact FileStore.load_of_read (f := f) (FileStore.read_publish published) hnew (.refl _) fits

end Current

end Store

namespace World

open FileSystem (Grows)

variable {α : Type} {s new : Snapshot} {w v : World} {player : Player}

/-- Two worlds with the same latest snapshot, the first in a store in memory, that differ in nothing
else that can be asked for. -/
structure Twin (s : Snapshot) (w v : World) : Prop where
  rest : v = { w with store := v.store, files := v.files }
  left : w.store = .memory (.ofSnapshot s)
  right : v.store.Current w.lock v.files s
  locks : w.lock.Agree w.files v.files

theorem Twin.read (latest : Bool) : Lockstep (Twin s) (Twin s) (fun a b => a = b ∧ a = .ok s)
    (reply player (.readStore latest)) (reply player (.readStore latest)) := by
  rintro w v ⟨rest, left, right, locks⟩
  obtain ⟨answer, kept⟩ := right.read latest
  have same : w.store.read w.files latest = (.ok s, w.store) := by
    rw [left]
    cases latest <;> rfl
  change ((w.store.read w.files latest).1 = (v.store.read v.files latest).1 ∧
    (w.store.read w.files latest).1 = .ok s) ∧ Twin s
      { w with store := (w.store.read w.files latest).2 }
      { v with store := (v.store.read v.files latest).2 }
  rw [same, answer]
  refine ⟨⟨rfl, rfl⟩, ?_, left, kept, locks⟩
  rw [rest]

theorem Twin.get (k : Key) : Lockstep (Twin s) (Twin s) Eq (reply player (.readKey k))
    (reply player (.readKey k)) := by
  rintro w v ⟨rest, left, right, locks⟩
  obtain ⟨answer, kept⟩ := right.get k
  have same : w.store.get w.files k = (.ok s[k]?, w.store) := by
    rw [left]
    rfl
  change (w.store.get w.files k).1 = (v.store.get v.files k).1 ∧ Twin s
      { w with store := (w.store.get w.files k).2 }
      { v with store := (v.store.get v.files k).2 }
  rw [same, answer]
  refine ⟨rfl, ?_, left, kept, locks⟩
  rw [rest]

theorem Twin.onLock {act : Lock → FileSystem → α × Lock × FileSystem}
    (agree : ∀ {l : Lock} {fs fs'}, l.Agree fs fs' → (act l fs).1 = (act l fs').1 ∧
      (act l fs).2.1 = (act l fs').2.1 ∧ (act l fs).2.1.Agree (act l fs).2.2 (act l fs').2.2)
    (quiet : ∀ {l : Lock} {f : FileStore} {fs}, l.Apart f fs →
      (act l fs).2.1.Apart f (act l fs).2.2 ∧
        ∀ names ∈ f.reach, (act l fs).2.2.node? names = fs.node? names) :
    Lockstep (Twin s) (Twin s) Eq (World.onLock act) (World.onLock act) := by
  rintro w v ⟨rest, left, right, locks⟩
  generalize v.store = store at *
  generalize v.files = files at *
  subst rest
  obtain ⟨answer, lock, after⟩ := agree locks
  have kept := right.still fun f apart => quiet apart
  rw [← lock] at kept
  refine ⟨answer, ?_⟩
  change Twin s
    { w with lock := (act w.lock w.files).2.1, files := (act w.lock w.files).2.2 }
    { w with store, lock := (act w.lock files).2.1, files := (act w.lock files).2.2 }
  rw [← lock]
  exact ⟨rfl, left, kept, after⟩

theorem Twin.acquire : Lockstep (Twin s) (Twin s) Eq
    (World.onLock fun lock files => lock.acquire (files.wait 1))
    (World.onLock fun lock files => lock.acquire (files.wait 1)) := by
  refine Twin.onLock (fun agree => Lock.agree_acquire (agree.wait 1)) fun {l f fs} apart => ?_
  have later : l.Apart f (fs.wait 1) := apart.grows fun names dir => by rwa [FileSystem.node?_wait]
  refine ⟨later.acquire.1, fun names hn => ?_⟩
  rw [later.acquire.2 names hn, FileSystem.node?_wait]

theorem Twin.release :
    Lockstep (Twin s) (Twin s) Eq (World.onLock Lock.release) (World.onLock Lock.release) :=
  Twin.onLock Lock.agree_release Lock.Apart.release

theorem Twin.enqueue (task : Task) : Lockstep (Twin s) (Twin s) Eq (reply player (.enqueue task))
    (reply player (.enqueue task)) := by
  rintro w v ⟨rest, left, right, locks⟩
  generalize v.store = store at *
  generalize v.files = files at *
  subst rest
  rw [reply_enqueue, reply_enqueue]
  cases w.queue.enqueue task with
  | ok queue => exact ⟨rfl, rfl, left, right, locks⟩
  | error fault => exact ⟨rfl, rfl, left, right, locks⟩

theorem Twin.reply {e : Effect} (he : e.Common) :
    Lockstep (Twin s) (Twin s) Eq (reply idle e) (reply idle e) := by
  intro w v h
  cases e with
  | groups | perform | writeStore | leave => exact he.elim
  | acquire => exact Twin.acquire h
  | release => exact Twin.release h
  | readStore latest => exact ⟨(Twin.read latest h).1.1, (Twin.read latest h).2⟩
  | readKey k => exact Twin.get k h
  | enqueue task => exact Twin.enqueue task h
  | _ =>
    obtain ⟨rest, left, right, locks⟩ := h
    rw [rest]
    exact ⟨rfl, rfl, left, right, locks⟩

theorem Twin.direct {op : Operation} (hop : op.Direct) (h : Handler World) :
    Lockstep (Twin s) (Twin s) Eq (op.perform h) (op.perform h) := by
  intro w v hR
  have answering {α : Type} {m : StateM World α} (f : α → Answer)
      (hm : Lockstep (Twin s) (Twin s) Eq m m) :
      Lockstep (Twin s) (Twin s) Eq (do return f (← m)) (do return f (← m)) := by
    refine .bind hm ?_
    rintro a _ rfl
    exact .pure rfl
  cases op with
  | acquire => exact answering .acquired Twin.acquire hR
  | release => exact answering .outcome Twin.release hR
  | held =>
    obtain ⟨rest, left, right, locks⟩ := hR
    rw [rest]
    exact ⟨congrArg Answer.flag (Lock.agree_isHeld locks), rfl, left, right, locks⟩
  | sync =>
    obtain ⟨rest, left, right, locks⟩ := hR
    rw [rest]
    refine ⟨rfl, rfl, ?_, right.sync, locks⟩
    change w.store.sync = _
    rw [left]
    rfl
  | overlaySize | advance | setClock | register | unregister | pending | drain | token | changes
  | metrics | rebuilding | settings | accepts | fail | hook =>
    obtain ⟨rest, left, right, locks⟩ := hR
    rw [rest]
    exact ⟨rfl, rfl, left, right, locks⟩
  | _ => exact hop.elim

theorem Twin.same {β : Type} (h : Twin s w v) (f : World → β)
    (blind : ∀ w store files, f { w with store, files } = f w) : f w = f v := by
  rw [h.rest]
  exact (blind w _ _).symm

def Pair (s : Snapshot) (w v : World) : Prop := Twin s w v ∧ w.Running

theorem accord_pair : Accord (Pair s) Eq where
  running h := ⟨h.2, (h.1.same World.running fun _ _ _ => rfl).symm.trans h.2⟩
  settings h := h.1.same World.settings fun _ _ _ => rfl
  hooks h := h.1.same World.hooks fun _ _ _ => rfl
  failing h := h.1.same World.failing fun _ _ _ => rfl
  queue h := h.1.same World.queue fun _ _ _ => rfl
  groups h := h.1.same (fun w => w.registry.map fun g => (g.id, g.space)) fun _ _ _ => rfl
  waiting hooks h := by
    obtain ⟨⟨rest, left, right, locks⟩, hw⟩ := h
    rw [rest]
    exact ⟨⟨rfl, left, right, locks⟩, hw⟩
  note label h same := by
    obtain ⟨⟨rest, left, right, locks⟩, hw⟩ := h
    rw [rest, same]
    exact ⟨⟨rfl, left, right, locks⟩, hw⟩
  reply e he w v h := by
    obtain ⟨answer, after⟩ := Twin.reply he h.1
    refine ⟨answer, after, h.2.reply ?_⟩
    rintro rfl
    exact he
  direct op h hop w v hR := by
    obtain ⟨answer, after⟩ := Twin.direct hop h hR.1
    refine ⟨answer, after, ?_⟩
    cases op with
    | overlaySize | advance | setClock | register | unregister | sync | pending | drain | acquire
    | release | held | token | changes | metrics | rebuilding | settings | accepts | fail | hook =>
      exact hR.2
    | _ => exact hop.elim
  refl _ := rfl

theorem Pair.hook (moment : Moment) : Lockstep (Pair s) (Pair s) (fun _ _ => True)
    (runHook (play depth) moment) (runHook (play depth) moment) :=
  lockstep_runHook (fun _ _ => accord_pair.hooks) (fun _ _ => accord_pair.waiting)
    (accord_pair.play depth) moment

theorem Pair.listing {e : Effect} (he : Build.Listing (fun _ => True) e) :
    Lockstep (Pair s) (Pair s) Eq (handle (play depth) e) (handle (play depth) e) := by
  cases e with
  | perform group actions =>
    intro w v h
    exact ⟨rfl, (accord_pair.play depth ("group " ++ group) actions h).2⟩
  | report notice => exact accord_pair.handle (accord_pair.play depth) trivial
  | _ => exact he.elim

theorem Pair.draft : Lockstep (Pair s) (Pair s)
    (fun a b => a = b ∧ ∀ old build, a = .ok (old, build) → old = s ∧ build.snapshot.WellFormed)
    (Rebuild.draft.run.run (handle (play depth)))
    (Rebuild.draft.run.run (handle (play depth))) := by
  have reading : Lockstep (Pair s) (Pair s) (fun a b => a = b ∧ ∀ old, a = .ok old → old = s)
      (handle (play depth) (.readStore true)) (handle (play depth) (.readStore true)) := by
    refine lockstep_handle ?_ (fun _ _ => accord_pair.failing) (fun _ _ => id) Pair.hook Pair.hook
      ?_
    · rintro point r ⟨⟩
      exact ⟨rfl, nofun⟩
    · intro w v h
      obtain ⟨⟨same, held⟩, after⟩ := Twin.read true h.1
      refine ⟨⟨same, fun old answered => ?_⟩, after, h.2⟩
      exact Except.ok.inj (answered.symm.trans held)
  have building (groups : List Group) : Lockstep (Pair s) (Pair s)
      (fun a b => a = b ∧ ∀ build, a = .ok build → build.snapshot.WellFormed)
      ((Build.ofGroups groups).run.run (handle (play depth)))
      ((Build.ofGroups groups).run.run (handle (play depth))) := by
    have listing : (Build.ofGroups groups).run.Within (Build.Listing fun _ => True) :=
      Build.within_ofGroups fun _ _ _ _ => trivial
    intro w v h
    obtain ⟨same, after⟩ := listing.lockstep (fun e => Pair.listing) h
    refine ⟨⟨same, fun build answered => ?_⟩, after⟩
    have built : (Build.ofGroups groups).run.Yields (handle (play depth)) w (.ok build) _ :=
      Prod.ext answered rfl
    rw [Build.eq_outcome built]
    exact Build.wellFormed_outcome groups
  have asking : Lockstep (Pair s) (Pair s)
      (fun a b => a = b ∧ ∀ groups : List Group, a = .ok groups → True)
      ((Proc.ask .groups : Attempt (List Group)).run.run (handle (play depth)))
      ((Proc.ask .groups : Attempt (List Group)).run.run (handle (play depth))) := by
    intro w v h
    have same : w.registry = v.registry := h.1.same World.registry fun _ _ _ => rfl
    exact ⟨⟨congrArg Except.ok same, fun _ _ => trivial⟩, h⟩
  refine Lockstep.attempt reading (fun old latest => ?_) (fun _ _ => id) fun _ => ⟨rfl, nofun⟩
  refine Lockstep.attempt asking (fun groups _ => ?_) (fun _ _ => id) fun _ => ⟨rfl, nofun⟩
  refine Lockstep.attempt (building groups) (fun build sound => ?_) (fun _ _ => id)
    fun _ => ⟨rfl, nofun⟩
  refine .pure ⟨rfl, ?_⟩
  rintro _ _ ⟨⟩
  exact ⟨latest, sound⟩

def Paired (w v : World) : Prop := ∃ s, Pair s w v

theorem Pair.write (hnew : new.WellFormed) (fits : (Codec.encode new.toList).length < 2 ^ 64) :
    Lockstep (Pair s) Paired Eq (handle (play depth) (.writeStore new (s.changes new)))
      (handle (play depth) (.writeStore new (s.changes new))) := by
  refine lockstep_handle (fun _ _ _ => rfl) (fun _ _ => accord_pair.failing) (fun _ _ h => ⟨s, h⟩)
    Pair.hook (fun moment w v ⟨t, h⟩ => ?_) ?_
  · obtain ⟨-, after⟩ := Pair.hook moment h
    exact ⟨trivial, t, after⟩
  · rintro w v ⟨⟨rest, left, right, locks⟩, hw⟩
    generalize v.store = store at *
    generalize v.files = files at *
    subst rest
    rw [reply_writeStore, reply_writeStore]
    obtain ⟨done, current, agree⟩ := right.write locks hnew fits
    have here : w.store.write w.files new (s.changes new) =
        (.ok (), .memory (.ofSnapshot new), w.files) := by
      rw [left]
      simp only [Store.write, MemoryStore.write, MemoryStore.ofSnapshot,
        MemoryStore.apply_changes]
      rfl
    rw [here]
    exact ⟨done.symm, new, ⟨rfl, rfl, current, agree⟩, hw⟩

def Follows {α : Type} (p : Proc α) : Prop :=
  ∀ ⦃w v⦄, Paired w v → Fitting (p.gather Effect.written (handle (play depth)) w) →
    ((p.run (handle (play depth))).run w).1 = ((p.run (handle (play depth))).run v).1 ∧
      Paired ((p.run (handle (play depth))).run w).2 ((p.run (handle (play depth))).run v).2

namespace Follows

variable {β : Type} {settings : Settings} {purge : Option Instant}

theorem pure {a : α} : Follows (pure a : Proc α) := fun _ _ h _ => ⟨rfl, h⟩

theorem bind {p : Proc α} {f : α → Proc β} (hp : Follows p) (hf : ∀ a, Follows (f a)) :
    Follows (p >>= f) := by
  intro w v h fits
  rw [Proc.gather_bind] at fits
  obtain ⟨same, after⟩ := hp h fun s hs => fits s (List.mem_append_left _ hs)
  have rest := hf _ after fun s hs => fits s (List.mem_append_right _ hs)
  rw [Proc.run_bind]
  change (((f ((p.run _).run w).1).run _).run _).1 = (((f ((p.run _).run v).1).run _).run _).1 ∧
    Paired (((f ((p.run _).run w).1).run _).run _).2 (((f ((p.run _).run v).1).run _).run _).2
  rwa [← same]

theorem aside {p : Proc α} (hp : p.Within Rebuild.Aside) : Follows p := by
  rintro w v ⟨s, h⟩ -
  have common (e : Effect) (he : Rebuild.Aside e) : e.Common := by
    cases e with
    | groups | perform | writeStore | leave => simp [Rebuild.Aside, Rebuild.Guarding] at he
    | _ => trivial
  obtain ⟨same, after⟩ := hp.lockstep
    (fun e he => accord_pair.handle (accord_pair.play depth) (common e he)) h
  exact ⟨same, s, after⟩

theorem guarding {p : Proc α} (hp : p.Within Rebuild.Guarding) : Follows p :=
  aside (hp.mono fun _ => .inl)

theorem publish : Follows Rebuild.publish.run := by
  rintro w v ⟨s, h⟩ fits
  obtain ⟨⟨same, drafted⟩, after⟩ := Pair.draft h
  rw [Rebuild.publish_eq, ExceptT.run_bind, Proc.gather_bind] at fits
  rw [Rebuild.publish_eq, ExceptT.run_bind, Proc.run_bind, StateT.run_bind, StateT.run_bind]
  generalize (Rebuild.draft.run.run (handle (play depth))).run w = x at *
  generalize (Rebuild.draft.run.run (handle (play depth))).run v = y at *
  obtain ⟨a, w'⟩ := x
  obtain ⟨b, v'⟩ := y
  obtain rfl : a = b := same
  cases a with
  | error fault => exact ⟨rfl, s, after⟩
  | ok built =>
    obtain ⟨old, build⟩ := built
    obtain ⟨rfl, sound⟩ := drafted _ _ rfl
    have fitting : (Codec.encode build.snapshot.toList).length < 2 ^ 64 :=
      fits _ (List.mem_append_right _ (List.mem_cons_self (a := build.snapshot)))
    have writing : Lockstep (Pair old) Paired (fun a b => a = b ∧ ∀ r : Unit, a = .ok r → True)
        (handle (play depth) (.writeStore build.snapshot (old.changes build.snapshot)))
        (handle (play depth) (.writeStore build.snapshot (old.changes build.snapshot))) :=
      fun w v h =>
        ⟨⟨(Pair.write sound fitting h).1, fun _ _ => trivial⟩, (Pair.write sound fitting h).2⟩
    exact Lockstep.attempt writing (fun _ _ => .pure rfl) (fun _ _ => id) (fun _ => rfl) after

theorem attempt : Follows (Rebuild.attempt settings purge) := by
  rw [Rebuild.attempt, Rebuild.run_eq]
  refine .bind (.bind (.guarding Rebuild.within_lock) fun times => ?_) fun _ =>
    .guarding (Rebuild.within_conclude _)
  cases times with
  | error fault => exact .pure
  | ok times =>
    refine .bind .publish fun published => ?_
    cases published with
    | error fault => exact .bind (.guarding Rebuild.within_abandon) fun _ => .pure
    | ok commit =>
      exact .bind (.guarding Rebuild.within_unlock) fun _ => .bind (.aside Rebuild.within_settle)
        fun _ => .pure

end Follows

def Level (w v : World) : Prop := ∃ s, Twin s w v

namespace Level

variable {settings : Settings} {purge : Option Instant}

theorem start (h : Level w v)
    (fits : Fitting
      ((Rebuild.start settings purge).gather Effect.written (handle (play depth)) w)) :
    (((Rebuild.start settings purge).run (handle (play depth))).run w).1 =
        (((Rebuild.start settings purge).run (handle (play depth))).run v).1 ∧
      Level (((Rebuild.start settings purge).run (handle (play depth))).run w).2
        (((Rebuild.start settings purge).run (handle (play depth))).run v).2 := by
  obtain ⟨s, h⟩ := h
  have alike : w.running = v.running := h.same World.running fun _ _ _ => rfl
  cases running : w.running with
  | true =>
    rw [start_running _ running, start_running _ (alike.symm.trans running)]
    obtain ⟨rest, left, right, locks⟩ := h
    rw [rest]
    exact ⟨rfl, s, rfl, left, right, locks⟩
  | false =>
    rw [gather_start_idle (fun _ => ⟨rfl, rfl⟩) running] at fits
    have entered : Paired { w with running := true } { v with running := true } := by
      obtain ⟨rest, left, right, locks⟩ := h
      rw [rest]
      exact ⟨s, ⟨rfl, left, right, locks⟩, rfl⟩
    obtain ⟨same, t, ⟨rest, left, right, locks⟩, -⟩ := Follows.attempt entered fits
    rw [start_idle _ running, start_idle _ (alike.symm.trans running)]
    refine ⟨same, t, ?_, left, right, locks⟩
    rw [rest]

theorem execute (h : Level w v) (t : Task) (fits : Fitting (w.writes (.execute t))) :
    (((t.execute w.settings).run (handle (play depth))).run w).1 =
        (((t.execute w.settings).run (handle (play depth))).run v).1 ∧
      Level (((t.execute w.settings).run (handle (play depth))).run w).2
        (((t.execute w.settings).run (handle (play depth))).run v).2 := by
  cases t with
  | rebuild purge =>
    obtain ⟨same, after⟩ := h.start fits
    rw [Task.execute, Proc.run_bind]
    exact ⟨congrArg (Except.map fun _ => ()) same, after⟩
  | refreshStatistics groups => exact ⟨rfl, h⟩

def Smooth (stage : Operation × World) : Prop :=
  stage.2.hooks = [] ∧ Fitting (stage.2.writes stage.1)

theorem executeTasks (h : Level w v) (ts : List Task) (smooth : ∀ g ∈ executions ts w, Smooth g) :
    ((Operation.executeTasks (handle (play depth)) w.settings ts).run w).1 =
        ((Operation.executeTasks (handle (play depth)) w.settings ts).run v).1 ∧
      Level ((Operation.executeTasks (handle (play depth)) w.settings ts).run w).2
        ((Operation.executeTasks (handle (play depth)) w.settings ts).run v).2 := by
  induction ts generalizing w v with
  | nil => exact ⟨rfl, h⟩
  | cons t ts ih =>
    obtain ⟨same, after⟩ := h.execute t (smooth _ List.mem_cons_self).2
    have rest := ih after fun g hg => smooth g (List.mem_cons_of_mem _ hg)
    rw [settings_execute] at rest
    refine ⟨?_, rest.2⟩
    exact congrArg₂ (fun r rs => (t, r) :: rs) same rest.1

end Level

theorem concord_twin :
    Concord (fun w v => Twin s w v ∧ w.hooks = []) (Twin s) Eq (play depth) where
  settings h := h.1.same World.settings fun _ _ _ => rfl
  groups h := h.1.same (fun w => w.registry.map fun g => (g.id, g.space)) fun _ _ _ => rfl
  sub := And.left
  ask e he := by
    have hook (moment : Moment) : Lockstep (fun w v => Twin s w v ∧ w.hooks = [])
        (fun w v => Twin s w v ∧ w.hooks = []) (fun _ _ => True) (runHook (play depth) moment)
        (runHook (play depth) moment) := by
      intro w v h
      have unhooked : v.hooks = [] := (h.1.same World.hooks fun _ _ _ => rfl).symm.trans h.2
      rw [runHook_unhooked _ _ h.2, runHook_unhooked _ _ unhooked]
      exact ⟨trivial, h⟩
    refine lockstep_handle (fun _ _ _ => rfl) (fun w v h => h.1.same World.failing fun _ _ _ => rfl)
      (fun _ _ => id) hook hook ?_
    rw [reply_eq_idle he.not_perform]
    intro w v h
    obtain ⟨same, after⟩ := Twin.reply he h.1
    exact ⟨same, after, (reply_frame idle he.not_perform w).1.trans h.2⟩
  direct op hop w v h := Twin.direct hop _ h.1
  refl _ := rfl

theorem Level.settings (h : Level w v) : w.settings = v.settings :=
  h.elim fun _ h => h.same World.settings fun _ _ _ => rfl

theorem Level.other (h : Level w v) {op : Operation} (hop : ¬ op.Starts) (unhooked : w.hooks = []) :
    ((step op).run w).1 = ((step op).run v).1 ∧ Level ((step op).run w).2 ((step op).run v).2 := by
  obtain ⟨s, h⟩ := h
  obtain ⟨same, after⟩ := concord_twin.perform hop ⟨h, unhooked⟩
  exact ⟨same, s, after⟩

theorem Level.tuned (h : Level w v) (m : Settings → StateM World α) (f : α → Answer)
    (hm : ((m w.settings).run w).1 = ((m w.settings).run v).1 ∧
      Level ((m w.settings).run w).2 ((m w.settings).run v).2) :
    let act : StateM World Answer := do return f (← m (← get).settings)
    (act.run w).1 = (act.run v).1 ∧ Level (act.run w).2 (act.run v).2 := by
  intro act
  change f ((m w.settings).run w).1 = f ((m v.settings).run v).1 ∧
    Level ((m w.settings).run w).2 ((m v.settings).run v).2
  rw [← h.settings]
  exact ⟨congrArg f hm.1, hm.2⟩

theorem Level.step (h : Level w v) (op : Operation) (smooth : ∀ g ∈ stages op w, Level.Smooth g) :
    ((step op).run w).1 = ((step op).run v).1 ∧ Level ((step op).run w).2 ((step op).run v).2 := by
  cases op with
  | rebuild purge =>
    exact h.tuned (fun s => (Rebuild.start s purge).run _) .report
      (h.start (smooth _ List.mem_cons_self).2)
  | rebuildSnapshot purge =>
    exact h.tuned (fun s => (Rebuild.start s purge).run _)
      (fun r => .snapshot (r.map Report.snapshot)) (h.start (smooth _ List.mem_cons_self).2)
  | execute t =>
    exact h.tuned (fun s => (t.execute s).run _) .outcome
      (h.execute t (smooth _ List.mem_cons_self).2)
  | executeAll =>
    have direct : ¬ Operation.drain.Starts := id
    obtain ⟨-, drained⟩ := h.other direct (smooth _ List.mem_cons_self).1
    have queue : w.queue.tasks = v.queue.tasks :=
      h.elim fun _ h => h.same (fun w => w.queue.tasks) fun _ _ _ => rfl
    let act (ts : List Task) : StateM World Answer := do
      return .executed (← Operation.executeTasks (handle (play depth)) (← get).settings ts)
    change ((act w.queue.tasks).run (Motion.drain.apply w)).1 =
        ((act v.queue.tasks).run (Motion.drain.apply v)).1 ∧
      Level ((act w.queue.tasks).run (Motion.drain.apply w)).2
        ((act v.queue.tasks).run (Motion.drain.apply v)).2
    rw [← queue]
    exact drained.tuned (fun s => Operation.executeTasks _ s w.queue.tasks) .executed
      (drained.executeTasks w.queue.tasks fun g hg => smooth g (List.mem_cons_of_mem _ hg))
  | _ => exact h.other id (smooth _ List.mem_cons_self).1

theorem Level.steps (h : Level w v) (ops : List Operation)
    (smooth : ∀ g ∈ stagesAll ops w, Level.Smooth g) :
    ((steps ops).run w).1 = ((steps ops).run v).1 ∧
      Level ((steps ops).run w).2 ((steps ops).run v).2 := by
  induction ops generalizing w v with
  | nil => exact ⟨rfl, h⟩
  | cons op ops ih =>
    obtain ⟨same, after⟩ := h.step op fun g hg => smooth g (List.mem_append_left _ hg)
    obtain ⟨others, last⟩ := ih after fun g hg => smooth g (List.mem_append_right _ hg)
    exact ⟨congrArg₂ List.cons same others, last⟩

/-- What an index answers does not tell which kind of store it started with. -/
theorem interchangeable_stores (w : World) (ops : List Operation) (store : Store)
    (fresh : store.Fresh w.lock w.files)
    (smooth : ∀ g ∈ stagesAll ops { w with store := .memory {} }, Level.Smooth g) :
    let run (store : Store) := (steps ops).run { w with store }
    (run store).1 = (run (.memory {})).1 ∧
      ∃ held files, (run store).2 = { (run (.memory {})).2 with store := held, files } := by
  intro run
  have start : Level { w with store := .memory {} } { w with store } :=
    ⟨∅, rfl, rfl, fresh.current, .refl w.files⟩
  obtain ⟨same, t, after⟩ := start.steps ops smooth
  exact ⟨same.symm, _, _, after.rest⟩

def stall : World where
  registry := [
    .fixed "a" 8 ["Foo bar"] true,
    .scripted "b" 8 ["Foo_bar", "Other"] false true none
      [.lookup 8 "Foo bar", .store (.registered "a") ["Late"], .snapshot false, .rebuild none]]

theorem interchangeable_stores_stall :
    let ops : List Operation := [.rebuild none, .keys, .unregister "a",
      .register (.fixed "a" 8 ["Foo bar"] true), .executeAll, .primary 8 "Foo bar", .changes]
    let memory := (steps ops).run { stall with store := .memory {} }
    let file := (steps ops).run { stall with store := .file ⟨"x/i", none⟩ }
    file.1 = memory.1 ∧ file.2.log = memory.2.log ∧ memory.2.log.length = 2 := by
  intro ops memory file
  have absent : ({} : FileSystem).exists? "x/i" = false := by decide +kernel
  have writable : (FileStore.publish ⟨"x/i", none⟩ {} []).1 = .ok () := by decide +kernel
  have fresh : (Store.file ⟨"x/i", none⟩).Fresh stall.lock stall.files :=
    ⟨rfl, absent, writable, ⟨nofun, nofun⟩⟩
  have smooth : ∀ g ∈ stagesAll ops { stall with store := .memory {} }, Level.Smooth g := by
    have checked : ∀ g ∈ stagesAll ops { stall with store := .memory {} },
        g.2.hooks.isEmpty ∧ ∀ s ∈ g.2.writes g.1, (Codec.encode s.toList).length < 2 ^ 64 := by
      decide +kernel
    exact fun g hg => ⟨List.isEmpty_iff.1 (checked g hg).1, (checked g hg).2⟩
  have counted : memory.2.log.length = 2 := by decide +kernel
  obtain ⟨same, _, _, rest⟩ := interchangeable_stores stall ops _ fresh smooth
  refine ⟨same, ?_, counted⟩
  rw [rest]

end World

end ClaimIndex
