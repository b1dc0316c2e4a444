import ClaimIndex.Proofs.Enactment
import ClaimIndex.Proofs.Residue

namespace ClaimIndex

namespace World

open FileSystem (Retains)

open Proc (Yields yields_ask yields_bind yields_map yields_pure)

variable {w v : World} {player : Player} {s : Settings} {α β : Type}

def interruptions (e : Effect) (w : World) : List (Moment × List Operation) :=
  match e.outage? with
  | none => []
  | some (point, _) =>
    w.hooks.filter fun waiting => waiting.1 = .before point ∨ waiting.1 = .after point

def Uninterrupted (player : Player) (p : Proc α) (w : World) : Prop :=
  p.gather interruptions (handle player) w = []

theorem Uninterrupted.bind {p : Proc α} {f : α → Proc β} {a : α}
    (clear : Uninterrupted player (p >>= f) w) (hy : p.Yields (handle player) w a v) :
    Uninterrupted player p w ∧ Uninterrupted player (f a) v := by
  rw [Uninterrupted, hy.gather_bind] at clear
  exact List.append_eq_nil_iff.1 clear

theorem runHook_eq_self {moment : Moment} (none : ∀ waiting ∈ w.hooks, waiting.1 ≠ moment) :
    (runHook player moment).run w = ((), w) := by
  have missing : w.hooks.find? (·.1 = moment) = Option.none :=
    List.find?_eq_none.2 fun waiting there => by simpa using none waiting there
  rw [runHook_run, missing]

theorem handle_uninterrupted {e : Effect} {point : Point} {down : e.Reply}
    (risky : e.outage? = some (point, down))
    (clear : Uninterrupted player (Proc.ask e) w) :
    (handle player e).run w =
      if point ∈ w.failing then (down, w) else (reply player e).run w := by
  have quiet {v : World} (hooks : v.hooks = w.hooks) (moment : Moment)
      (near : moment = .before point ∨ moment = .after point) :
      (runHook player moment).run v = ((), v) := by
    refine runHook_eq_self fun waiting there same => ?_
    have none : interruptions e w = [] := (List.append_eq_nil_iff.1 clear).1
    unfold interruptions at none
    rw [risky] at none
    have away := List.filter_eq_nil_iff.1 none waiting (hooks ▸ there)
    exact away (decide_eq_true (same ▸ near))
  have performs (group : GroupId) (actions : List Operation) : e ≠ .perform group actions := by
    rintro rfl
    cases risky
  cases call_handle player e w with
  | sure safe replied => cases risky.symm.trans safe
  | down risky' before fails failed =>
    cases Option.some.inj (risky.symm.trans risky')
    rw [quiet rfl _ (.inl rfl)] at before
    subst before
    rw [if_pos fails, failed]
  | up risky' before works replied =>
    cases Option.some.inj (risky.symm.trans risky')
    rw [quiet rfl _ (.inl rfl)] at before
    subst before
    rw [if_neg works, replied, quiet (reply_frame player performs _).1 _ (.inr rfl)]
    rfl

def tried (w : World) : Except Fault Bool × Lock × FileSystem :=
  if .lockAcquire ∈ w.failing then (.error (.lock "lock.acquire down"), w.lock, w.files)
  else w.lock.acquire (w.files.wait 1)

def refused (w : World) : World :=
  let metrics :=
    if w.tried.1 matches .ok false then w.metrics.record .lockUnavailable else w.metrics
  { w with lock := w.tried.2.1, files := w.tried.2.2, metrics }

def locked (w : World) : World :=
  { w with lock := w.tried.2.1, files := w.tried.2.2, cache := w.cache.clear }

def consulted (w : World) : Except Fault Snapshot × Store :=
  if .storeRead ∈ w.failing then (.error (.storage "store.read down"), w.store)
  else w.store.read w.files true

def enumerated (w : World) : World :=
  let read := { w with store := w.consulted.2 }
  match w.consulted.1 with
  | .error _ => read
  | .ok _ => enact (Build.deeds w.registry).actions read

theorem handle_acquire (clear : Uninterrupted player (Proc.ask .acquire) w) :
    (handle player .acquire).run w =
      (w.tried.1, { w with lock := w.tried.2.1, files := w.tried.2.2 }) := by
  rw [handle_uninterrupted rfl clear, reply_acquire]
  unfold tried
  split <;> rfl

theorem handle_readStore (clear : Uninterrupted player (Proc.ask (.readStore true)) w) :
    (handle player (.readStore true)).run w =
      (w.consulted.1, { w with store := w.consulted.2 }) := by
  rw [handle_uninterrupted rfl clear]
  unfold consulted
  split <;> rfl

theorem yields_lock {r : Except Fault (Nat × Nat × Instant)}
    (clear : Uninterrupted player (Rebuild.lock s) w)
    (hy : (Rebuild.lock s).Yields (handle player) w r v) : match r with
      | .error _ => w.tried.1 ≠ .ok true ∧ v = w.refused
      | .ok _ => w.tried.1 = .ok true ∧ v = w.locked := by
  obtain ⟨asked, u, hasked, hy⟩ := yields_bind.1 hy
  replace clear := (clear.bind hasked).2
  obtain rfl : w = u := congrArg Prod.snd (yields_ask.1 hasked)
  obtain ⟨taken, u, htaken, hy⟩ := yields_bind.1 hy
  have acquired := yields_ask.1 htaken
  rw [handle_acquire (clear.bind htaken).1] at acquired
  obtain ⟨answer, rfl⟩ := Prod.mk.inj acquired
  match taken with
  | .error fault =>
    obtain ⟨rfl, rfl⟩ := yields_pure.1 hy
    rw [refused, answer]
    exact ⟨nofun, rfl⟩
  | .ok false =>
    obtain ⟨waited, u, hwaited, hy⟩ := yields_bind.1 hy
    obtain rfl := congrArg Prod.snd (yields_ask.1 hwaited)
    obtain ⟨_, u, hcounted, hy⟩ := yields_bind.1 hy
    obtain rfl := congrArg Prod.snd (yields_ask.1 hcounted)
    obtain ⟨rfl, rfl⟩ := yields_pure.1 hy
    rw [refused, answer]
    exact ⟨nofun, rfl⟩
  | .ok true =>
    obtain ⟨entered, u, hentered, hy⟩ := yields_bind.1 hy
    obtain rfl := congrArg Prod.snd (yields_ask.1 hentered)
    obtain ⟨start, u, hstart, hy⟩ := yields_bind.1 hy
    obtain rfl := congrArg Prod.snd (yields_ask.1 hstart)
    obtain ⟨_, u, hcleared, hy⟩ := yields_bind.1 hy
    obtain rfl := congrArg Prod.snd (yields_ask.1 hcleared)
    obtain ⟨rfl, rfl⟩ := yields_pure.1 hy
    exact ⟨answer, rfl⟩

theorem yields_write {new : Snapshot} {c : Changes} {fault : Fault}
    (clear : Uninterrupted player (Proc.ask (.writeStore new c)) w)
    (failed : (handle player (.writeStore new c)).run w = (.error fault, v)) :
    ∃ files, v = { w with files } := by
  rw [handle_uninterrupted rfl clear] at failed
  split at failed
  · obtain ⟨-, rfl⟩ := Prod.mk.inj failed
    exact ⟨w.files, rfl⟩
  · exact (Stays.reply_write failed).2

theorem yields_publish_error {fault : Fault} (hw : w.Running)
    (clear : Uninterrupted (play depth) Rebuild.publish.run w)
    (hy : Rebuild.publish.run.Yields (handle (play depth)) w (.error fault) v) :
    ∃ files notices, v = { w.enumerated with files, notices } := by
  unfold Rebuild.publish at hy clear
  rw [ExceptT.run_bind] at hy clear
  obtain ⟨answer, read, hread, hy⟩ := yields_bind.1 hy
  obtain ⟨consulting, clear⟩ := clear.bind hread
  have reading := yields_ask.1 hread
  rw [handle_readStore consulting] at reading
  obtain ⟨answered, left⟩ := Prod.mk.inj reading
  have running : read.Running := left ▸ hw
  have registered : read.registry = w.registry := left ▸ rfl
  unfold enumerated
  rw [answered, left, ← registered]
  cases answer with
  | error fault =>
    obtain ⟨-, rfl⟩ := yields_pure.1 hy
    exact ⟨read.files, read.notices, rfl⟩
  | ok old =>
    dsimp only at hy clear
    rw [ExceptT.run_bind] at hy clear
    obtain ⟨listed, u, hlist, hy⟩ := yields_bind.1 hy
    replace clear := (clear.bind hlist).2
    obtain ⟨groups, hgroups, rfl⟩ := yields_map.1 hlist
    obtain ⟨rfl, rfl⟩ : read.registry = groups ∧ read = u := Prod.mk.inj (yields_ask.1 hgroups)
    dsimp only at hy clear
    rw [ExceptT.run_bind] at hy clear
    obtain ⟨built, filled, hbuild, hy⟩ := yields_bind.1 hy
    replace clear := (clear.bind hbuild).2
    obtain ⟨⟨-, enacted⟩, -⟩ := Build.enacts_ofGroups read.registry (.refl running) hbuild
    cases built with
    | error fault =>
      obtain ⟨-, rfl⟩ := yields_pure.1 hy
      exact ⟨_, _, enacted⟩
    | ok build =>
      dsimp only at hy clear
      rw [ExceptT.run_bind] at hy clear
      obtain ⟨wrote, written, hwrite, hy⟩ := yields_bind.1 hy
      cases wrote with
      | ok _ => cases (yields_pure.1 hy).1
      | error fault =>
        obtain ⟨-, rfl⟩ := yields_pure.1 hy
        obtain ⟨files, same⟩ := yields_write (clear.bind hwrite).1 (yields_ask.1 hwrite)
        exact ⟨files, filled.notices, by rw [same, enacted]⟩

theorem yields_abandon {answer : Unit} (clear : Uninterrupted player Rebuild.abandon w)
    (hy : Rebuild.abandon.Yields (handle player) w answer v) :
    (∃ lock files notices, v = { w with lock, files, notices }) ∧
      (v.lock.isHeld v.files = false ∨ v.notices.getLast? = some .lockNotReleased) := by
  obtain ⟨released, u, hrelease, hy⟩ := yields_bind.1 hy
  have left := yields_ask.1 hrelease
  rw [handle_uninterrupted rfl (clear.bind hrelease).1] at left
  have freed : (∃ lock files, u = { w with lock, files }) ∧
      (released = .ok () → u.lock.isHeld u.files = false) := by
    split at left
    · obtain ⟨rfl, rfl⟩ := Prod.mk.inj left
      exact ⟨⟨w.lock, w.files, rfl⟩, nofun⟩
    · obtain ⟨rfl, rfl⟩ := Prod.mk.inj left
      exact ⟨⟨_, _, rfl⟩, Lock.isHeld_released⟩
  obtain ⟨⟨lock, files, rfl⟩, free⟩ := freed
  cases released with
  | ok _ =>
    obtain ⟨-, rfl⟩ := yields_pure.1 hy
    exact ⟨⟨lock, files, w.notices, rfl⟩, .inl (free rfl)⟩
  | error fault =>
    obtain rfl := congrArg Prod.snd (yields_ask.1 hy)
    exact ⟨⟨lock, files, _, rfl⟩, .inr (List.getLast?_concat ..)⟩

theorem isHeld_tried (held : w.lock.isHeld w.files = true) (untaken : w.tried.1 ≠ .ok true) :
    w.tried.2.1.isHeld w.tried.2.2 = true := by
  unfold tried at untaken ⊢
  split
  · exact held
  · rename_i works
    rw [if_neg works] at untaken
    exact Lock.isHeld_refused (Lock.isHeld_wait 1 held) untaken

theorem refused_idle (idle : w.running = false) :
    { refused { w with running := true } with running := false } = w.refused := by
  cases w
  cases idle
  rfl

inductive Fails (w v : World) : Prop
  | refused (untaken : w.tried.1 ≠ .ok true)
    (left : v = { w.refused with metrics := w.refused.metrics.record .failed })
  | abandoned (taken : w.tried.1 = .ok true)
    (left : v = { w.locked.enumerated with
      metrics := w.locked.enumerated.metrics.record .failed
      lock := v.lock
      files := v.files
      notices := v.notices })
    (free : v.lock.isHeld v.files = false ∨ v.notices.getLast? = some .lockNotReleased)

theorem fails_attempt {purge : Option Instant} {fault : Fault} (hw : w.Running)
    (clear : Uninterrupted (play depth) (Rebuild.attempt s purge) w)
    (hy : (Rebuild.attempt s purge).Yields (handle (play depth)) w (.error fault) v) :
    Fails w v := by
  obtain ⟨result, ran, hrun, hconclude⟩ := yields_bind.1 hy
  obtain ⟨rfl, left⟩ := Rebuild.yields_conclude hconclude
  replace clear := (clear.bind hrun).1
  rw [Rebuild.run_eq] at hrun clear
  obtain ⟨times, locked, hlock, hproceed⟩ := yields_bind.1 hrun
  obtain ⟨locking, clear⟩ := clear.bind hlock
  have reached := yields_lock locking hlock
  cases times with
  | error fault =>
    obtain ⟨untaken, rfl⟩ := reached
    obtain ⟨-, rfl⟩ := yields_pure.1 hproceed
    exact .refused untaken left
  | ok times =>
    obtain ⟨taken, rfl⟩ := reached
    obtain ⟨stopped, hpublish, habandon⟩ := Rebuild.yields_proceed_error hproceed
    have running : w.locked.Running := hw
    obtain ⟨publishing, clear⟩ := Uninterrupted.bind clear hpublish
    obtain ⟨files, notices, rfl⟩ := yields_publish_error running publishing hpublish
    obtain ⟨⟨lock, files', notices', rfl⟩, free⟩ :=
      yields_abandon (Uninterrupted.bind clear habandon).1 habandon
    rw [left]
    exact .abandoned taken rfl free

/-- A rebuild that fails is over, counts once as a failure, changes files in known places only and
leaves a snapshot that has a place of its own as it was.  If nothing interrupts it, either it has
not obtained the lock, and whoever holds that still does, or it has done what its groups do, and the
lock is free again unless its last notice says otherwise. -/
theorem failed_rebuild (w : World) (purge : Option Instant) (fault : Fault)
    (failed : ((exec (Rebuild.start w.settings purge)).run w).1 = .error fault) :
    let after := ((exec (Rebuild.start w.settings purge)).run w).2
    after.running = false ∧
    after.metrics.count Metrics.Name.failures = w.metrics.count Metrics.Name.failures + 1 ∧
    Retains w.Loose w.files after.files ∧
    (w.Sited after.files →
      (after.store.read after.files true).1 = (w.store.read w.files true).1) ∧
    (Uninterrupted (play depth) (Rebuild.start w.settings purge) w →
      w.tried.1 ≠ .ok true ∧
          after = { w.refused with metrics := w.refused.metrics.record .failed } ∧
          (w.lock.isHeld w.files = true → after.lock.isHeld after.files = true) ∨
        w.tried.1 = .ok true ∧
          let acted := { w.locked with running := true }.enumerated
          after = { acted with
            running := false
            metrics := acted.metrics.record .failed
            lock := after.lock
            files := after.files
            notices := after.notices } ∧
          (after.lock.isHeld after.files = false ∨
            after.notices.getLast? = some .lockNotReleased)) := by
  intro after
  have idle : w.running = false := by
    cases running : w.running with
    | false => rfl
    | true => cases (congrArg Prod.fst (start_running _ running _ purge)).symm.trans failed
  have started := start_idle (play depth) idle w.settings purge
  cases attempted : ((Rebuild.attempt w.settings purge).run (handle (play depth))).run
    { w with running := true } with
  | mk answer ended =>
  rw [attempted] at started
  obtain rfl : answer = .error fault := (congrArg Prod.fst started).symm.trans failed
  have stopped : after = { ended with running := false } := congrArg Prod.snd started
  obtain ⟨kept, counted⟩ := failures_attempt (w := { w with running := true }) rfl attempted
  have still : Preserves w after := by
    rw [stopped]
    exact ⟨kept.home, kept.lock, kept.files⟩
  refine ⟨by rw [stopped], ?_, still.files, still.latest, fun uninterrupted => ?_⟩
  · rw [stopped]
    exact counted
  rw [Uninterrupted, gather_start_idle (fun _ => ⟨rfl, rfl⟩) idle] at uninterrupted
  have lock : after.lock = ended.lock := by rw [stopped]
  have files : after.files = ended.files := by rw [stopped]
  have notices : after.notices = ended.notices := by rw [stopped]
  cases fails_attempt (w := { w with running := true }) rfl uninterrupted attempted with
  | refused untaken left =>
    refine .inl ⟨untaken, ?_, fun held => ?_⟩
    · rw [stopped, left]
      exact congrArg (fun v : World => { v with metrics := v.metrics.record .failed })
        (refused_idle idle)
    · rw [lock, files, left]
      exact isHeld_tried held untaken
  | abandoned taken left free =>
    refine .inr ⟨taken, ?_, ?_⟩
    · rw [lock, files, notices]
      exact stopped.trans (congrArg (fun v : World => { v with running := false }) left)
    · rw [lock, files, notices]
      exact free

def broken : World where
  store := .file ⟨"x/i", none⟩
  registry := [
    .aggregate "all" 8 [.fixed "member" 8 ["Foo"] true,
      .scripted "down" 8 [] false true (some "gone") [.advance (.ofSeconds 1)]],
    .scripted "a" 8 ["Foo"] false true none
      [.store (.fixed "late" 8 [] true) ["Late"], .rebuild none]]

theorem failed_rebuild_broken :
    let ran := (exec (Rebuild.start broken.settings none)).run broken
    let acted := enumerated { broken.locked with running := true }
    ran.1.toOption.isNone = true ∧ ran.2.running = false ∧
      ran.2.metrics.count Metrics.Name.failures = 1 ∧
      acted.slots[Overlay.slot]?.isSome = true ∧ ran.2.slots = acted.slots ∧
      ran.2.clock = acted.clock ∧ ran.2.queue = acted.queue ∧
      ran.2.lock.isHeld ran.2.files = false ∧
      (ran.2.store.read ran.2.files true).1 = (broken.store.read broken.files true).1 := by
  have fails := failed_rebuild broken none
  have stops :
      ((exec (Rebuild.start broken.settings none)).run broken).1.toOption.isNone = true := by
    decide +kernel
  have free : ((exec (Rebuild.start broken.settings none)).run broken).2.lock.isHeld
      ((exec (Rebuild.start broken.settings none)).run broken).2.files = false := by decide +kernel
  have vacant : (((exec (Rebuild.start broken.settings none)).run broken).2.files.node?
      (FileSystem.place "x/i")).isNone = true := by decide +kernel
  have merged : { broken.locked with running := true : World }.enumerated.slots[
      Overlay.slot]?.isSome = true := by decide +kernel
  generalize (exec (Rebuild.start broken.settings none)).run broken = ran
    at fails stops free vacant ⊢
  generalize enumerated { broken.locked with running := true } = acted at fails merged ⊢
  have taken : broken.tried.1.toOption = some true := by decide +kernel
  have absent : broken.files.node? (FileSystem.place "x/i") = none := by decide +kernel
  have uncounted : broken.metrics.count Metrics.Name.failures = 0 := by decide +kernel
  have uninterrupted : Uninterrupted (play depth) (Rebuild.start broken.settings none) broken := by
    have clear : ((Rebuild.start broken.settings none).gather interruptions
        (handle (play depth)) broken).isEmpty = true := by decide +kernel
    exact List.isEmpty_iff.1 clear
  have sited : broken.Sited ran.2.files := by
    rintro path ⟨⟩
    refine ⟨nofun, .inr absent, fun directory => ?_⟩
    rw [directory] at vacant
    cases vacant
  cases answered : ran.1 with
  | ok report =>
    rw [answered] at stops
    cases stops
  | error fault =>
    obtain ⟨idle, counted, -, latest, left⟩ := fails fault answered
    obtain ⟨untaken, -⟩ | ⟨-, after, -⟩ := left uninterrupted
    · cases tried : broken.tried.1 with
      | ok obtained =>
        rw [tried] at taken untaken
        cases taken
        exact absurd rfl untaken
      | error fault =>
        rw [tried] at taken
        cases taken
    · rw [uncounted] at counted
      have slots : ran.2.slots = acted.slots := by rw [after]
      have clock : ran.2.clock = acted.clock := by rw [after]
      have queue : ran.2.queue = acted.queue := by rw [after]
      exact ⟨answered ▸ stops, idle, counted, merged, slots, clock, queue, free, latest sited⟩

def overlapping : World where
  store := .file ⟨"snap", none⟩
  lock := .file { path := "snap/lock", timeout := .ofSeconds 5, staleAfter := .ofSeconds 60 }
  registry := [.fixed "core" 8 ["Mainpage"] true]

def stuck : World where
  registry := [.scripted "down" 8 [] false true (some "gone") []]
  failing := [.lockRelease]

def visited : World where
  registry := [.scripted "down" 8 [] false true (some "gone") []]
  hooks := [(.after .storeRead, [.store (.fixed "late" 8 [] true) ["Late"]])]

/-- Besides what its groups do, a rebuild that fails can leave a directory in the place of the
snapshot, the lock held, and what others did meanwhile. -/
theorem rebuild_leaves :
    let ran (w : World) := (exec (Rebuild.start w.settings none)).run w
    let latest (w : World) := (w.store.read w.files true).1.toOption.isSome
    ((ran overlapping).1.toOption.isNone = true ∧ latest overlapping = true ∧
      (Build.deeds overlapping.registry).actions.length = 0 ∧
      latest (ran overlapping).2 = false) ∧
    ((ran stuck).1.toOption.isNone = true ∧ stuck.lock.isHeld stuck.files = false ∧
      (ran stuck).2.lock.isHeld (ran stuck).2.files = true) ∧
    ((ran visited).1.toOption.isNone = true ∧ visited.slots[Overlay.slot]?.isNone = true ∧
      (Build.deeds visited.registry).actions.all (·.2.isEmpty) = true ∧
      (ran visited).2.slots[Overlay.slot]?.isSome = true) := by
  refine ⟨?_, ?_, ?_⟩
  · decide +kernel
  · decide +kernel
  · decide +kernel

end World

end ClaimIndex
