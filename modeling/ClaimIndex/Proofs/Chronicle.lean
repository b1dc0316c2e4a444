import ClaimIndex.Proofs.Membership
import ClaimIndex.Proofs.Places
import ClaimIndex.Proofs.Shared
import ClaimIndex.Proofs.Steps

/-! The log of an index against its latest snapshot.  A rebuild that commits tells what has
changed, and nothing else publishes or tells. -/

namespace ClaimIndex

open FileSystem (place)

namespace Store

variable {s : Store} {fs fs' : FileSystem} {new t : Snapshot}

def Vacant (s : Store) (fs : FileSystem) : Prop :=
  ∃ path, s.home = .inr path ∧ ∀ content, fs.node? (place path) ≠ some (.file content)

theorem Vacant.read (h : s.Vacant fs) (answered : (s.read fs true).1 = .ok t) : t = ∅ := by
  obtain ⟨path, home, absent⟩ := h
  cases s with
  | memory m | whole m => cases home
  | file f =>
    obtain rfl : f.path = path := Sum.inr.inj home
    have unread (bytes : Bytes) : fs.read f.path ≠ .ok bytes := fun content =>
      absent bytes (FileSystem.read_eq_ok.1 content).2
    have loaded : f.load fs = .ok t := (f.read_true fs).symm.trans answered
    unfold FileStore.load at loaded
    split at loaded
    · split at loaded
      · cases loaded
      · exact absurd ‹_› (unread _)
    · exact (Except.ok.inj loaded).symm

theorem write_error {c : Changes} {fault : Fault} (failed : (s.write fs new c).1 = .error fault) :
    (s.write fs new c).2.1 = s ∧ (s.Holds fs t → s.Holds (s.write fs new c).2.2 t) ∧
      (s.Vacant fs → s.Vacant (s.write fs new c).2.2) := by
  obtain ⟨same, f, rfl, kept⟩ := write_failed failed
  have apart := f.place_temporary_ne.symm
  refine ⟨same, kept.read apart, ?_⟩
  rintro ⟨path, home, absent⟩
  obtain rfl : f.path = path := Sum.inr.inj home
  exact ⟨f.path, rfl, fun content there => absent content ((kept.file _ _ apart).1 there)⟩

end Store

namespace Lock

variable {l : Lock} {fs : FileSystem} {path : String} {content : Bytes}

theorem file_acquire
    (apart : ∀ lock, l.path? = some lock → place path ≠ place lock) :
    (l.acquire fs).2.2.node? (place path) = some (.file content) ↔
      fs.node? (place path) = some (.file content) := by
  cases l with
  | memory held => exact Iff.rfl
  | file f => exact (f.retains_acquire fs).file _ _ (apart f.path rfl)

theorem file_release
    (apart : ∀ lock, l.path? = some lock → place path ≠ place lock) :
    (l.release fs).2.2.node? (place path) = some (.file content) ↔
      fs.node? (place path) = some (.file content) := by
  cases l with
  | memory held => exact Iff.rfl
  | file f => exact (f.retains_release fs).file _ _ (apart f.path rfl)

end Lock

namespace World

variable {w v : World} {m : Motion} {path : String} {content : Bytes} {s new : Snapshot}

theorem file_apply (hm : m.Tame)
    (apart : ∀ lock, w.lock.path? = some lock → place path ≠ place lock) :
    (m.apply w).files.node? (place path) = some (.file content) ↔
      w.files.node? (place path) = some (.file content) := by
  cases m with
  | reply e =>
    cases e with
    | writeStore | leave => exact hm.elim
    | acquire => exact (Lock.file_acquire apart).trans (by rw [FileSystem.node?_wait])
    | release => exact Lock.file_release apart
    | enqueue task =>
      obtain ⟨tasks, e⟩ := exists_tasks idle task w
      rw [Motion.apply, e]
    | _ => exact Iff.rfl
  | _ => exact Iff.rfl

def Motion.Hushed : Motion → Prop
  | reply e => e.Tame ∧ ∀ page change, e ≠ .notify page change
  | _ => True

theorem Motion.Hushed.tame (hm : m.Hushed) : m.Tame := by
  cases m with
  | reply e => exact hm.1
  | _ => trivial

theorem Motion.Ordinary.hushed (hm : m.Ordinary) : m.Hushed := by
  cases m with
  | reply e =>
    refine ⟨Effect.Merging.tame hm, ?_⟩
    rintro page change rfl
    obtain hm | ⟨entry, hm⟩ := hm
    · exact hm
    · cases hm
  | _ => trivial

theorem Motion.kind_hushed : Kind Motion.Hushed := ⟨fun _ hm => hm.tame.staying, fun _ => trivial⟩

theorem hushed_play (depth : Nat) : (play depth).Makes Motion.Hushed :=
  fun label operations w hw => (ordinary_play depth label operations w hw).mono fun _ =>
    Motion.Ordinary.hushed

theorem log_apply (hm : m.Hushed) (w : World) : (m.apply w).log = w.log := by
  cases m with
  | reply e =>
    cases e with
    | notify page change => exact absurd rfl (hm.2 page change)
    | enqueue task =>
      obtain ⟨tasks, e⟩ := exists_tasks idle task w
      rw [Motion.apply, e]
    | _ => rfl
  | _ => rfl

theorem Moves.log (h : Moves Motion.Hushed w v) : v.log = w.log :=
  h.same fun _ w hm => log_apply hm w

theorem hushed_aside {e : Effect} (he : Rebuild.Hushed Rebuild.Aside e) :
    Motion.Hushed (.reply e) :=
  ⟨aside_tame he.1, he.2⟩

/-- A snapshot that is the latest one as long as nothing is published.  Before there is a file,
nothing has been told. -/
structure Shows (w : World) (s : Snapshot) : Prop extends Durable w s where
  latest : w.store.Holds w.files s ∨ s = ∅ ∧ w.log = [] ∧ w.store.Vacant w.files

theorem Keeps.shows (h : w.Keeps s) : w.Shows s := ⟨h.toDurable, .inl h.holds⟩

theorem Shows.apply (hm : m.Hushed) (h : w.Shows s) : (m.apply w).Shows s := by
  refine ⟨h.toDurable.apply hm.tame, ?_⟩
  obtain holds | ⟨rfl, untold, path, home, absent⟩ := h.latest
  · exact .inl (Keeps.apply hm.tame ⟨h.toDurable, holds⟩).holds
  · refine .inr ⟨rfl, (log_apply hm w).trans untold, path, (home_apply hm.tame w).trans home, ?_⟩
    exact fun content there =>
      absent content ((file_apply hm.tame fun lock => h.apart path lock home).1 there)

theorem Shows.moves (h : w.Shows s) (hm : Moves Motion.Hushed w v) : v.Shows s :=
  hm.keeps (I := fun w => w.Shows s) (fun _ _ hm h => h.apply hm) h

theorem Shows.read (h : w.Shows s) (sound : s.WellFormed) {t : Snapshot}
    (answered : (w.store.read w.files true).1 = .ok t) : t = s := by
  obtain holds | ⟨rfl, -, vacant⟩ := h.latest
  · exact Except.ok.inj (answered.symm.trans (holds.read sound h.fits))
  · exact vacant.read answered

structure Chronicles (w : World) (s : Snapshot) : Prop extends Shows w s where
  sound : s.WellFormed
  addressed : s.Addressed
  consistent : Consistent w.log
  mirrors : Mirrors w.log s

theorem Chronicles.apply (hm : m.Hushed) (h : w.Chronicles s) : (m.apply w).Chronicles s := by
  refine ⟨h.toShows.apply hm, h.sound, h.addressed, ?_, ?_⟩
  · rw [log_apply hm]
    exact h.consistent
  · rw [log_apply hm]
    exact h.mirrors

theorem Chronicles.moves (h : w.Chronicles s) (hm : Moves Motion.Hushed w v) : v.Chronicles s :=
  hm.keeps (I := fun w => w.Chronicles s) (fun _ _ hm h => h.apply hm) h

theorem Chronicles.bound (h : w.Chronicles s) (running : Bool) :
    { w with running }.Chronicles s :=
  ⟨⟨⟨h.apart, h.fits⟩, h.latest⟩, h.sound, h.addressed, h.consistent, h.mirrors⟩

theorem Chronicles.of_log (h : w.Chronicles s) (shows : v.Shows s) (log : v.log = w.log) :
    v.Chronicles s :=
  ⟨shows, h.sound, h.addressed, log ▸ h.consistent, log ▸ h.mirrors⟩

theorem Chronicles.tell (h : w.Chronicles s) (keeps : v.Keeps new)
    (log : v.log = w.log ++ s.notifications new) (sound : new.WellFormed)
    (addressed : new.Addressed) : v.Chronicles new := by
  obtain ⟨consistent, mirrors⟩ := h.mirrors.append h.consistent h.sound h.addressed addressed
  exact ⟨keeps.shows, sound, addressed, log ▸ consistent, log ▸ mirrors⟩

section

open Proc (Yields yields_bind yields_ask yields_pure)

variable {α : Type} {depth : Nat} {a : α}

theorem hushed_yields {p : Proc α} (hp : p.Within (Rebuild.Hushed Rebuild.Aside))
    (hw : w.Running) (hy : p.Yields (handle (play depth)) w a v) : Moves Motion.Hushed w v :=
  (inert_handle Motion.kind_hushed (hushed_play depth)).yields
    (hp.mono fun _ => hushed_aside) hw hy

theorem Shows.latest_eq (h : w.Shows s) {primary : Snapshot} (home : w.store.home = .inl primary) :
    primary = s := by
  obtain holds | ⟨-, -, path, there, -⟩ := h.latest
  · exact (Store.holds_inl home).1 holds
  · rw [home] at there
    cases there

theorem Shows.draft (h : w.Shows s) (sound : s.WellFormed) (hw : w.Running)
    {r : Except Fault (Snapshot × Build)}
    (hy : Rebuild.draft.run.Yields (handle (play depth)) w r v) :
    Moves Motion.Hushed w v ∧ ∀ old build, r = .ok (old, build) →
      old = s ∧ ∃ groups, build = Build.outcome groups := by
  have H := inert_handle Motion.kind_hushed (hushed_play depth)
  refine ⟨H.yields (Rebuild.within_draft.mono fun e he => ?_) hw hy, ?_⟩
  · cases e with
    | readStore | groups | perform | report => exact ⟨trivial, nofun⟩
    | _ => exact he.elim
  rintro old build rfl
  obtain ⟨read, u, hread, hy⟩ := Proc.yields_bind_ok.1 hy
  obtain ⟨groups, listed, hlist, hy⟩ := Proc.yields_bind_ok.1 hy
  obtain ⟨built, x, hbuild, hy⟩ := Proc.yields_bind_ok.1 hy
  cases (Proc.yields_pure_ok.1 hy).1
  have reading := call_handle (play depth) (.readStore true) w
  rw [yields_ask.1 hread] at reading
  obtain ⟨y, y', before, answered, -⟩ := reading.replied Motion.kind_hushed (hushed_play depth) hw
    (fun v => running_reply trivial (tame_play depth)) (by rintro _ _ ⟨⟩; simp)
  exact ⟨(h.moves before).read sound (congrArg Prod.fst answered), groups,
    Build.eq_outcome hbuild⟩

theorem moves_hooked {moment : Moment} (hw : w.Running)
    (h : v = ((runHook (play depth) moment).run w).2) : Moves Motion.Hushed w v :=
  h ▸ moves_runHook Motion.kind_hushed (hushed_play depth) moment hw

theorem Shows.write (h : w.Shows s) (durable : w.Durable new) {player : Player}
    {r : Except Fault Unit} (hr : (reply player (.writeStore new (s.changes new))).run w = (r, v)) :
    v.running = w.running ∧ v.log = w.log ∧ (∀ fault, r = .error fault → v.Shows s) ∧
      (r = .ok () → v.Keeps new) := by
  have replied := hr
  rw [reply_writeStore] at replied
  obtain ⟨rfl, rfl⟩ := Prod.mk.inj replied
  refine ⟨rfl, rfl, fun fault failed => ?_, fun done => ?_⟩
  · obtain ⟨same, holds, vacant⟩ := Store.write_error (t := s) failed
    refine ⟨⟨fun path lock home => h.apart path lock (same ▸ home), fun path home =>
      h.fits path (same ▸ home)⟩, ?_⟩
    dsimp only
    rw [same]
    exact h.latest.imp holds fun ⟨empty, untold, absent⟩ => ⟨empty, untold, vacant absent⟩
  · exact keeps_write durable (fun primary => h.latest_eq) (hr.trans (Prod.ext done rfl))

theorem Shows.handle_write (h : w.Shows s) (hw : w.Running) (durable : w.Durable new)
    {r : Except Fault Unit}
    (hr : (handle (play depth) (.writeStore new (s.changes new))).run w = (r, v)) :
    v.Running ∧ v.log = w.log ∧ (∀ fault, r = .error fault → v.Shows s) ∧
      (r = .ok () → v.Keeps new) := by
  have wrote := call_handle (play depth) (.writeStore new (s.changes new)) w
  rw [hr] at wrote
  cases wrote with
  | sure safe replied => cases safe
  | down risky before fails failed =>
    have moved := moves_hooked hw before
    obtain ⟨rfl, rfl⟩ := Prod.mk.inj failed
    cases risky
    exact ⟨moved.running Motion.kind_hushed hw, moved.log, fun _ _ => h.moves moved, nofun⟩
  | up risky before works replied =>
    rename_i point down x
    have moved := moves_hooked hw before
    have tame := moved.mono fun _ => Motion.Hushed.tame
    have running : x.Running := moved.running Motion.kind_hushed hw
    have answer : (reply (play depth) (.writeStore new (s.changes new))).run x =
        (((reply (play depth) (.writeStore new (s.changes new))).run x).1,
          ((reply (play depth) (.writeStore new (s.changes new))).run x).2) := rfl
    obtain ⟨still, log, failed, done⟩ := (h.moves moved).write (durable.moves tame) answer
    obtain ⟨rfl, rfl⟩ := Prod.mk.inj replied
    have after := moves_runHook Motion.kind_hushed (hushed_play depth) (.after point)
      (still.trans running)
    have lasting := after.mono fun _ => Motion.Hushed.tame
    exact ⟨after.running Motion.kind_hushed (still.trans running),
      after.log.trans (log.trans moved.log), fun fault same => (failed fault same).moves after,
      fun same => (done same).moves lasting⟩

theorem Shows.deliver (h : w.Shows s) (hw : w.Running) {build : Build}
    (durable : w.Durable build.snapshot) {r : Except Fault Rebuild.Commit}
    (hy : (Rebuild.deliver (s, build)).run.Yields (handle (play depth)) w r v) :
    v.Running ∧ v.log = w.log ∧ (∀ fault, r = .error fault → v.Shows s) ∧
      ∀ commit, r = .ok commit →
        commit = ⟨build, s.diff build.snapshot⟩ ∧ v.Keeps build.snapshot := by
  obtain ⟨a, u, asked, hy⟩ := yields_bind.1 hy
  obtain ⟨still, log, failed, done⟩ := h.handle_write hw durable (yields_ask.1 asked)
  cases a with
  | error fault =>
    obtain ⟨rfl, rfl⟩ := yields_pure.1 hy
    exact ⟨still, log, fun _ _ => failed fault rfl, nofun⟩
  | ok _ =>
    obtain ⟨rfl, rfl⟩ := yields_pure.1 hy
    exact ⟨still, log, nofun, fun _ same => ⟨(Except.ok.inj same).symm, done rfl⟩⟩

theorem Shows.publish (h : w.Shows s) (sound : s.WellFormed) (hw : w.Running)
    (fits : ∀ path, w.store.home = .inr path →
      Fitting (Rebuild.publish.run.gather Effect.written (handle (play depth)) w))
    {r : Except Fault Rebuild.Commit}
    (hy : Rebuild.publish.run.Yields (handle (play depth)) w r v) :
    v.Running ∧ v.log = w.log ∧ (∀ fault, r = .error fault → v.Shows s) ∧
      ∀ commit, r = .ok commit → v.Keeps commit.build.snapshot ∧
        commit.difference = s.diff commit.build.snapshot ∧
        ∃ groups, commit.build = Build.outcome groups := by
  rw [Rebuild.publish_eq] at fits hy
  obtain ⟨drafted, u, hdraft, hy⟩ := yields_bind.1 hy
  obtain ⟨moved, built⟩ := h.draft sound hw hdraft
  have tame := moved.mono fun _ => Motion.Hushed.tame
  have running := moved.running Motion.kind_hushed hw
  cases drafted with
  | error fault =>
    obtain ⟨rfl, rfl⟩ := yields_pure.1 hy
    exact ⟨running, moved.log, fun _ _ => h.moves moved, nofun⟩
  | ok drafted =>
    obtain ⟨old, build⟩ := drafted
    obtain ⟨rfl, made⟩ := built _ _ rfl
    have durable : u.Durable build.snapshot := by
      refine ⟨(h.moves moved).apart, fun path home => ?_⟩
      have written := fits path ((Moves.home tame).symm.trans home)
      rw [Proc.Yields.gather_bindAttempt (x := Rebuild.draft) hdraft] at written
      exact written _ (List.mem_append_right _ (List.mem_cons_self (a := build.snapshot)))
    obtain ⟨still, log, failed, done⟩ := (h.moves moved).deliver running durable hy
    refine ⟨still, log.trans moved.log, failed, fun commit same => ?_⟩
    obtain ⟨rfl, keeps⟩ := done commit same
    exact ⟨keeps, rfl, made⟩

theorem notified {changes : List (ChangeKind × Key × Change)} {player : Player}
    (hy : (changes.forM Rebuild.notify).Yields (handle player) w () v) : ∃ notices,
      v = { w with
        log := w.log ++ changes.filterMap fun (_, k, c) => k.page?.map (⟨·, c⟩), notices } := by
  induction changes generalizing w with
  | nil =>
    obtain ⟨-, rfl⟩ := yields_pure.1 hy
    exact ⟨w.notices, by simp⟩
  | cons change changes ih =>
    obtain ⟨kind, k, c⟩ := change
    obtain ⟨_, u, told, hy⟩ := yields_bind.1 hy
    obtain ⟨notices, rfl⟩ := ih hy
    refine ⟨notices, ?_⟩
    simp only [Rebuild.notify] at told
    cases found : k.page? with
    | none =>
      rw [found] at told
      cases told
      simp [found]
    | some page =>
      rw [found] at told
      cases told
      simp [found]

theorem Keeps.settle (h : w.Keeps s) (hw : w.Running) {settings : Settings}
    {commit : Rebuild.Commit} {bound : Instant} {asked taken left : Nat} {report : Report}
    (hy : (Rebuild.settle settings commit bound asked taken left).Yields (handle (play depth)) w
      report v) :
    v.Running ∧ v.Keeps s ∧ v.log = w.log ++
      commit.difference.changes.toList.filterMap fun (_, k, c) => k.page?.map (⟨·, c⟩) := by
  obtain ⟨outcome, ended, hafter, hy⟩ := yields_bind.1 hy
  rw [Rebuild.afterCommit_eq] at hafter
  obtain ⟨_, touched, touching, hafter⟩ := yields_bind.1 hafter
  obtain ⟨_, reconciled, reconciling, hafter⟩ := yields_bind.1 hafter
  obtain ⟨_, announced, announcing, hafter⟩ := yields_bind.1 hafter
  obtain ⟨_, heard, notifying, refreshing⟩ := yields_bind.1 announcing
  obtain ⟨-, rfl⟩ := yields_pure.1 hafter
  have quiet {α : Type} {p : Proc α} {a : α} {u v : World}
      (hp : p.Within (Rebuild.Hushed Rebuild.Aside))
      (hy : p.Yields (handle (play depth)) u a v) (hu : u.Running) : v.Running ∧ v.log = u.log ∧
        (u.Keeps s → v.Keeps s) := by
    have moved := hushed_yields hp hu hy
    exact ⟨moved.running Motion.kind_hushed hu, moved.log, fun h =>
      h.moves (moved.mono fun _ => Motion.Hushed.tame)⟩
  have guarding {e : Effect} (he : Rebuild.Hushed Rebuild.Guarding e) :
      Rebuild.Hushed Rebuild.Aside e := he.mono fun _ => .inl
  obtain ⟨running, log, keeps⟩ := quiet (Rebuild.hushed_touch.mono fun _ => guarding) touching hw
  obtain ⟨running, log', keeps'⟩ := quiet (Rebuild.hushed_reconcile _) reconciling running
  obtain ⟨notices, rfl⟩ := notified notifying
  have kept := keeps' (keeps h)
  obtain ⟨running, log'', keeps''⟩ := quiet ((Rebuild.hushed_refresh _).mono fun _ he =>
    he.mono fun _ => Rebuild.Telling.aside) refreshing running
  obtain ⟨_, tallied, tally, hy⟩ := yields_bind.1 hy
  obtain ⟨_, measured, measure, hy⟩ := yields_bind.1 hy
  obtain ⟨-, rfl⟩ := yields_pure.1 hy
  have recorded (event : Metrics.Event) :
      (Proc.ask (.record event)).Within (Rebuild.Hushed Rebuild.Aside) :=
    .ask ⟨.inl trivial, nofun⟩
  obtain ⟨running, first, stays⟩ := quiet (recorded _) tally running
  obtain ⟨running, second, stays'⟩ := quiet (recorded _) measure running
  refine ⟨running, stays' (stays (keeps'' ⟨⟨kept.apart, kept.fits⟩, kept.holds⟩)), ?_⟩
  rw [second, first, log'', log', log]

theorem Chronicles.hush (h : w.Chronicles s) {p : Proc α}
    (hp : p.Within (Rebuild.Hushed Rebuild.Guarding)) (hw : w.Running)
    (hy : p.Yields (handle (play depth)) w a v) : v.Running ∧ v.Chronicles s := by
  have moved := hushed_yields (hp.mono fun _ he => he.mono fun _ => .inl) hw hy
  exact ⟨moved.running Motion.kind_hushed hw, h.moves moved⟩

theorem Chronicles.proceed (h : w.Chronicles s) (hw : w.Running) {settings : Settings}
    {purge : Option Instant} {times : Except Fault (Nat × Nat × Instant)}
    (fits : ∀ path, w.store.home = .inr path → Fitting
      ((Rebuild.proceed settings purge times).gather Effect.written (handle (play depth)) w))
    {result : Except Fault Report}
    (hy : (Rebuild.proceed settings purge times).Yields (handle (play depth)) w result v) :
    v.Running ∧ ∃ t, v.Chronicles t := by
  match times with
  | .error fault =>
    obtain ⟨-, rfl⟩ := yields_pure.1 hy
    exact ⟨hw, s, h⟩
  | .ok (asked, entered, begun) =>
    obtain ⟨published, u, hpublish, hy⟩ := yields_bind.1 hy
    have fitting : ∀ path, w.store.home = .inr path → Fitting
        (Rebuild.publish.run.gather Effect.written (handle (play depth)) w) := by
      intro path home t ht
      have written := fits path home
      rw [Rebuild.proceed, Proc.gather_bind] at written
      exact written t (List.mem_append_left _ ht)
    obtain ⟨running, log, failed, done⟩ := h.toShows.publish h.sound hw fitting hpublish
    cases published with
    | error fault =>
      obtain ⟨_, _, abandoned, hy⟩ := yields_bind.1 hy
      obtain ⟨-, rfl⟩ := yields_pure.1 hy
      have kept := h.of_log (failed fault rfl) log
      exact (kept.hush Rebuild.hushed_abandon running abandoned).imp id fun kept => ⟨s, kept⟩
    | ok commit =>
      obtain ⟨left, released, unlocked, hy⟩ := yields_bind.1 hy
      obtain ⟨report, settled, settling, hy⟩ := yields_bind.1 hy
      obtain ⟨-, rfl⟩ := yields_pure.1 hy
      obtain ⟨keeps, difference, groups, made⟩ := done commit rfl
      have guarding {e : Effect} (he : Rebuild.Hushed Rebuild.Guarding e) :
          Rebuild.Hushed Rebuild.Aside e := he.mono fun _ => .inl
      have moved := hushed_yields (Rebuild.hushed_unlock.mono fun _ => guarding) running unlocked
      obtain ⟨running, keeps, told⟩ :=
        (keeps.moves (moved.mono fun _ => Motion.Hushed.tame)).settle
          (moved.running Motion.kind_hushed running) settling
      rw [moved.log, log, difference] at told
      refine ⟨running, _, h.tell keeps told ?_ ?_⟩
      · rw [made]
        exact Build.wellFormed_outcome groups
      · rw [made]
        exact Build.addressed_outcome groups

theorem Chronicles.start (h : w.Chronicles s) (idle : w.running = false) {settings : Settings}
    {purge : Option Instant} (fits : ∀ path, w.store.home = .inr path →
      Fitting ((Rebuild.start settings purge).gather Effect.written (handle (play depth)) w)) :
    (((Rebuild.start settings purge).run (handle (play depth))).run w).2.running = false ∧
      ∃ t, (((Rebuild.start settings purge).run (handle (play depth))).run w).2.Chronicles t := by
  obtain ⟨result, ended, hrun, hconclude⟩ := yields_bind.1
    (show (Rebuild.attempt settings purge).Yields (handle (play depth))
      { w with running := true } _ _ from rfl)
  rw [Rebuild.run_eq] at hrun
  obtain ⟨times, locked, hlock, hproceed⟩ := yields_bind.1 hrun
  have entered : Running { w with running := true } := rfl
  obtain ⟨running, kept⟩ := (h.bound true).hush Rebuild.hushed_lock entered hlock
  have fitting : ∀ path, locked.store.home = .inr path → Fitting
      ((Rebuild.proceed settings purge times).gather Effect.written (handle (play depth))
        locked) := by
    intro path home t ht
    have same := Moves.home ((hushed_yields (Rebuild.hushed_lock.mono fun _ he =>
      he.mono fun _ => .inl) entered hlock).mono fun _ => Motion.Hushed.tame)
    have written := fits path (same.symm.trans home)
    rw [gather_start_idle (fun _ => ⟨rfl, rfl⟩) idle, Rebuild.attempt, Proc.gather_bind,
      Rebuild.run_eq, hlock.gather_bind] at written
    exact written t (List.mem_append_left _ (List.mem_append_right _ ht))
  obtain ⟨running, t, told⟩ := kept.proceed running fitting hproceed
  rw [start_idle _ idle]
  exact ⟨rfl, t, (told.hush (Rebuild.hushed_conclude result) running hconclude).2.bound false⟩

end

def Settled (w : World) : Prop := w.running = false ∧ ∃ s, w.Chronicles s

def Smooth (stage : Operation × World) : Prop :=
  stage.2.hooks = [] ∧ ∀ path, stage.2.store.home = .inr path → Fitting (stage.2.writes stage.1)

namespace Settled

theorem ordinary (h : w.Settled) (hm : Moves Motion.Ordinary w v) : v.Settled := by
  obtain ⟨idle, s, h⟩ := h
  exact ⟨(hm.same fun _ w hm => running_apply hm w).trans idle, s,
    h.moves (hm.mono fun _ => Motion.Ordinary.hushed)⟩

theorem execute (h : w.Settled) {t : Task} (smooth : Smooth (.execute t, w)) :
    (((t.execute w.settings).run (handle (play depth))).run w).2.Settled := by
  cases t with
  | rebuild purge =>
    obtain ⟨idle, s, h⟩ := h
    rw [Task.execute, Proc.run_bind]
    exact h.start idle smooth.2
  | refreshStatistics groups => exact h

theorem executeTasks (h : w.Settled) (ts : List Task) (smooth : ∀ g ∈ executions ts w, Smooth g) :
    ((Operation.executeTasks (handle (play depth)) w.settings ts).run w).2.Settled := by
  induction ts generalizing w with
  | nil => exact h
  | cons t ts ih =>
    have rest := ih (h.execute (smooth _ List.mem_cons_self))
      fun g hg => smooth g (List.mem_cons_of_mem _ hg)
    rwa [settings_execute] at rest

theorem step (h : w.Settled) (op : Operation) (smooth : ∀ g ∈ stages op w, Smooth g) :
    ((step op).run w).2.Settled := by
  cases op with
  | rebuild | rebuildSnapshot =>
    obtain ⟨idle, s, h⟩ := h
    exact h.start idle (smooth _ List.mem_cons_self).2
  | execute t => exact h.execute (smooth _ List.mem_cons_self)
  | executeAll =>
    have drained : (Motion.drain.apply w).Settled :=
      h.ordinary (.one (m := .drain) trivial)
    exact drained.executeTasks w.queue.tasks fun g hg => smooth g (List.mem_cons_of_mem _ hg)
  | _ => exact h.ordinary (ordinary_step (smooth _ List.mem_cons_self).1 id)

theorem steps (h : w.Settled) (ops : List Operation) (smooth : ∀ g ∈ stagesAll ops w, Smooth g) :
    ((steps ops).run w).2.Settled := by
  induction ops generalizing w with
  | nil => exact h
  | cons op ops ih =>
    exact ih (h.step op fun g hg => smooth g (List.mem_append_left _ hg))
      fun g hg => smooth g (List.mem_append_right _ hg)

end Settled

/-- An index before its first rebuild.  Nothing has been told and the store is empty; a store in a
file has no file yet, and the file of the lock is elsewhere. -/
structure Blank (w : World) : Prop where
  idle : w.running = false
  untold : w.log = []
  primary : ∀ primary, w.store.home = .inl primary → primary = ∅
  file : ∀ path, w.store.home = .inr path →
    (∀ content, w.files.node? (place path) ≠ some (.file content)) ∧
      ∀ lock, w.lock.path? = some lock → place path ≠ place lock

theorem Blank.settled (h : w.Blank) : w.Settled := by
  refine ⟨h.idle, ∅, ⟨⟨⟨fun path lock home => (h.file path home).2 lock, fun path _ => ?_⟩,
    ?_⟩, Snapshot.wellFormed_empty, Snapshot.addressed_empty, ?_, ?_⟩⟩
  · decide
  · cases home : w.store.home with
    | inl primary =>
      refine .inl ?_
      rw [Store.Holds, home]
      exact h.primary primary home
    | inr path => exact .inr ⟨rfl, h.untold, path, home, (h.file path home).1⟩
  · rw [h.untold]
    exact .nil
  · rw [h.untold]
    exact mirrors_empty

/-- Whoever follows the log of an index from its beginning never meets a notification that does not
fit, and knows the claimants of every page in the latest snapshot whenever no rebuild is running. -/
theorem replayed_membership (w : World) (ops : List Operation) (blank : w.Blank)
    (smooth : ∀ g ∈ stagesAll ops w, Smooth g) :
    let v := ((steps ops).run w).2
    v.running = false ∧ Consistent v.log ∧
      (∀ s, (v.store.read v.files true).1 = .ok s → Mirrors v.log s ∧
        ∀ k ∈ s, ∃ page, k.page? = some page ∧ ∀ k' ∈ s, k'.page? = some page → k' = k) ∧
      (v.log ≠ [] → ∃ s, (v.store.read v.files true).1 = .ok s) := by
  intro v
  obtain ⟨idle, s, h⟩ := blank.settled.steps ops smooth
  refine ⟨idle, h.consistent, fun t answered => ?_, fun told => ⟨s, ?_⟩⟩
  · obtain rfl := h.read h.sound answered
    refine ⟨h.mirrors, fun k hk => ?_⟩
    obtain ⟨page, found⟩ := (h.addressed k hk).page
    exact ⟨page, found, fun k' hk' found' =>
      (h.addressed k' hk').inj (h.addressed k hk) (found'.trans found.symm)⟩
  · obtain holds | ⟨-, untold, -⟩ := h.latest
    · exact holds.read h.sound h.fits
    · exact absurd untold told

def ledger : World where
  store := .file ⟨"x/i", none⟩
  registry := [.fixed "a" 8 ["Foo bar", "Other"] true, .fixed "b" 8 ["foo_bar"] true]

theorem replayed_membership_ledger :
    let ops : List Operation := [.rebuild none, .unregister "a",
      .register (.scripted "c" 8 ["Other"] false true (some "down") []), .rebuild none,
      .unregister "c", .rebuild none]
    let v := ((steps ops).run ledger).2
    v.log.length = 4 ∧ Consistent v.log ∧ replay v.log ⟨8, "foo_bar"⟩ = ["b"] ∧
      ∃ s, (v.store.read v.files true).1 = .ok s ∧ Mirrors v.log s := by
  intro ops v
  have blank : ledger.Blank := by
    refine ⟨rfl, rfl, nofun, ?_⟩
    rintro path ⟨⟩
    have absent : ledger.files.node? (place "x/i") = none := by decide +kernel
    exact ⟨fun content there => (nomatch absent.symm.trans there), fun lock held => nomatch held⟩
  have smooth : ∀ g ∈ stagesAll ops ledger, Smooth g := by
    have checked : ∀ g ∈ stagesAll ops ledger,
        g.2.hooks.isEmpty ∧ ∀ s ∈ g.2.writes g.1, (Codec.encode s.toList).length < 2 ^ 64 := by
      decide +kernel
    exact fun g hg => ⟨List.isEmpty_iff.1 (checked g hg).1, fun _ _ => (checked g hg).2⟩
  have told : v.log.length = 4 := by decide +kernel
  obtain ⟨-, consistent, mirrors, read⟩ := replayed_membership ledger ops blank smooth
  obtain ⟨s, answered⟩ := read (List.ne_nil_of_length_pos (told ▸ by decide))
  exact ⟨told, consistent, by decide +kernel, s, answered, (mirrors s answered).1⟩

end World

end ClaimIndex
