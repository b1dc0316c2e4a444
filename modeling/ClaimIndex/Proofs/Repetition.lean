import ClaimIndex.Proofs.Chronicle
import ClaimIndex.Proofs.Collision
import ClaimIndex.Proofs.Requests

namespace ClaimIndex

namespace Rebuild

open Proc (ask Yields yields_ask)

variable {σ : Type} {h : Handler σ} {w v : σ} {e : Effect} {s : Settings}
  {purge : Option Instant} {report : Report}

def Silent : Effect → Prop
  | .notify .. | .enqueue (.refreshStatistics _) => False
  | _ => True

theorem Hushed.silent (he : Hushed Guarding e) : Silent e := by
  cases e with
  | notify page change => exact absurd rfl (he.2 page change)
  | enqueue => exact he.1.elim
  | _ => trivial

theorem Drafting.silent (he : Drafting e) : Silent e := by
  cases e with
  | notify | enqueue => exact he.elim
  | _ => trivial

theorem silent_reconcile (bound : Instant) : (reconcile bound).Within Silent := by
  rw [reconcile_eq]
  refine .bind ((sweeping_overlay_reconcile bound rounds).mono fun e he => ?_)
    (respond_within (fun _ => Hushed.silent) trivial)
  cases e with
  | readOverlay | dropOverlay => trivial
  | _ => exact he.elim

theorem announce_empty : announce {} = pure () := rfl

theorem silent_settle {commit : Commit} {bound : Instant} {asked taken left : Nat}
    (same : commit.difference = {}) :
    (settle s commit bound asked taken left).Within Silent := by
  have recorded (event : Metrics.Event) : (ask (.record event)).Within Silent :=
    .ask (E := Silent) trivial
  rw [settle, afterCommit_eq, same, announce_empty]
  exact .bind (.bind (hushed_touch.mono fun _ => Hushed.silent) fun _ =>
    .bind (silent_reconcile bound) fun _ => .bind .pure fun _ => .pure) fun _ =>
      .bind (recorded _) fun _ => .bind (recorded _) fun _ => .pure

theorem Course.silent (hc : Course h s purge w v report) (same : report.difference = {}) :
    ∀ c ∈ (start s purge).calls h w, Silent c.1 := by
  obtain ⟨enter, run, lock, publish, unlock, settle, leave⟩ := hc
  rename_i entered locked published released settled asked taken left begun commit
  obtain ⟨_, rfl⟩ := report_of_settle settle
  intro c hc
  rw [start, (yields_ask.2 enter).calls_bind, if_pos rfl, run.calls_bind, run_eq, lock.calls_bind,
    proceed, publish.calls_bind] at hc
  dsimp only at hc
  rw [unlock.calls_bind] at hc
  simp only [List.mem_append] at hc
  obtain hc | (hc | hc | hc | hc) | hc := hc
  · exact Proc.Within.calls (.ask (E := Silent) (e := .enter) trivial) hc
  · exact (hushed_lock.calls hc).silent
  · obtain drafts | ⟨new, changes, writes⟩ := requests_publish.calls hc
    · exact drafts.silent
    · rw [writes]
      trivial
  · exact (hushed_unlock.calls hc).silent
  · exact Proc.Within.calls (.bind (silent_settle same) fun _ => .pure) hc
  · exact Proc.Within.calls (.bind (.ask (E := Silent) (e := .leave) trivial) fun _ => .pure) hc

end Rebuild

theorem Store.path_write {s : Store} {fs : FileSystem} {new : Snapshot} {c : Changes}
    {path : String} : (s.write fs new c).2.1.home = .inr path ↔ s.home = .inr path := by
  cases s with
  | memory m | whole m => exact ⟨nofun, nofun⟩
  | file f =>
    have same : (f.write fs new).2.1.path = f.path := by
      unfold FileStore.write
      split <;> rfl
    exact iff_of_eq (congrArg (Sum.inr · = Sum.inr path) same)

namespace World

variable {w v : World} {m : Motion} {s : Snapshot} {settings : Settings}
  {purge : Option Instant} {report : Report} {path : String}

theorem Motion.Staying.split (hm : m.Staying) :
    m.Tame ∨ ∃ new c, m = .reply (.writeStore new c) := by
  cases m with
  | reply e =>
    cases e with
    | leave => exact absurd rfl hm
    | writeStore new c => exact .inr ⟨new, c, rfl⟩
    | _ => exact .inl trivial
  | _ => exact .inl trivial

theorem path_start : (((Rebuild.start settings purge).run (handle (play depth))).run
    w).2.store.home = .inr path ↔ w.store.home = .inr path := by
  refine keeps_start (I := fun v => v.store.home = .inr path ↔ w.store.home = .inr path)
    (fun m v hm same => ?_) (fun _ _ => id) Iff.rfl
  obtain tame | ⟨new, c, rfl⟩ := hm.split
  · rw [home_apply tame]
    exact same
  · exact Store.path_write.trans same

theorem lock_start : (((Rebuild.start settings purge).run (handle (play depth))).run
    w).2.lock.path? = w.lock.path? := by
  refine keeps_start (I := fun v => v.lock.path? = w.lock.path?)
    (fun m v hm same => ?_) (fun _ _ => id) rfl
  obtain tame | ⟨new, c, rfl⟩ := hm.split
  · exact (lock_apply tame v).trans same
  · exact same

theorem Keeps.course (h : w.Keeps s) (sound : s.WellFormed) (same : report.snapshot = s)
    (hc : Rebuild.Course (handle (play depth)) settings purge w v report) :
    report.difference = {} ∧ v.Keeps s ∧ v.log = w.log := by
  obtain ⟨enter, -, lock, publish, unlock, settle, leave⟩ := hc
  rename_i entered locked published released settled asked taken left begun commit
  obtain rfl : { w with running := true } = entered := congrArg Prod.snd enter
  obtain ⟨_, rfl⟩ := Rebuild.report_of_settle settle
  have guarding {e : Effect} (he : Rebuild.Hushed Rebuild.Guarding e) :
      Rebuild.Hushed Rebuild.Aside e := he.mono fun _ => .inl
  have started : Keeps { w with running := true } s := h.bound true
  have running : Running { w with running := true } := rfl
  have locking := hushed_yields (Rebuild.hushed_lock.mono fun _ => guarding) running lock
  have locked := started.moves (locking.mono fun _ => Motion.Hushed.tame)
  have running := locking.running Motion.kind_hushed running
  rw [Rebuild.publish_eq] at publish
  obtain ⟨⟨old, build⟩, drafted, draft, deliver⟩ := Proc.yields_bind_ok.1 publish
  obtain ⟨drafting, from_latest⟩ := locked.shows.draft sound running draft
  obtain ⟨rfl, -⟩ := from_latest old build rfl
  have drafted := locked.shows.moves drafting
  have running := drafting.running Motion.kind_hushed running
  obtain ⟨_, _, _, concludes⟩ := Proc.yields_bind_ok.1 deliver
  have made : build = commit.build :=
    congrArg Rebuild.Commit.build (Proc.yields_pure_ok.1 concludes).1
  have again : build.snapshot = old := made ▸ same
  have durable : Durable _ build.snapshot := again ▸ drafted.toDurable
  obtain ⟨running, told, -, done⟩ := drafted.deliver running durable deliver
  obtain ⟨rfl, published⟩ := done commit rfl
  have unlocking := hushed_yields (Rebuild.hushed_unlock.mono fun _ => guarding) running unlock
  have released := published.moves (unlocking.mono fun _ => Motion.Hushed.tame)
  obtain ⟨-, settled, log⟩ :=
    released.settle (unlocking.running Motion.kind_hushed running) settle
  have unchanged : old.diff build.snapshot = {} := by
    rw [again]
    exact Snapshot.diff_of_perm sound sound fun _ => .refl _
  rw [again] at settled
  refine ⟨unchanged, ?_⟩
  rw [← show _ = v from congrArg Prod.snd leave]
  refine ⟨settled.bound false, log.trans ?_⟩
  dsimp only
  rw [unchanged, unlocking.log, told, drafting.log, locking.log]
  exact List.append_nil w.log

theorem Keeps.home_eq (h : w.Keeps s) (h' : v.Keeps s)
    (paths : ∀ path, v.store.home = .inr path ↔ w.store.home = .inr path) :
    v.store.home = w.store.home := by
  match found : w.store.home, found' : v.store.home with
  | .inl primary, .inl primary' =>
    rw [(Store.holds_inl found).1 h.holds, (Store.holds_inl found').1 h'.holds]
  | .inr path, _ => rw [← found', (paths path).2 found]
  | _, .inr path => rw [← found, (paths path).1 found']

/-- While the registry stands, a rebuild that follows another one publishes the same snapshot and
finds no changes: it tells of none, has no statistics refreshed and leaves the store as it is. -/
theorem rebuilding_idempotent (w : World)
    (waiting : ∀ hook ∈ w.hooks, Operation.minorAll hook.2 = true)
    (scripts : ∀ g ∈ w.registry, ∀ actions ∈ g.scripts, Operation.minorAll actions = true)
    (purge purge' : Option Instant) (report report' : Report)
    (first : ((step (.rebuild purge)).run w).1.committed? = some report)
    (fits : ∀ path, w.store.home = .inr path →
      (Codec.encode report.snapshot.toList).length < 2 ^ 64)
    (ops : List Operation) (minor : Operation.minorAll ops = true) :
    let u := ((step (.rebuild purge)).run w).2
    let v := ((steps ops).run u).2
    let v' := ((step (.rebuild purge')).run v).2
    ((step (.rebuild purge')).run v).1.committed? = some report' →
      report'.snapshot = report.snapshot ∧ report'.difference = {} ∧ v'.log = v.log ∧
      (∀ c ∈ (Rebuild.start v.settings purge').calls (handle (play depth)) v,
        Rebuild.Silent c.1) ∧
      v'.store.home = v.store.home ∧
      (∀ path, v.store.home = .inr path → v'.files.read path = v.files.read path) ∧
      (v.store.read v.files true).1 = .ok report.snapshot ∧
      (v'.store.read v'.files true).1 = .ok report.snapshot := by
  intro u v v' second
  have stands : w.Stands w.registry := ⟨rfl, waiting⟩
  have course := course_of_committed first
  obtain ⟨stood, built⟩ := stands.course (minor_play depth) scripts course
  have between : Moves Motion.Minor u v := minor_steps minor stood
  have tame := between.mono fun _ => Motion.Minor.tame
  have standing := stood.moves between
  have course' := course_of_committed second
  obtain ⟨-, built'⟩ := standing.course (minor_play depth) scripts course'
  have same : report'.snapshot = report.snapshot :=
    congrArg Build.snapshot (built'.trans built.symm)
  have sound : report.snapshot.WellFormed := by
    rw [show report.snapshot = _ from congrArg Build.snapshot built]
    exact Build.wellFormed_outcome w.registry
  -- with the file of the lock in the store's place there would be no second commit
  have apart (path lock : String) (home : w.store.home = .inr path)
      (held : w.lock.path? = some lock) : FileSystem.place path ≠ FileSystem.place lock := by
    intro collides
    have reaches := (reaches_course (tame_play depth) home course).moves tame
    have still : v.lock.path? = some lock :=
      (Preserves.moves tame).lock.trans (lock_start.trans held)
    exact Collides.not_course ⟨reaches, lock, still, collides⟩ (minor_play depth) standing course'
  have kept : v.Keeps report.snapshot :=
    (keeps_course (tame_play depth) ⟨apart, fits⟩ course).moves tame
  obtain ⟨difference, kept', log⟩ := kept.course sound same course'
  have home := kept.home_eq kept' fun path => path_start
  refine ⟨same, difference, log, course'.silent difference, home, fun path there => ?_,
    kept.holds.read sound kept.fits, kept'.holds.read sound kept'.fits⟩
  rw [(Store.holds_inr there).1 kept.holds, (Store.holds_inr (home.trans there)).1 kept'.holds]

def attic : World where
  store := .memory
    { primary := (∅ : Snapshot).insert ⟨"8:old"⟩ (.single "a"), lagged := true }
  registry := [
    .aggregate "all" 8 [.fixed "b" 8 ["Other"] true, .fixed "gone" 8 ["Foo"] false],
    .fixed "a" 8 ["Foo", "foo"] true,
    .scripted "b" 8 ["Other", "foo"] false true none
      [.lookup 8 "Foo", .advance (.ofMillis 5), .store (.registered "a") ["Baz"]]]

theorem rebuilding_idempotent_attic : ∃ report report',
    let u := ((step (.rebuild none)).run attic).2
    let v := ((steps [.lookup 8 "foo", .storeFor "b" ["Baz"], .advance (.ofMillis 5), .sync]).run
      u).2
    let again := (step (.rebuild (some .zero))).run v
    ((step (.rebuild none)).run attic).1.committed? = some report ∧
    again.1.committed? = some report' ∧
    report.snapshot.idsOf ⟨"8:foo"⟩ = ["a", "b"] ∧ v.log.length = 3 ∧
    report'.snapshot = report.snapshot ∧ report'.difference = {} ∧ again.2.log = v.log ∧
    (again.2.store.read again.2.files true).1 = .ok report.snapshot := by
  have ran : (((step (.rebuild none)).run attic).1.committed?.map fun report =>
      report.snapshot.idsOf ⟨"8:foo"⟩) = some ["a", "b"] := by decide +kernel
  obtain ⟨report, committed, found⟩ := Option.map_eq_some_iff.1 ran
  let v := ((steps [.lookup 8 "foo", .storeFor "b" ["Baz"], .advance (.ofMillis 5), .sync]).run
    ((step (.rebuild none)).run attic).2).2
  have reran : ((step (.rebuild (some .zero))).run v).1.committed?.isSome = true := by
    decide +kernel
  obtain ⟨report', recommitted⟩ := Option.isSome_iff_exists.1 reran
  obtain ⟨same, unchanged, untold, -, -, -, -, latest⟩ :=
    rebuilding_idempotent attic nofun (by decide) none (some .zero) report report' committed nofun
      [.lookup 8 "foo", .storeFor "b" ["Baz"], .advance (.ofMillis 5), .sync] rfl recommitted
  exact ⟨report, report', committed, recommitted, found, by decide +kernel, same, unchanged,
    untold, latest⟩

end World

end ClaimIndex
