import ClaimIndex.Proofs.Publication
import ClaimIndex.Proofs.Settlement

namespace ClaimIndex.World

open Rebuild (Guarding Aside)
open Proc (Yields yields_bind yields_ask yields_pure)

variable {w v : World} {player : Player} {e : Effect} {s : Settings}

theorem aside_not_perform (he : Aside e) : ∀ group actions, e ≠ .perform group actions := by
  rintro group actions rfl
  simp [Aside, Guarding] at he

theorem Steady.asked {r : e.Reply} (hw : w.Steady)
    (he : ∀ group actions, e ≠ .perform group actions) (stays : e ≠ .leave)
    (h : (handle player e).run w = (r, v)) : v.Steady ∧ (reply idle e).run w = (r, v) := by
  rw [hw.2.handle he] at h
  obtain ⟨hooks, failing, registry, -⟩ := reply_frame idle he w
  have kept := hw.1.reply stays
  rw [h] at hooks failing registry kept
  refine ⟨⟨kept, ⟨⟨hooks.trans hw.2.hooks, failing.trans hw.2.failing⟩, ?_⟩⟩, h⟩
  rw [show v.registry = w.registry from registry]
  exact hw.2.plain

theorem Steady.play (hw : w.Steady) (n : Nat) (label : String) {ops : List Operation}
    (hops : ∀ op ∈ ops, op.plain = true) : ((play (n + 1) label ops).run w).2.Steady := by
  induction ops generalizing w with
  | nil => exact hw
  | cons op ops ih =>
    rw [play_cons]
    exact ih (hw.next (hops op List.mem_cons_self) label)
      fun op' h => hops op' (List.mem_cons_of_mem op h)

theorem Steady.listing {n : Nat} (hw : w.Steady)
    (he : Build.Listing (fun ops => ∀ op ∈ ops, op.plain = true) e) :
    ((handle (World.play (n + 1)) e).run w).2.Steady := by
  cases e with
  | perform group actions => exact hw.play n _ he
  | report notice => exact ⟨hw.1, ⟨⟨hw.2.hooks, hw.2.failing⟩, hw.2.plain⟩⟩
  | _ => exact he.elim

theorem Undisturbed.within_ofGroups (hw : w.Undisturbed) :
    (Build.ofGroups w.registry).run.Within
      (Build.Listing fun ops => ∀ op ∈ ops, op.plain = true) :=
  Build.within_ofGroups fun g hg actions h =>
    Operation.plainAll_iff.1 (g.plain_scripts (hw.plain g hg) actions h)

theorem Steady.building {n : Nat} (hw : w.Steady) {build : Build}
    (hy : (Build.ofGroups w.registry).run.Yields (handle (World.play (n + 1))) w (.ok build) v) :
    v.Steady :=
  hw.2.within_ofGroups.keeps_yields (fun _ he _ hv => hv.listing he) hy hw

theorem begun_lock {asked taken : Nat} {begun : Instant}
    (hy : Yields (reply idle) (Rebuild.lock s) w (.ok (asked, taken, begun)) v) :
    begun = w.clock := by
  obtain ⟨_, got, _, _, waiting, took, entered, read, -⟩ := Rebuild.yields_taken hy
  cases waiting
  have still : got.clock = w.clock := (congrArg (·.2.clock) took).symm
  cases entered
  cases read
  exact still

theorem cleared_unlock {left : Nat} (hy : Yields (reply idle) Rebuild.unlock w left v) :
    v.cache.entries = [] := by
  obtain ⟨freed, u, _, hy⟩ := yields_bind.1 hy
  have clears {u : World} (h : Yields (reply idle) (do
      let left ← Proc.ask .uptime
      Proc.ask .clearCache
      return left : Proc Nat) u left v) : v.cache.entries = [] := by
    cases h
    rfl
  cases freed with
  | error fault =>
    obtain ⟨_, _, _, hy⟩ := yields_bind.1 hy
    obtain ⟨_, _, _, hy⟩ := yields_bind.1 hy
    exact clears hy
  | ok _ => exact clears hy

theorem Steady.bare (hw : w.Steady) {α : Type} {p : Proc α} {a : α} (hp : p.Within Aside)
    (hy : p.Yields (handle player) w a v) : p.Yields (reply idle) w a v :=
  (hw.2.run hp fun _ => aside_not_perform).symm.trans hy

theorem Steady.aside (hw : w.Steady) {α : Type} {p : Proc α} {a : α} (hp : p.Within Aside)
    (hy : p.Yields (handle player) w a v) : v.Steady :=
  hp.keeps_yields (fun _ he _ hu => (hu.asked (aside_not_perform he)
    (by rintro rfl; simp [Aside, Guarding] at he) rfl).1) hy hw

theorem Steady.guarding (hw : w.Steady) {α : Type} {p : Proc α} {a : α} (hp : p.Within Guarding)
    (hy : p.Yields (handle player) w a v) : v.Steady ∧ Alike w v ∧ v.store = w.store := by
  have bare := hw.bare (hp.mono fun _ => .inl) hy
  exact ⟨hw.aside (hp.mono fun _ => .inl) hy, alike_of_guarding hp bare⟩

theorem Steady.counted (hw : w.Steady) (first second : Metrics.Event) :
    ((handle player (.record second)).run ((handle player (.record first)).run w).2).2 =
      { w with metrics := (w.metrics.record first).record second } := by
  have one : (handle player (.record first)).run w =
      ((), { w with metrics := w.metrics.record first }) := hw.2.handle (by rintro _ _ ⟨⟩)
  have still := (hw.asked (by rintro _ _ ⟨⟩) (by rintro ⟨⟩) one).1
  have two : (handle player (.record second)).run { w with metrics := w.metrics.record first } =
      ((), { w with metrics := (w.metrics.record first).record second }) :=
    still.2.handle (by rintro _ _ ⟨⟩)
  rw [one, two]

inductive SteadyPhases (n : Nat) (s : Settings) (purge : Option Instant) (w w' : World)
    (report : Report) : Prop
  | intro {locked read built published released ended : World} {asked taken left : Nat}
    {old : Snapshot} {commit : Rebuild.Commit} {metrics : Metrics}
    (entered : Steady { w with running := true })
    (lock : (Rebuild.lock s).Yields (handle (play (n + 1))) { w with running := true }
      (.ok (asked, taken, w.clock)) locked)
    (answered : (reply idle (.readStore true)).run locked = (.ok old, read))
    (reading : read.Steady)
    (filled : (Build.ofGroups read.registry).run.Yields (handle (play (n + 1))) read
      (.ok commit.build) built)
    (moved : Moves Motion.Tame locked built)
    (building : built.Steady)
    (latest : ∀ primary, built.store.home = .inl primary → primary = old)
    (changed : commit.difference = old.diff commit.build.snapshot)
    (wrote : (reply idle (.writeStore commit.build.snapshot
      (old.changes commit.build.snapshot))).run built = (.ok (), published))
    (publishing : published.Steady)
    (unlock : Rebuild.unlock.Yields (handle (play (n + 1))) published left released)
    (settled : (Rebuild.afterCommit s commit.difference (purge.getD w.clock)).Yields (reply idle)
      released report.overlay ended)
    (snapshot : report.snapshot = commit.build.snapshot)
    (difference : report.difference = commit.difference)
    (bounded : report.purge = some (purge.getD w.clock))
    (finished : w' = { ended with metrics, running := false })
    (writing : (.writeStore commit.build.snapshot (old.changes commit.build.snapshot), built) ∈
      (Rebuild.start s purge).calls (handle (play (n + 1))) w)
    (gathered : ∀ {γ : Type} (f : Effect → World → List γ), Rebuild.FromGroups f →
      (Rebuild.start s purge).gather f (handle (play (n + 1))) w = f .groups read ++
        (Build.ofGroups read.registry).run.gather f (handle (play (n + 1))) read)

theorem steady_phases {n : Nat} {purge : Option Instant} {w' : World} {report : Report}
    (hw : w.Undisturbed) (hc : Rebuild.Course (handle (World.play (n + 1))) s purge w w' report) :
    SteadyPhases n s purge w w' report := by
  obtain ⟨enter, hrun, lock, publish, unlock, settle, leave⟩ := hc
  rename_i entered locked published released settled asked taken left begun commit
  obtain rfl : { w with running := true } = entered := congrArg Prod.snd enter
  have entered : Steady { w with running := true } :=
    ⟨rfl, ⟨⟨hw.hooks, hw.failing⟩, hw.plain⟩⟩
  obtain ⟨locking, -, -⟩ := entered.guarding Rebuild.within_lock lock
  -- nothing on the way to the lock moves the clock
  obtain rfl := begun_lock (entered.bare (Rebuild.within_lock.mono fun _ => .inl) lock)
  obtain ⟨old, read, built, hread, hbuild, hwrite, moved, latest⟩ :=
    publish_phases (tame_play (n + 1)) locking.1 publish
  have changed : commit.difference = old.diff commit.build.snapshot := by
    obtain ⟨_, _, _, _, _, hread', -, -, -, changed⟩ := Rebuild.yields_publish publish
    obtain ⟨same, -⟩ := Prod.mk.inj (hread'.symm.trans hread)
    rw [changed, Except.ok.inj same]
  have writing : (.writeStore commit.build.snapshot (old.changes commit.build.snapshot), built) ∈
      (Rebuild.start s purge).calls (handle (World.play (n + 1))) w :=
    Rebuild.calls_start enter lock (Rebuild.writes_publish hread rfl hbuild)
  have gathered {γ : Type} (f : Effect → World → List γ) (hf : Rebuild.FromGroups f) :
      (Rebuild.start s purge).gather f (handle (World.play (n + 1))) w = f .groups read ++
        (Build.ofGroups read.registry).run.gather f (handle (World.play (n + 1))) read := by
    rw [Rebuild.gather_start hf enter hrun lock publish unlock,
      Rebuild.gather_publish hf hread rfl hbuild hwrite]
  obtain ⟨reading, answered⟩ := locking.asked (by rintro _ _ ⟨⟩) (by rintro ⟨⟩) hread
  have building := reading.building hbuild
  obtain ⟨publishing, wrote⟩ := building.asked (by rintro _ _ ⟨⟩) (by rintro ⟨⟩) hwrite
  obtain ⟨releasing, -, -⟩ := publishing.guarding Rebuild.within_unlock unlock
  obtain ⟨outcome, ended, after, rfl, first, second, finish⟩ := Rebuild.yields_settle settle
  have ending := releasing.aside (Rebuild.within_afterCommit _ _) after
  have finished : w' = { ended with
      metrics := (ended.metrics.record first).record second
      running := false } := by
    rw [← show _ = w' from congrArg Prod.snd leave, finish, ending.counted]
    rfl
  exact .intro entered lock answered reading hbuild moved building latest changed wrote publishing
    unlock (releasing.bare (Rebuild.within_afterCommit _ _) after) rfl rfl rfl finished writing
    gathered

inductive SteadyCourse (n : Nat) (s : Settings) (purge : Option Instant) (w w' : World)
    (report : Report) : Prop
  | intro {read built published released ended : World} {old : Snapshot}
    {commit : Rebuild.Commit} {metrics : Metrics}
    (begun : Alike w read)
    (reading : read.Steady)
    (filled : (Build.ofGroups read.registry).run.Yields (handle (play (n + 1))) read
      (.ok commit.build) built)
    (moved : Moves Motion.Tame { w with running := true } built)
    (building : built.Steady)
    (latest : ∀ primary, built.store.home = .inl primary → primary = old)
    (wrote : (reply idle (.writeStore commit.build.snapshot
      (old.changes commit.build.snapshot))).run built = (.ok (), published))
    (freed : Alike built released)
    (kept : released.store = published.store)
    (cleared : released.cache.entries = [])
    (releasing : released.Steady)
    (settled : (Rebuild.afterCommit s commit.difference (purge.getD w.clock)).Yields (reply idle)
      released report.overlay ended)
    (snapshot : report.snapshot = commit.build.snapshot)
    (difference : report.difference = commit.difference)
    (finished : w' = { ended with metrics, running := false })
    (gathered : ∀ {γ : Type} (f : Effect → World → List γ), Rebuild.FromGroups f →
      (Rebuild.start s purge).gather f (handle (play (n + 1))) w = f .groups read ++
        (Build.ofGroups read.registry).run.gather f (handle (play (n + 1))) read)

theorem steady_course {n : Nat} {purge : Option Instant} {w' : World} {report : Report}
    (hw : w.Undisturbed) (hc : Rebuild.Course (handle (World.play (n + 1))) s purge w w' report) :
    SteadyCourse n s purge w w' report := by
  obtain ⟨entered, lock, answered, reading, filled, moved, building, latest, -, wrote, publishing,
    unlock, settled, snapshot, difference, -, finished, -, gathered⟩ := steady_phases hw hc
  rename_i locked read built published released ended asked taken left old commit metrics
  obtain ⟨-, alike, -⟩ := entered.guarding Rebuild.within_lock lock
  obtain ⟨releasing, freed, kept⟩ := publishing.guarding Rebuild.within_unlock unlock
  have moving := (inert_handle Motion.kind_tame (tame_play (n + 1))).yields
    (Rebuild.within_lock.mono fun _ he => aside_tame (.inl he)) entered.1 lock
  have looked : Alike w read := by
    rw [← show _ = read from congrArg Prod.snd answered]
    exact ⟨alike.slots, alike.queue, alike.clock, alike.settings⟩
  have replaced : Alike built published := by
    rw [← show _ = published from congrArg Prod.snd wrote]
    exact ⟨rfl, rfl, rfl, rfl⟩
  have cleared := cleared_unlock (publishing.bare (Rebuild.within_unlock.mono fun _ => .inl) unlock)
  exact .intro looked reading filled (moving.trans moved) building latest wrote
    (replaced.trans freed) kept cleared releasing settled snapshot difference finished gathered

end ClaimIndex.World
