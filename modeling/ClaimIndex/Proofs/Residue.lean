import ClaimIndex.Proofs.Places
import ClaimIndex.Proofs.Reentry
import ClaimIndex.Proofs.Shared
import ClaimIndex.Proofs.Steps

namespace ClaimIndex

open FileSystem (Retains place)

namespace FileSystem

variable {fs gs : FileSystem} {path : String}

theorem exists?_iff : fs.exists? path = true ↔
    fs.locate path = .ok (place path) ∧ (fs.node? (place path)).isSome = true := by
  unfold exists? find?
  cases found : fs.locate path with
  | error fault => simp [Except.toOption]
  | ok names =>
    obtain rfl := eq_place found
    simp [Except.toOption, node?]

theorem node?_removed (removed : fs.remove path = .ok gs) : gs.node? (place path) = none := by
  cases located : fs.locate path with
  | error fault => cases (remove_of_error located).symm.trans removed
  | ok names =>
    obtain rfl := eq_place located
    rw [remove_of_ok located] at removed
    split at removed
    · cases removed
    · cases removed
    · rename_i file
      cases removed
      have ne : place path ≠ [] := by
        intro root
        rw [root] at file
        cases file
      rw [node?_touchParent, node?_erase ne, if_pos rfl]

theorem not_exists_removed (removed : fs.remove path = .ok gs) : gs.exists? path = false := by
  rw [Bool.eq_false_iff, ne_eq, exists?_iff, node?_removed removed]
  exact fun there => by cases there.2

theorem not_exists_of_remove (missing : fs.remove path = .error .notFound) :
    fs.exists? path = false := by
  rw [Bool.eq_false_iff, ne_eq, exists?_iff]
  rintro ⟨located, there⟩
  rw [remove_of_ok located, kind?] at missing
  cases found : fs.node? (place path) with
  | none => simp [found] at there
  | some node => cases node <;> simp [found, Node.isDirectory] at missing

end FileSystem

namespace FileLock

variable {l : FileLock} {fs gs : FileSystem} {lost : List String → Prop}

theorem create_of_remove (taken : l.create fs = .error .alreadyExists)
    (removed : fs.remove l.path = .ok gs) : ∃ made, l.create gs = .ok made := by
  have located : fs.locate l.path = .ok (place l.path) := by
    cases found : fs.locate l.path with
    | error fault => cases (FileSystem.remove_of_error found).symm.trans removed
    | ok names => rw [FileSystem.eq_place found]
  have creatable : fs.locateFile l.path = .ok (place l.path) := by
    unfold FileSystem.locateFile
    split
    · rename_i isOpen
      have refused : fs.locateFile l.path = .error .isADirectory := if_pos isOpen
      cases (FileSystem.create_of_error refused).symm.trans taken
    · exact located
  have free : gs.kind? (place l.path) = none :=
    congrArg (Option.map _) (FileSystem.node?_removed removed)
  have again := FileSystem.locateFile_of_grows (Retains.remove removed).directory creatable
  exact ⟨_, (FileSystem.create_of_ok again).trans (if_pos free)⟩

theorem attempt_refused (refused : (l.attempt fs).1 ≠ .ok true) : (l.attempt fs).2 = fs := by
  unfold attempt at refused ⊢
  cases created : l.create fs with
  | ok made => exact absurd (by rw [created]) refused
  | error fault =>
    cases fault with
    | alreadyExists =>
      rw [created] at refused
      dsimp only at refused ⊢
      split
      · rename_i stale
        rw [if_pos stale] at refused
        cases removed : fs.remove l.path with
        | error fault => rfl
        | ok gs =>
          obtain ⟨made, again⟩ := create_of_remove created removed
          rw [removed] at refused
          dsimp only at refused
          rw [again] at refused
          exact absurd rfl refused
      · rfl
    | _ => rfl

theorem retry_refused {n : Nat} (refused : (l.retry n fs).1 ≠ .ok true) :
    Retains lost fs (l.retry n fs).2 := by
  induction n generalizing fs with
  | zero =>
    rw [retry] at refused ⊢
    rw [attempt_refused refused]
    exact .refl fs
  | succ n ih =>
    rw [retry] at refused ⊢
    cases attempted : l.attempt fs with
    | mk answer gs =>
    have same : answer ≠ .ok true → gs = fs := fun first => by
      have unchanged : (l.attempt fs).2 = fs := attempt_refused (by rwa [attempted])
      rwa [attempted] at unchanged
    rw [attempted] at refused
    match answer with
    | .ok true => exact absurd rfl refused
    | .ok false =>
      obtain rfl := same (by simp)
      exact .trans (.of_node? fun _ => FileSystem.node?_wait _) (ih refused)
    | .error fault =>
      obtain rfl := same (by simp)
      exact .refl gs

theorem acquire_refused (refused : (l.acquire fs).1 ≠ .ok true) :
    Retains lost fs (l.acquire fs).2 := by
  have made : Retains lost fs (fs.createDirectories (FileSystem.parent l.path)).2 :=
    .createDirectories
  unfold acquire at refused ⊢
  split
  · rename_i h
    rwa [h] at made
  · rename_i h
    rw [h] at made refused
    exact made.trans (retry_refused refused)

end FileLock

namespace Lock

variable {l : Lock} {fs : FileSystem} {lost : List String → Prop}

theorem isHeld_wait (nanos : Nat) (held : l.isHeld fs = true) :
    l.isHeld (fs.wait nanos) = true := by
  cases l with
  | memory held => exact held
  | file f =>
    obtain ⟨located, there⟩ := FileSystem.exists?_iff.1 held
    have still : FileSystem.Grows fs (fs.wait nanos) := fun _ =>
      (FileSystem.node?_wait nanos).trans
    exact FileSystem.exists?_iff.2
      ⟨FileSystem.locate_of_locate still located, by rwa [FileSystem.node?_wait]⟩

theorem isHeld_refused (held : l.isHeld fs = true) (refused : (l.acquire fs).1 ≠ .ok true) :
    (l.acquire fs).2.1.isHeld (l.acquire fs).2.2 = true := by
  cases l with
  | memory free => rfl
  | file f =>
    rw [acquire_file] at refused ⊢
    have kept : Retains (fun _ => False) fs (f.acquire fs).2 := FileLock.acquire_refused refused
    obtain ⟨located, there⟩ := FileSystem.exists?_iff.1 held
    refine FileSystem.exists?_iff.2 ⟨FileSystem.locate_of_locate kept.directory located, ?_⟩
    match found : fs.node? (place f.path), there with
    | some .directory, _ => rw [kept.directory _ found]; rfl
    | some (.file content), _ => rw [(kept.file _ content id).2 found]; rfl

theorem isHeld_released (released : (l.release fs).1 = .ok ()) :
    (l.release fs).2.1.isHeld (l.release fs).2.2 = false := by
  cases l with
  | memory held => rfl
  | file f =>
    rw [release_file] at released ⊢
    change (f.release fs).2.exists? f.path = false
    unfold FileLock.release at released ⊢
    cases removed : fs.remove f.path with
    | ok gs => exact FileSystem.not_exists_removed removed
    | error fault =>
      rw [removed] at released
      cases fault with
      | notFound => exact FileSystem.not_exists_of_remove removed
      | _ => cases released

theorem retains_acquire (there : ∀ path, l.path? = some path → lost (place path)) :
    Retains lost fs (l.acquire fs).2.2 := by
  cases l with
  | memory held => exact .refl fs
  | file f =>
    rw [acquire_file]
    exact (f.retains_acquire fs).mono fun _ same => same ▸ there f.path rfl

theorem retains_release (there : ∀ path, l.path? = some path → lost (place path)) :
    Retains lost fs (l.release fs).2.2 := by
  cases l with
  | memory held => exact .refl fs
  | file f =>
    rw [release_file]
    exact (f.retains_release fs).mono fun _ same => same ▸ there f.path rfl

end Lock

theorem FileStore.load_eq {f : FileStore} {fs fs' : FileSystem}
    (grown : FileSystem.Grows fs fs')
    (same : fs'.node? (place f.path) = fs.node? (place f.path))
    (reached : (∃ names, fs.locate f.path = .ok names) ∨ fs.node? (place f.path) = none) :
    f.load fs' = f.load fs := by
  have absent {gs : FileSystem} (none : gs.node? (place f.path) = none) : f.load gs = .ok ∅ := by
    have missing : ¬ gs.exists? f.path = true := fun there => by
      rw [FileSystem.exists?_iff, none] at there
      cases there.2
    exact if_neg missing
  obtain ⟨names, located⟩ | none := reached
  · obtain rfl := FileSystem.eq_place located
    have located' := FileSystem.locate_of_locate grown located
    have exists_eq : fs'.exists? f.path = fs.exists? f.path := by
      rw [Bool.eq_iff_iff, FileSystem.exists?_iff, FileSystem.exists?_iff, same, located, located']
    unfold load FileSystem.read
    rw [exists_eq, located, located']
    simp only [bind, Except.bind, same]
  · rw [absent none, absent (same.trans none)]

namespace Store

variable {s s' : Store} {fs fs' : FileSystem}

theorem latest_of_home (home : s'.home = s.home) : (s'.read fs true).1 = (s.read fs true).1 := by
  cases found : s.home with
  | inl primary => rw [read_of_home found, read_of_home (home.trans found)]
  | inr path =>
    have loaded {t : Store} (there : t.home = .inr path) :
        (t.read fs true).1 = FileStore.load ⟨path, none⟩ fs := by
      cases t with
      | memory m | whole m => cases there
      | file f =>
        obtain rfl : f.path = path := Sum.inr.inj there
        exact f.read_true fs
    rw [loaded found, loaded (home.trans found)]

theorem retains_write {new : Snapshot} {c : Changes} {fault : Fault} {lost : List String → Prop}
    (failed : (s.write fs new c).1 = .error fault)
    (there : ∀ path, s.home = .inr path → lost (place (FileSystem.sibling path ".tmp"))) :
    (s.write fs new c).2.1 = s ∧ Retains lost fs (s.write fs new c).2.2 := by
  obtain ⟨same, f, rfl, kept⟩ := write_failed failed
  exact ⟨same, kept.mono fun _ draft => draft ▸ there f.path rfl⟩

end Store

namespace World

variable {w v u : World} {m : Motion}

theorem files_apply {P : FileSystem → Prop} (hm : m.Tame) (w : World) (same : P w.files)
    (acquire : P (w.lock.acquire (w.files.wait 1)).2.2)
    (release : P (w.lock.release w.files).2.2) : P (m.apply w).files := by
  cases m with
  | reply e =>
    cases e with
    | writeStore | leave => exact hm.elim
    | acquire =>
      rw [Motion.apply, reply_acquire]
      exact acquire
    | release => exact release
    | enqueue task =>
      obtain ⟨tasks, e⟩ := exists_tasks idle task w
      rw [Motion.apply, e]
      exact same
    | _ => exact same
  | _ => exact same

def Loose (w : World) (names : List String) : Prop :=
  (∃ path, w.lock.path? = some path ∧ names = place path) ∨
    ∃ path, w.store.home = .inr path ∧ names = place (FileSystem.sibling path ".tmp")

structure Preserves (w v : World) : Prop where
  home : v.store.home = w.store.home
  lock : v.lock.path? = w.lock.path?
  files : Retains w.Loose w.files v.files

namespace Preserves

theorem refl (w : World) : Preserves w w := ⟨rfl, rfl, .refl w.files⟩

theorem trans (h : Preserves w v) (h' : Preserves v u) : Preserves w u := by
  refine ⟨h'.home.trans h.home, h'.lock.trans h.lock, h.files.trans (h'.files.mono ?_)⟩
  intro names loose
  rwa [Loose, h.lock, h.home] at loose

theorem apply (hm : m.Tame) (w : World) : Preserves w (m.apply w) where
  home := home_apply hm w
  lock := lock_apply hm w
  files := files_apply (P := Retains w.Loose w.files) hm w (.refl w.files)
    (.trans (.of_node? fun _ => FileSystem.node?_wait _)
      (Lock.retains_acquire fun path there => .inl ⟨path, there, rfl⟩))
    (Lock.retains_release fun path there => .inl ⟨path, there, rfl⟩)

theorem moves (h : Moves Motion.Tame w v) : Preserves w v :=
  h.keeps (I := Preserves w) (fun _ u hm kept => kept.trans (apply hm u)) (.refl w)

end Preserves

/-- The snapshot has a place of its own: the file of the lock is elsewhere, what is there can be
reached, and no directory comes there. -/
def Sited (w : World) (fs : FileSystem) : Prop :=
  ∀ path, w.store.home = .inr path →
    (∀ lock, w.lock.path? = some lock → place path ≠ place lock) ∧
    ((∃ names, w.files.locate path = .ok names) ∨ w.files.node? (place path) = none) ∧
    (fs.node? (place path) = some .directory → w.files.node? (place path) = some .directory)

theorem Preserves.latest (h : Preserves w v) (sited : w.Sited v.files) :
    (v.store.read v.files true).1 = (w.store.read w.files true).1 := by
  rw [Store.latest_of_home h.home]
  cases home : w.store with
  | memory m | whole m => rfl
  | file f =>
    have there : w.store.home = .inr f.path := congrArg Store.home home
    obtain ⟨apart, reached, free⟩ := sited f.path there
    have firm : ¬ w.Loose (place f.path) := by
      rintro (⟨lock, held, same⟩ | ⟨path, draft, same⟩)
      · exact apart lock held same
      · obtain rfl : f.path = path := Sum.inr.inj (there.symm.trans draft)
        exact f.place_temporary_ne same.symm
    have same : v.files.node? (place f.path) = w.files.node? (place f.path) := by
      have kept (content : Bytes) := h.files.file (place f.path) content firm
      match found : w.files.node? (place f.path), left : v.files.node? (place f.path) with
      | some .directory, _ => rw [← left, h.files.directory _ found]
      | some (.file content), _ => rw [← left, (kept content).2 found]
      | none, none => rfl
      | none, some (.file content) => cases found.symm.trans ((kept content).1 left)
      | none, some .directory => cases found.symm.trans (free left)
    exact (f.read_true v.files).trans
      ((FileStore.load_eq h.files.directory same reached).trans (f.read_true w.files).symm)

end World

namespace Metrics

variable (m : Metrics)

theorem count_raise (name key : String) (x : UInt64) :
    (m.raise name x).count key = if name = key then m.count name + x else m.count key := by
  rw [count, getElem?_raise]
  split <;> rfl

theorem count_set (gauge key : String) (value : UInt64) :
    (m.set gauge value).count key = m.count key := rfl

theorem count_observe (histogram key : String) (value : Binary64) :
    (m.observe histogram value).count key = m.count key := rfl

theorem failures_failed :
    (m.record .failed).count Name.failures = m.count Name.failures + 1 :=
  (m.count_raise ..).trans (if_pos rfl)

theorem failures_record {event : Event} (h : event ≠ .failed) :
    (m.record event).count Name.failures = m.count Name.failures := by
  have other {name : String} (apart : name ≠ Name.failures) (m : Metrics) (x : UInt64) :
      (m.raise name x).count Name.failures = m.count Name.failures :=
    (m.count_raise name _ x).trans (if_neg apart)
  cases event with
  | failed => exact absurd rfl h
  | rebuilt keys conflicts changed wait critical =>
    simp only [record]
    rw [count_observe, count_observe, count_set, count_set, other (by decide), count_set, count_set,
      other (by decide)]
  | lookup source =>
    have total := other (by decide : Name.lookups ≠ Name.failures) m 1
    cases source with
    | filtered | store => exact total
    | cache => exact (other (by decide : Name.cacheHits ≠ Name.failures) _ 1).trans total
    | overlay => exact (other (by decide : Name.overlayHits ≠ Name.failures) _ 1).trans total
    | degraded => exact (other (by decide : Name.lookupErrors ≠ Name.failures) _ 1).trans total
  | _ => exact other (by decide) m _

end Metrics

namespace Rebuild

open Proc (ask)

def Unfailing (e : Effect) : Prop := e.Tame ∧ e ≠ .record .failed

theorem unfailing_lock (s : Settings) : (lock s).Within Unfailing := by
  refine .bind (.ask ⟨trivial, nofun⟩) fun asked => .bind (.ask ⟨trivial, nofun⟩) fun taken => ?_
  match taken with
  | .error fault => exact .pure
  | .ok false =>
    exact .bind (.ask ⟨trivial, nofun⟩) fun _ => .bind (.ask ⟨trivial, nofun⟩) fun _ => .pure
  | .ok true =>
    exact .bind (.ask ⟨trivial, nofun⟩) fun _ => .bind (.ask ⟨trivial, nofun⟩) fun _ =>
      .bind (.ask ⟨trivial, nofun⟩) fun _ => .pure

theorem unfailing_draft : draft.run.Within Unfailing := by
  refine within_draft.mono fun e he => ?_
  cases e with
  | readStore | groups | perform | report => exact ⟨trivial, nofun⟩
  | _ => exact he.elim

theorem yields_proceed_error {σ : Type} {h : Handler σ} {s : Settings} {purge : Option Instant}
    {times : Nat × Nat × Instant} {fault : Fault} {w w' : σ}
    (hy : (proceed s purge (.ok times)).Yields h w (.error fault) w') :
    ∃ stopped, publish.run.Yields h w (.error fault) stopped ∧ abandon.Yields h stopped () w' := by
  obtain ⟨published, stopped, hpublish, hy⟩ := Proc.yields_bind.1 hy
  cases published with
  | ok commit =>
    obtain ⟨_, _, _, hy⟩ := Proc.yields_bind.1 hy
    obtain ⟨_, _, _, hy⟩ := Proc.yields_bind.1 hy
    cases (Proc.yields_pure.1 hy).1
  | error fault =>
    obtain ⟨_, _, habandon, hy⟩ := Proc.yields_bind.1 hy
    obtain ⟨same, rfl⟩ := Proc.yields_pure.1 hy
    cases same
    exact ⟨stopped, hpublish, habandon⟩

theorem unfailing_abandon : abandon.Within Unfailing := by
  refine .bind (.ask ⟨trivial, nofun⟩) fun released => ?_
  cases released with
  | error fault => exact .ask ⟨trivial, nofun⟩
  | ok _ => exact .pure

end Rebuild

namespace World

variable {w v u : World} {m : Motion} {s : Settings}

def Motion.Unfailing : Motion → Prop
  | reply e => Rebuild.Unfailing e
  | _ => True

theorem Motion.Unfailing.tame (hm : m.Unfailing) : m.Tame := by
  cases m with
  | reply e => exact hm.1
  | _ => trivial

theorem Motion.kind_unfailing : Kind Motion.Unfailing :=
  ⟨fun _ hm => hm.tame.staying, fun _ => trivial⟩

theorem unfailing_play (depth : Nat) : (play depth).Makes Motion.Unfailing := by
  refine fun label operations w hw => (ordinary_play depth label operations w hw).mono ?_
  intro m hm
  cases m with
  | reply e =>
    refine ⟨Effect.Merging.tame hm, ?_⟩
    rintro rfl
    obtain passing | ⟨entry, other⟩ := hm
    · exact passing
    · cases other
  | _ => trivial

theorem failures_apply (hm : m.Unfailing) (w : World) :
    (m.apply w).metrics.count Metrics.Name.failures = w.metrics.count Metrics.Name.failures := by
  cases m with
  | reply e =>
    cases e with
    | record event => exact w.metrics.failures_record fun same => hm.2 (congrArg _ same)
    | enqueue task =>
      obtain ⟨tasks, e⟩ := exists_tasks idle task w
      rw [Motion.apply, e]
    | _ => rfl
  | _ => rfl

structure Stays (w v : World) : Prop extends Preserves w v where
  failures : v.metrics.count Metrics.Name.failures = w.metrics.count Metrics.Name.failures

namespace Stays

theorem trans (h : Stays w v) (h' : Stays v u) : Stays w u :=
  ⟨h.toPreserves.trans h'.toPreserves, h'.failures.trans h.failures⟩

theorem moves (h : Moves Motion.Unfailing w v) : Stays w v where
  toPreserves := .moves (h.mono fun _ => Motion.Unfailing.tame)
  failures := h.same (f := fun w => w.metrics.count Metrics.Name.failures)
    fun _ w hm => failures_apply hm w

theorem reply_write {player : Player} {new : Snapshot} {c : Changes} {fault : Fault}
    (failed : (reply player (.writeStore new c)).run w = (.error fault, v)) :
    Stays w v ∧ ∃ files, v = { w with files } := by
  rw [reply_writeStore] at failed
  obtain ⟨unwritten, rfl⟩ := Prod.mk.inj failed
  have drafts (path : String) (there : w.store.home = .inr path) :
      w.Loose (place (FileSystem.sibling path ".tmp")) := .inr ⟨path, there, rfl⟩
  obtain ⟨same, kept⟩ := Store.retains_write unwritten drafts
  rw [same]
  exact ⟨⟨⟨rfl, rfl, kept⟩, rfl⟩, _, rfl⟩

end Stays

section

open Proc (Yields yields_ask yields_bind yields_pure)

variable {α : Type} {a : α} {fault : Fault} {n : Nat}

theorem stays_yields {p : Proc α} (hp : p.Within Rebuild.Unfailing) (hw : w.Running)
    (hy : p.Yields (handle (play n)) w a v) : v.Running ∧ Stays w v :=
  have moved := (inert_handle Motion.kind_unfailing (unfailing_play n)).yields hp hw hy
  ⟨moved.running Motion.kind_unfailing hw, .moves moved⟩

theorem stays_write {new : Snapshot} {c : Changes} (hw : w.Running)
    (failed : (handle (play n) (.writeStore new c)).run w = (.error fault, v)) :
    v.Running ∧ Stays w v := by
  have hooked (moment : Moment) {w : World} (hw : w.Running) :
      Moves Motion.Unfailing w ((runHook (play n) moment).run w).2 :=
    moves_runHook Motion.kind_unfailing (unfailing_play n) moment hw
  have wrote := call_handle (play n) (.writeStore new c) w
  rw [failed] at wrote
  cases wrote with
  | sure safe replied => cases safe
  | down risky before fails unanswered =>
    rename_i point down x
    obtain ⟨-, rfl⟩ := Prod.mk.inj unanswered
    have moved := hooked (.before point) hw
    rw [← before] at moved
    exact ⟨moved.running Motion.kind_unfailing hw, .moves moved⟩
  | up risky before works replied =>
    rename_i point down x
    obtain ⟨answer, rfl⟩ := Prod.mk.inj replied
    have moved := hooked (.before point) hw
    rw [← before] at moved
    obtain ⟨written, files, same⟩ := Stays.reply_write
      (v := ((reply (play n) (.writeStore new c)).run x).2) (Prod.ext answer.symm rfl)
    have running := moved.running Motion.kind_unfailing hw
    rw [same] at written ⊢
    have after := hooked (.after point) (w := { x with files }) running
    exact ⟨after.running Motion.kind_unfailing running,
      ((Stays.moves moved).trans written).trans (.moves after)⟩

theorem stays_publish (hw : w.Running)
    (hy : Rebuild.publish.run.Yields (handle (play n)) w (.error fault) v) :
    v.Running ∧ Stays w v := by
  rw [Rebuild.publish_eq, ExceptT.run_bind] at hy
  obtain ⟨drafted, u, hdraft, hy⟩ := yields_bind.1 hy
  obtain ⟨running, drawn⟩ := stays_yields Rebuild.unfailing_draft hw hdraft
  cases drafted with
  | error fault =>
    obtain ⟨-, rfl⟩ := yields_pure.1 hy
    exact ⟨running, drawn⟩
  | ok drafted =>
    obtain ⟨wrote, x, hwrite, hy⟩ := yields_bind.1 hy
    cases wrote with
    | ok _ => cases (yields_pure.1 hy).1
    | error fault =>
      obtain ⟨-, rfl⟩ := yields_pure.1 hy
      obtain ⟨still, written⟩ := stays_write running (yields_ask.1 hwrite)
      exact ⟨still, drawn.trans written⟩

theorem failures_attempt {purge : Option Instant} (hw : w.Running)
    (hy : (Rebuild.attempt s purge).Yields (handle (play n)) w (.error fault) v) :
    Preserves w v ∧ v.metrics.count Metrics.Name.failures =
      w.metrics.count Metrics.Name.failures + 1 := by
  obtain ⟨result, ran, hrun, hconclude⟩ := yields_bind.1 hy
  obtain ⟨rfl, left⟩ := Rebuild.yields_conclude hconclude
  rw [Rebuild.run_eq] at hrun
  obtain ⟨times, locked, hlock, hproceed⟩ := yields_bind.1 hrun
  obtain ⟨running, locking⟩ := stays_yields (Rebuild.unfailing_lock s) hw hlock
  have stays : Stays w ran := by
    cases times with
    | error fault =>
      obtain ⟨-, rfl⟩ := yields_pure.1 hproceed
      exact locking
    | ok times =>
      obtain ⟨stopped, hpublish, habandon⟩ := Rebuild.yields_proceed_error hproceed
      obtain ⟨still, publishing⟩ := stays_publish running hpublish
      exact (locking.trans publishing).trans
        (stays_yields Rebuild.unfailing_abandon still habandon).2
  have counted : v = { ran with metrics := ran.metrics.record .failed } := left
  rw [counted]
  exact ⟨⟨stays.home, stays.lock, stays.files⟩,
    (Metrics.failures_failed _).trans (congrArg (· + 1) stays.failures)⟩

end

end World

end ClaimIndex
