import ClaimIndex.Proofs.Codec
import ClaimIndex.Proofs.Course
import ClaimIndex.Proofs.Files
import ClaimIndex.Proofs.Motion

namespace ClaimIndex

theorem FileStore.load_of_read {f : FileStore} {fs : FileSystem} {s : Snapshot}
    {entries : List (Key × Claimants)} (content : fs.read f.path = .ok (Codec.encode entries))
    (hs : s.WellFormed) (order : entries.Perm s.toList)
    (fits : (Codec.encode entries).length < 2 ^ 64) : f.load fs = .ok s := by
  rw [load, if_pos (FileSystem.exists_of_read content), content]
  simp only [Codec.decode_encode hs order fits, if_pos]

theorem FileStore.publish_of_write {f : FileStore} {fs : FileSystem} {s : Snapshot}
    (h : (f.write fs s).1 = .ok ()) :
    f.publish fs (Codec.encode s.toList) = (.ok (), (f.write fs s).2.2) ∧
      (f.write fs s).2.1 = { f with copy := some s } := by
  unfold write at h ⊢
  split
  · rename_i failed
    rw [failed] at h
    cases h
  · rename_i published
    exact ⟨published, rfl⟩

theorem FileStore.read_true (f : FileStore) (fs : FileSystem) : (f.read fs true).1 = f.load fs := by
  cases f with
  | mk path copy =>
    unfold read
    cases copy <;> cases load ⟨path, _⟩ fs <;> rfl

namespace Store

variable {s s' : Store} {fs fs' : FileSystem} {old new : Snapshot}

/-- Where a store has its latest snapshot: with itself, or at a path. -/
def home : Store → Snapshot ⊕ String
  | memory m | whole m => .inl m.primary
  | file f => .inr f.path

theorem home_read (latest : Bool) : (s.read fs latest).2.home = s.home := by
  cases s with
  | memory m | whole m => rfl
  | file f =>
    change Sum.inr (f.read fs latest).2.path = Sum.inr f.path
    unfold FileStore.read
    split
    · rfl
    · split <;> rfl

theorem home_get (k : Key) : (s.get fs k).2.home = s.home := by
  cases s with
  | memory m | whole m => rfl
  | file f => exact home_read (s := file f) false

theorem home_sync : s.sync.home = s.home := by
  cases s <;> rfl

def Holds (s : Store) (fs : FileSystem) (new : Snapshot) : Prop :=
  match s.home with
  | .inl primary => primary = new
  | .inr path => fs.read path = .ok (Codec.encode new.toList)

theorem holds_inl {primary : Snapshot} (home : s.home = .inl primary) :
    s.Holds fs new ↔ primary = new := by
  unfold Holds
  rw [home]

theorem holds_inr {path : String} (home : s.home = .inr path) :
    s.Holds fs new ↔ fs.read path = .ok (Codec.encode new.toList) := by
  unfold Holds
  rw [home]

theorem Holds.read (h : s.Holds fs new) (hnew : new.WellFormed)
    (fits : ∀ path, s.home = .inr path → (Codec.encode new.toList).length < 2 ^ 64) :
    (s.read fs true).1 = .ok new := by
  cases s with
  | memory m | whole m => exact congrArg Except.ok h
  | file f =>
    exact (f.read_true fs).trans (FileStore.load_of_read h hnew (.refl _) (fits _ rfl))

theorem read_of_home {primary : Snapshot} (h : s.home = .inl primary) :
    (s.read fs true).1 = .ok primary := by
  cases s with
  | memory m | whole m => exact congrArg Except.ok (Sum.inl.inj h)
  | file f => cases h

theorem holds_write (hold : ∀ primary, s.home = .inl primary → primary = old)
    (h : s.write fs new (old.changes new) = (.ok (), s', fs')) :
    s'.Holds fs' new ∧ ∀ path, s'.home = .inr path ↔ s.home = .inr path := by
  cases s with
  | memory m | whole m =>
    cases h
    obtain rfl := hold m.primary rfl
    exact ⟨MemoryStore.apply_changes _ _, fun path => by simp [home]⟩
  | file f =>
    obtain ⟨published, copied⟩ := FileStore.publish_of_write (congrArg Prod.fst h)
    obtain rfl : .file (f.write fs new).2.1 = s' := congrArg (·.2.1) h
    obtain rfl : (f.write fs new).2.2 = fs' := congrArg (·.2.2) h
    rw [copied]
    exact ⟨FileStore.read_publish published, fun path => Iff.rfl⟩

end Store

def Lock.path? : Lock → Option String
  | memory _ => none
  | file l => some l.path

namespace Lock

variable {l : Lock} {fs : FileSystem} {path : String} {content : Bytes}

theorem path_acquire : (l.acquire fs).2.1.path? = l.path? := by
  cases l <;> rfl

theorem path_release : (l.release fs).2.1.path? = l.path? := by
  cases l <;> rfl

theorem read_acquire
    (apart : ∀ lock, l.path? = some lock → FileSystem.place path ≠ FileSystem.place lock)
    (h : fs.read path = .ok content) : (l.acquire fs).2.2.read path = .ok content := by
  cases l with
  | memory held => exact h
  | file f => exact (f.retains_acquire fs).read (apart f.path rfl) h

theorem read_release
    (apart : ∀ lock, l.path? = some lock → FileSystem.place path ≠ FileSystem.place lock)
    (h : fs.read path = .ok content) : (l.release fs).2.2.read path = .ok content := by
  cases l with
  | memory held => exact h
  | file f => exact (f.retains_release fs).read (apart f.path rfl) h

end Lock

namespace World

variable {w v : World} {m : Motion} {path : String} {content : Bytes} {new : Snapshot}

/-- A store in a file can keep a snapshot: the file of the lock is elsewhere, and the encoded
snapshot has a length that its format can tell. -/
structure Durable (w : World) (new : Snapshot) : Prop where
  apart : ∀ path lock, w.store.home = .inr path → w.lock.path? = some lock →
    FileSystem.place path ≠ FileSystem.place lock
  fits : ∀ path, w.store.home = .inr path → (Codec.encode new.toList).length < 2 ^ 64

theorem store_apply {P : Store → Prop} (hm : m.Tame) (w : World) (same : P w.store)
    (read : ∀ latest, P (w.store.read w.files latest).2)
    (get : ∀ k, P (w.store.get w.files k).2) (sync : P w.store.sync) : P (m.apply w).store := by
  cases m with
  | reply e =>
    cases e with
    | writeStore | leave => exact hm.elim
    | readStore latest => exact read latest
    | readKey k => exact get k
    | enqueue task =>
      obtain ⟨tasks, e⟩ := exists_tasks idle task w
      exact (congrArg (fun v => P v.store) e).mpr same
    | _ => exact same
  | sync => exact sync
  | _ => exact same

theorem home_apply (hm : m.Tame) (w : World) : (m.apply w).store.home = w.store.home :=
  store_apply (P := fun s => s.home = w.store.home) hm w rfl Store.home_read Store.home_get
    Store.home_sync

theorem lock_apply (hm : m.Tame) (w : World) : (m.apply w).lock.path? = w.lock.path? := by
  cases m with
  | reply e =>
    cases e with
    | writeStore | leave => exact hm.elim
    | acquire => exact Lock.path_acquire
    | release => exact Lock.path_release
    | enqueue task =>
      obtain ⟨tasks, e⟩ := exists_tasks idle task w
      exact congrArg (fun v => v.lock.path?) e
    | _ => rfl
  | _ => rfl

theorem read_apply (hm : m.Tame)
    (apart : ∀ lock, w.lock.path? = some lock → FileSystem.place path ≠ FileSystem.place lock)
    (h : w.files.read path = .ok content) : (m.apply w).files.read path = .ok content := by
  cases m with
  | reply e =>
    cases e with
    | writeStore | leave => exact hm.elim
    | acquire => exact Lock.read_acquire apart h
    | release => exact Lock.read_release apart h
    | enqueue task =>
      obtain ⟨tasks, e⟩ := exists_tasks idle task w
      exact (congrArg (fun v => v.files.read path) e).trans h
    | _ => exact h
  | _ => exact h

theorem Durable.of_same (h : w.Durable new)
    (home : ∀ path, v.store.home = .inr path → w.store.home = .inr path)
    (lock : v.lock.path? = w.lock.path?) : v.Durable new where
  apart path other hpath hlock := h.apart path other (home path hpath) (lock ▸ hlock)
  fits path hpath := h.fits path (home path hpath)

theorem Durable.apply (hm : m.Tame) (h : w.Durable new) : (m.apply w).Durable new :=
  h.of_same (fun _ hpath => (home_apply hm w).symm.trans hpath) (lock_apply hm w)

structure Keeps (w : World) (new : Snapshot) : Prop extends Durable w new where
  holds : w.store.Holds w.files new

theorem Keeps.apply (hm : m.Tame) (h : w.Keeps new) : (m.apply w).Keeps new := by
  refine ⟨h.toDurable.apply hm, ?_⟩
  have home := home_apply hm w
  cases hh : w.store.home with
  | inl primary => exact (Store.holds_inl (home.trans hh)).2 ((Store.holds_inl hh).1 h.holds)
  | inr path =>
    have there := (Store.holds_inr hh).1 h.holds
    exact (Store.holds_inr (home.trans hh)).2
      (read_apply hm (fun lock => h.apart path lock hh) there)

variable {player : Player} {e : Effect} {s : Settings} {w' : World} {report : Report}

theorem running_reply (he : e.Tame) (hp : player.Tame) (hw : w.Running) :
    ((reply player e).run w).2.Running :=
  (moves_reply hp he hw).running Motion.kind_tame hw

theorem Moves.home (h : Moves Motion.Tame w v) : v.store.home = w.store.home :=
  h.same (f := fun w => w.store.home) fun _ w hm => home_apply hm w

theorem aside_tame (he : Rebuild.Aside e) : e.Tame := by
  cases e with
  | writeStore | leave => simp [Rebuild.Aside, Rebuild.Guarding] at he
  | _ => trivial

theorem listing_tame {A : List Operation → Prop} (he : Build.Listing A e) : e.Tame := by
  cases e with
  | writeStore | leave => exact he
  | _ => trivial

theorem Durable.moves (h : w.Durable new) (hm : Moves Motion.Tame w v) : v.Durable new :=
  hm.keeps (I := fun w => w.Durable new) (fun _ _ hm h => h.apply hm) h

theorem Keeps.moves (h : w.Keeps new) (hm : Moves Motion.Tame w v) : v.Keeps new :=
  hm.keeps (I := fun w => w.Keeps new) (fun _ _ hm h => h.apply hm) h

theorem keeps_write {old : Snapshot} (durable : w.Durable new)
    (latest : ∀ primary, w.store.home = .inl primary → primary = old)
    (wrote : (reply player (.writeStore new (old.changes new))).run w = (.ok (), w')) :
    w'.Keeps new := by
  have done : (w.store.write w.files new (old.changes new)).1 = .ok () := congrArg Prod.fst wrote
  obtain ⟨holds, stays⟩ := Store.holds_write latest (Prod.ext done rfl)
  rw [← show _ = w' from congrArg Prod.snd wrote]
  exact ⟨durable.of_same (fun path => (stays path).1) rfl, holds⟩

theorem publish_phases (hp : player.Tame) {commit : Rebuild.Commit} (hw : w.Running)
    (hy : Rebuild.publish.run.Yields (handle player) w (.ok commit) w') :
    ∃ old read built, (handle player (.readStore true)).run w = (.ok old, read) ∧
      (Build.ofGroups read.registry).run.Yields (handle player) read (.ok commit.build) built ∧
      (handle player (.writeStore commit.build.snapshot
        (old.changes commit.build.snapshot))).run built = (.ok (), w') ∧
      Moves Motion.Tame w built ∧ ∀ primary, built.store.home = .inl primary → primary = old := by
  obtain ⟨old, groups, read, listed, built, hread, hlist, hbuild, hwrite, -⟩ :=
    Rebuild.yields_publish hy
  obtain ⟨rfl, rfl⟩ := Prod.mk.inj hlist
  have reading := call_handle player (.readStore true) w
  rw [hread] at reading
  obtain ⟨u, u', before, answered, after⟩ :=
    reading.replied Motion.kind_tame hp hw (fun v => running_reply trivial hp)
      (by rintro _ _ ⟨⟩; simp)
  have asked : Moves Motion.Tame u u' := by
    have moved := moves_reply hp (e := .readStore true) trivial (before.running Motion.kind_tame hw)
    rwa [answered] at moved
  have reached := (before.trans asked).trans after
  have building : (Build.ofGroups read.registry).run.Within Effect.Tame :=
    (Build.within_ofGroups (A := fun _ => True) fun _ _ _ _ => trivial).mono fun _ => listing_tame
  have filled := (inert_handle Motion.kind_tame hp).yields building
    (reached.running Motion.kind_tame hw) hbuild
  refine ⟨old, read, built, hread, hbuild, hwrite, reached.trans filled, ?_⟩
  intro primary h
  rw [Moves.home ((asked.trans after).trans filled)] at h
  exact Except.ok.inj ((Store.read_of_home h).symm.trans (congrArg Prod.fst answered))

section

variable {I : World → Prop}

theorem since_publish (hp : player.Tame) (kept : ∀ m w, Motion.Tame m → I w → I (m.apply w))
    {commit : Rebuild.Commit} (hw : w.Running)
    (hy : Rebuild.publish.run.Yields (handle player) w (.ok commit) w')
    (wrote : ∀ old x y, Moves Motion.Tame w x →
      (∀ primary, x.store.home = .inl primary → primary = old) →
      (reply player (.writeStore commit.build.snapshot (old.changes commit.build.snapshot))).run x =
        (.ok (), y) → I y) : w'.Running ∧ I w' := by
  obtain ⟨old, read, built, -, -, hwrite, reached, latest⟩ := publish_phases hp hw hy
  have writing := call_handle player
    (.writeStore commit.build.snapshot (old.changes commit.build.snapshot)) built
  rw [hwrite] at writing
  have running := reached.running Motion.kind_tame hw
  obtain ⟨x, y, prior, written, rest⟩ :=
    writing.replied Motion.kind_tame hp running (fun v hv => hv) (by rintro _ _ ⟨⟩; simp)
  have holds : I y := wrote old x y (reached.trans prior)
    (fun primary h => latest primary (Moves.home prior ▸ h)) written
  have still : y.Running := by
    rw [← show _ = y from congrArg Prod.snd written]
    exact (show x.Running from prior.running Motion.kind_tame running)
  exact ⟨rest.running Motion.kind_tame still, rest.keeps kept holds⟩

theorem since_course (hp : player.Tame) (kept : ∀ m w, Motion.Tame m → I w → I (m.apply w))
    (bounds : ∀ w running, I w → I { w with running }) {purge : Option Instant}
    (hc : Rebuild.Course (handle player) s purge w w' report)
    (wrote : ∀ old x y, Moves Motion.Tame { w with running := true } x →
      (∀ primary, x.store.home = .inl primary → primary = old) →
      (reply player (.writeStore report.snapshot (old.changes report.snapshot))).run x =
        (.ok (), y) → I y) : I w' := by
  obtain ⟨enter, -, lock, publish, unlock, settle, leave⟩ := hc
  rename_i entered locked published released settled asked taken left begun commit
  obtain ⟨_, rfl⟩ := Rebuild.report_of_settle settle
  have H := inert_handle Motion.kind_tame hp
  have aside {α : Type} {p : Proc α} (h : p.Within Rebuild.Aside) : p.Within Effect.Tame :=
    h.mono fun _ => aside_tame
  obtain rfl : { w with running := true } = entered := congrArg Prod.snd enter
  have running : Running { w with running := true } := rfl
  have locking := H.yields (aside (Rebuild.within_lock.mono fun _ => .inl)) running lock
  obtain ⟨still, holds⟩ := since_publish hp kept (locking.running Motion.kind_tame running) publish
    fun old x y moved => wrote old x y (locking.trans moved)
  have unlocking := H.yields (aside (Rebuild.within_unlock.mono fun _ => .inl)) still unlock
  have settling :=
    H.yields (aside Rebuild.within_settle) (unlocking.running Motion.kind_tame still) settle
  rw [← show _ = w' from congrArg Prod.snd leave]
  exact bounds _ false ((unlocking.trans settling).keeps kept holds)

end

theorem Durable.bound (h : w.Durable new) (running : Bool) : { w with running }.Durable new :=
  ⟨h.apart, h.fits⟩

theorem Keeps.bound (h : w.Keeps new) (running : Bool) : { w with running }.Keeps new :=
  ⟨h.toDurable.bound running, h.holds⟩

theorem keeps_course (hp : player.Tame) {purge : Option Instant}
    (durable : w.Durable report.snapshot)
    (hc : Rebuild.Course (handle player) s purge w w' report) : w'.Keeps report.snapshot :=
  since_course hp (fun _ _ hm h => h.apply hm) (fun _ running h => h.bound running) hc
    fun _ _ _ moved latest wrote => keeps_write ((durable.bound true).moves moved) latest wrote

theorem opening_keeps {groups : List Group} (he : Rebuild.Opening e)
    (hw : w.hooks = [] ∧ w.registry = groups) :
    ((handle player e).run w).2.hooks = [] ∧ ((handle player e).run w).2.registry = groups := by
  refine keeps_handle (I := fun w => w.hooks = [] ∧ w.registry = groups) (fun _ h => h.1) ?_ hw
  intro w hw
  cases e with
  | enqueue task =>
    obtain ⟨tasks, e⟩ := exists_tasks player task w
    exact e ▸ hw
  | perform group actions => simp [Rebuild.Opening, Rebuild.Aside, Rebuild.Guarding] at he
  | _ => exact hw

/-- What a rebuild publishes is decided by the groups that it lists: under each key stand the
groups that claim it and nothing of the snapshot before, and the store has no other as its
latest one. -/
theorem published_snapshot (w : World) (purge : Option Instant) (report : Report)
    (committed : ((step (.rebuild purge)).run w).1.committed? = some report) :
    ∃ groups,
      (Rebuild.start w.settings purge).listings (handle (play depth)) w = [groups] ∧
      (w.hooks = [] → groups = w.registry) ∧
      (∀ k, report.snapshot.idsOf k = claimantsOf groups k) ∧
      (∀ k, k ∈ report.snapshot ↔ claimantsOf groups k ≠ []) ∧
      (∀ k id, report.snapshot[k]? = some (.single id) ↔ claimantsOf groups k = [id]) ∧
      (w.Durable report.snapshot →
        let after := ((step (.rebuild purge)).run w).2
        (after.store.read after.files true).1 = .ok report.snapshot) := by
  have course := course_of_committed committed
  obtain ⟨v, unhooked, listed, built⟩ := course.listings
    (I := fun v => w.hooks = [] → v.hooks = [] ∧ v.registry = w.registry)
    (fun e he v hv hooks => opening_keeps he (hv hooks)) (fun hooks => ⟨hooks, rfl⟩)
  refine ⟨v.registry, listed, fun hooks => (unhooked hooks).2, ?_, ?_, ?_, ?_⟩
  · intro k
    rw [built]
    exact Build.idsOf_outcome v.registry k
  · intro k
    rw [built]
    exact Build.mem_outcome v.registry k
  · intro k id
    rw [built]
    exact Build.single_outcome v.registry k id
  · intro durable
    have keeps := keeps_course (tame_play depth) durable course
    refine keeps.holds.read ?_ keeps.fits
    rw [built]
    exact Build.wellFormed_outcome v.registry

def shelf : World where
  store := .memory
    { primary := (∅ : Snapshot).insert ⟨"8:old"⟩ (.single "a"), lagged := true }
  registry := [
    .aggregate "all" 8 [.fixed "b" 8 ["Other"] true, .fixed "gone" 8 ["Foo bar"] false],
    .fixed "a" 8 ["Foo bar", "foo_bar"] true,
    .fixed "gone" 8 ["Foo bar"] false,
    .scripted "c" 8 ["foo bar", "Other"] false true none
      [.register (.fixed "late" 8 ["Foo_bar"] true)],
    .fixed "a" 8 ["Other"] true]

theorem published_snapshot_shelf : ∃ report,
    ((step (.rebuild none)).run shelf).1.committed? = some report ∧
    report.snapshot.idsOf ⟨"8:foo_bar"⟩ = ["a", "c"] ∧
    report.snapshot.idsOf ⟨"8:other"⟩ = ["c", "a", "all"] ∧
    ⟨"8:old"⟩ ∉ report.snapshot ∧
    (((step (.rebuild none)).run shelf).2.store.read
      ((step (.rebuild none)).run shelf).2.files true).1 = .ok report.snapshot := by
  have ran : ((step (.rebuild none)).run shelf).1.committed?.isSome = true := by decide +kernel
  obtain ⟨report, committed⟩ := Option.isSome_iff_exists.1 ran
  obtain ⟨groups, -, registered, ids, mem, -, latest⟩ :=
    published_snapshot shelf none report committed
  obtain rfl := registered rfl
  have durable : shelf.Durable report.snapshot := ⟨nofun, nofun⟩
  refine ⟨report, committed, (ids _).trans ?_, (ids _).trans ?_, ?_, latest durable⟩
  · decide +kernel
  · decide +kernel
  · rw [mem, not_not]
    decide +kernel

end World

end ClaimIndex
