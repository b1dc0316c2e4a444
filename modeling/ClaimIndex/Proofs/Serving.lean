import ClaimIndex.Proofs.Lookup
import ClaimIndex.Proofs.Recency
import ClaimIndex.Proofs.Steady

namespace ClaimIndex

namespace FileStore

variable {f : FileStore} {fs : FileSystem} {latest : Bool} {t : Snapshot}

theorem read_copy (h : f.copy = some t) : f.read fs false = (.ok t, f) := by
  unfold read
  rw [h]

theorem copy_of_read (h : (f.read fs latest).1 = .ok t) : (f.read fs latest).2.copy = some t := by
  revert h
  unfold read
  split
  · rename_i held
    exact fun h => held.trans (congrArg some (Except.ok.inj h))
  · split
    · exact fun h => congrArg some (Except.ok.inj h)
    · intro h
      cases h

end FileStore

namespace Store

variable {s s' : Store} {fs fs' : FileSystem} {old t : Snapshot}

def lags : Store → Bool
  | memory m | whole m => m.lagged
  | file _ => false

def Serves (t : Snapshot) (fs : FileSystem) (s : Store) : Prop := (s.read fs false).1 = .ok t

theorem serves_copy {f : FileStore} (h : f.copy = some t) : (file f).Serves t fs :=
  congrArg Prod.fst (FileStore.read_copy h)

theorem Serves.get (h : s.Serves t fs) (k : Key) :
    ∃ s', s.get fs k = (.ok t[k]?, s') ∧ s'.Serves t fs := by
  cases s with
  | memory m | whole m =>
    obtain rfl : m.replica = t := Except.ok.inj h
    exact ⟨_, rfl, h⟩
  | file f =>
    have read : (f.read fs false).1 = .ok t := h
    exact ⟨_, Prod.ext (congrArg (Except.map (·[k]?)) read) rfl,
      serves_copy (FileStore.copy_of_read read)⟩

theorem lags_read (latest : Bool) : (s.read fs latest).2.lags = s.lags := by
  cases s <;> rfl

theorem lags_get (k : Key) : (s.get fs k).2.lags = s.lags := by
  cases s <;> rfl

theorem lags_sync : s.sync.lags = s.lags := by
  cases s <;> rfl

def Replicates (t : Snapshot) : Store → Prop
  | memory m | whole m => m.replica = t
  | file f => f.copy = some t

theorem Replicates.serves (h : s.Replicates t) (fs : FileSystem) : s.Serves t fs := by
  cases s with
  | memory m | whole m => exact congrArg Except.ok h
  | file f => exact serves_copy h

theorem Replicates.get (h : s.Replicates t) (k : Key) : s.get fs k = (.ok t[k]?, s) := by
  cases s with
  | memory m | whole m =>
    obtain rfl : m.replica = t := h
    rfl
  | file f =>
    have read : f.read fs false = (.ok t, f) := FileStore.read_copy h
    change ((f.read fs false).1.map (·[k]?), file (f.read fs false).2) = _
    rw [read]
    rfl

theorem Replicates.answer (h : s.Replicates t) {k : Key} {found : Option Claimants}
    (answer : (s.get fs k).1 = .ok found) : (found.map Claimants.ids).getD [] = t.idsOf k := by
  rw [h.get] at answer
  rw [← Except.ok.inj answer]
  rfl

theorem replicates_write (current : s.lags = false)
    (latest : ∀ primary, s.home = .inl primary → primary = old)
    (h : s.write fs t (old.changes t) = (.ok (), s', fs')) : s'.Replicates t := by
  cases s with
  | memory m | whole m =>
    cases h
    obtain rfl := latest m.primary rfl
    have followed : m.lagged = false := current
    change (if m.lagged then m.replica else _) = t
    rw [followed]
    exact MemoryStore.apply_changes _ _
  | file f =>
    obtain ⟨-, copied⟩ := FileStore.publish_of_write (congrArg Prod.fst h)
    obtain rfl : file (f.write fs t).2.1 = s' := congrArg (·.2.1) h
    rw [copied]
    exact rfl

end Store

namespace World

open Overlay (slot)
open Proc (Yields yields_bind yields_ask yields_pure)

variable {w w' : World} {m : Motion} {s : Settings} {report : Report} {t : Snapshot} {k : Key}

theorem lags_apply (hm : m.Tame) (w : World) : (m.apply w).store.lags = w.store.lags :=
  store_apply (P := fun s => s.lags = w.store.lags) hm w rfl Store.lags_read Store.lags_get
    Store.lags_sync

theorem replicates_written {old : Snapshot} {player : Player} (current : w.store.lags = false)
    (latest : ∀ primary, w.store.home = .inl primary → primary = old)
    (wrote : (reply player (.writeStore t (old.changes t))).run w = (.ok (), w')) :
    w'.store.Replicates t := by
  have answer : (w.store.write w.files t (old.changes t)).1 = .ok () := congrArg Prod.fst wrote
  rw [← show _ = w' from congrArg Prod.snd wrote]
  exact Store.replicates_write current latest (Prod.ext answer rfl)

/-- A world whose lookups answer from one snapshot, whichever tier they end in. -/
structure Serves (w : World) (t : Snapshot) : Prop extends Quiet w where
  cached : ∀ e ∈ w.cache.entries, e.2 = t.idsOf e.1
  bare : w.slots[slot]? = none
  stored : w.store.Serves t w.files

theorem Serves.ofKey (hw : w.Serves t) (k : Key) :
    ∃ v, Yields (reply idle) (Lookup.ofKey k) w (t.idsOf k) v ∧ v.Serves t ∧
      v.settings = w.settings := by
  cases hit : w.cache.find? k with
  | some ids =>
    obtain rfl : ids = t.idsOf k := hw.cached _ (Cache.mem_of_find? hit)
    refine ⟨_, ofKey_cached hit, ⟨⟨hw.hooks, hw.failing⟩, ?_, hw.bare, hw.stored⟩, rfl⟩
    intro e he
    obtain rfl | he := Cache.mem_touch he
    · rfl
    · exact hw.cached e he
  | none =>
    obtain ⟨store, got, stored⟩ := hw.stored.get k
    refine ⟨_, ofKey_bare hit hw.bare got, ⟨⟨hw.hooks, hw.failing⟩, ?_, hw.bare, stored⟩, rfl⟩
    intro e he
    obtain rfl | he := Cache.mem_put he
    · rfl
    · exact hw.cached e he

theorem Serves.lookup (hw : w.Serves t) (space : Namespace) (raw : String) :
    let ids := if w.settings.accepts space then t.idsOf (.ofRaw space raw) else []
    ∃ v, (step (.lookup space raw)).run w = (.ids ids, v) ∧
      (step (.primary space raw)).run w = (.id ids.head?, v) ∧ v.Serves t ∧
        v.settings = w.settings := by
  intro ids
  have answered : ∃ v, Yields (handle (play depth)) (Lookup.groups w.settings space raw) w ids v ∧
      v.Serves t ∧ v.settings = w.settings := by
    unfold ids
    by_cases accepted : w.settings.accepts space = true
    · rw [if_pos accepted]
      obtain ⟨v, hy, serves, same⟩ := hw.ofKey (.ofRaw space raw)
      exact ⟨v, yields_groups hw.toQuiet accepted hy, serves, same⟩
    · rw [if_neg accepted]
      exact ⟨_, yields_filtered accepted,
        ⟨⟨hw.hooks, hw.failing⟩, hw.cached, hw.bare, hw.stored⟩, rfl⟩
  obtain ⟨v, hy, serves, same⟩ := answered
  obtain ⟨groups, first⟩ := step_groups hy
  exact ⟨v, groups, first, serves, same⟩

end World

def Operation.IsReading : Operation → Prop
  | lookup .. | primary .. | lookupKey _ | advance _ | setClock _ => True
  | _ => False

namespace World

open Overlay (slot)

variable {w w' : World} {s : Settings} {report : Report} {t : Snapshot}

theorem Serves.step {op : Operation} (hw : w.Serves t) (hop : op.IsReading) :
    ((World.step op).run w).2.Serves t ∧ ((World.step op).run w).2.settings = w.settings := by
  have clocked (now : Instant) : Serves { w with clock := now } t :=
    ⟨⟨hw.hooks, hw.failing⟩, hw.cached, hw.bare, hw.stored⟩
  cases op with
  | lookup space raw =>
    obtain ⟨v, answered, -, serves, same⟩ := hw.lookup space raw
    rw [answered]
    exact ⟨serves, same⟩
  | primary space raw =>
    obtain ⟨v, -, answered, serves, same⟩ := hw.lookup space raw
    rw [answered]
    exact ⟨serves, same⟩
  | lookupKey k =>
    obtain ⟨v, hy, serves, same⟩ := hw.ofKey k
    have answered : (World.step (.lookupKey k)).run w = (.ids (t.idsOf k), v) :=
      congrArg (fun r : List GroupId × World => (Answer.ids r.1, r.2)) (ofKey_quiet hw.toQuiet hy)
    rw [answered]
    exact ⟨serves, same⟩
  | advance span => exact ⟨clocked _, rfl⟩
  | setClock now => exact ⟨clocked now, rfl⟩
  | _ => exact hop.elim

theorem Serves.steps {ops : List Operation} (hw : w.Serves t)
    (hops : ∀ op ∈ ops, op.IsReading) :
    ((World.steps ops).run w).2.Serves t ∧ ((World.steps ops).run w).2.settings = w.settings := by
  induction ops generalizing w with
  | nil => exact ⟨hw, rfl⟩
  | cons op ops ih =>
    obtain ⟨serves, same⟩ := hw.step (hops op List.mem_cons_self)
    obtain ⟨later, still⟩ := ih serves fun op h => hops op (List.mem_cons_of_mem _ h)
    exact ⟨later, still.trans same⟩

theorem aside_frame {e : Effect} (he : Rebuild.Aside e) (hw : w.Quiet)
    (cleared : w.cache.entries = []) :
    let v := ((reply idle e).run w).2
    v.Quiet ∧ v.cache.entries = [] ∧ v.store = w.store ∧ v.settings = w.settings := by
  obtain ⟨hooks, failing, -, settings, -⟩ := reply_frame idle (aside_not_perform he) w
  refine ⟨⟨hooks.trans hw.hooks, failing.trans hw.failing⟩, ?_, ?_, settings⟩
  · cases e with
    | clearCache => rfl
    | enqueue task =>
      obtain ⟨tasks, same⟩ := exists_tasks idle task w
      rw [same]
      exact cleared
    | now | uptime | acquire | release | touch | notify | record | report | readOverlay
    | dropOverlay => exact cleared
    | _ => simp [Rebuild.Aside, Rebuild.Guarding] at he
  · cases e with
    | enqueue task =>
      obtain ⟨tasks, same⟩ := exists_tasks idle task w
      rw [same]
    | now | uptime | acquire | release | clearCache | touch | notify | record | report
    | readOverlay | dropOverlay => rfl
    | _ => simp [Rebuild.Aside, Rebuild.Guarding] at he

structure Clears (w w' : World) (t : Snapshot) : Prop extends Quiet w' where
  settings : w'.settings = w.settings
  cache : w'.cache.entries = []
  bare : w'.slots[slot]? = none
  stored : ∃ built published old, Moves Motion.Tame { w with running := true } built ∧
    (∀ primary, built.store.home = .inl primary → primary = old) ∧
    (reply idle (.writeStore t (old.changes t))).run built = (.ok (), published) ∧
    w'.store = published.store

theorem clears_course {n : Nat} {purge : Option Instant} {outcome : Overlay.Outcome}
    (hc : SteadyCourse n s purge w w' report) (looked : report.overlay = some outcome)
    (kept : ∀ stamp, outcome ≠ .retained stamp) : w.Clears w' report.snapshot := by
  obtain ⟨begun, reading, filled, moved, building, latest, wrote, freed, stored, cleared, releasing,
    settled, snapshot, -, finished, -⟩ := hc
  rename_i read built published released ended old commit metrics
  have same : built.settings = w.settings :=
    Moves.same (f := fun w => w.settings) (w := { w with running := true })
      (fun m w _ => (motion_frame m w).1) moved
  have settings : released.settings = w.settings := freed.settings.trans same
  -- the cache is cleared once more after the write, and nothing fills it until the rebuild ends
  obtain ⟨quiet, empty, held, still⟩ := (Rebuild.within_afterCommit _ _).keeps_yields
    (I := fun u => u.Quiet ∧ u.cache.entries = [] ∧ u.store = released.store ∧
      u.settings = released.settings) (fun e he u hu => by
        obtain ⟨quiet, empty, same, still⟩ := aside_frame he hu.1 hu.2.1
        exact ⟨quiet, empty, same.trans hu.2.2.1, still.trans hu.2.2.2⟩)
    settled ⟨releasing.2.toQuiet, cleared, rfl, rfl⟩
  rw [looked] at settled
  have bare := afterCommit_bare kept settled
  rw [finished, snapshot]
  exact ⟨⟨quiet.hooks, quiet.failing⟩, still.trans settings, empty, bare, built, published, old,
    moved, latest, wrote, held.trans stored⟩

theorem clears_committed {purge : Option Instant} (undisturbed : w.Undisturbed)
    (committed : ((step (.rebuild purge)).run w).1.committed? = some report)
    (left : report.overlay = some .empty ∨ ∃ keys, report.overlay = some (.purged keys)) :
    w.Clears ((step (.rebuild purge)).run w).2 report.snapshot := by
  have course : SteadyCourse (depth - 1) w.settings purge w ((step (.rebuild purge)).run w).2
      report := steady_course undisturbed (course_of_committed committed)
  obtain looked | ⟨keys, looked⟩ := left
  · exact clears_course course looked nofun
  · exact clears_course course looked nofun

theorem Clears.serves (h : w.Clears w' t) (current : w.store.lags = false) : w'.Serves t := by
  obtain ⟨built, published, old, moved, latest, wrote, stored⟩ := h.stored
  have lag : built.store.lags = false :=
    (Moves.same (f := fun w => w.store.lags) (fun _ w hm => lags_apply hm w) moved).trans current
  have serving := (replicates_written lag latest wrote).serves w'.files
  refine ⟨h.toQuiet, fun e he => ?_, h.bare, stored ▸ serving⟩
  rw [h.cache] at he
  cases he

/-- A rebuild that leaves the overlay empty is followed by answers from what it published, as
long as keys are only looked up and time passes. -/
theorem served_snapshot (w : World) (undisturbed : w.Undisturbed) (current : w.store.lags = false)
    (purge : Option Instant) (report : Report)
    (committed : ((step (.rebuild purge)).run w).1.committed? = some report)
    (left : report.overlay = some .empty ∨ ∃ keys, report.overlay = some (.purged keys))
    (later : List Operation) (reading : ∀ op ∈ later, op.IsReading)
    (space : Namespace) (raw : String) (accepted : w.settings.accepts space = true) :
    let after := ((steps (.rebuild purge :: later)).run w).2
    let ids := report.snapshot.idsOf (.ofRaw space raw)
    ((step (.lookup space raw)).run after).1 = .ids ids ∧
      ((step (.primary space raw)).run after).1 = .id ids.head? := by
  intro after ids
  have clears := clears_committed undisturbed committed left
  have served := clears.serves current
  obtain ⟨still, settings⟩ := served.steps reading
  have passes : after.settings.accepts space = true := by
    rw [show after.settings = w.settings from settings.trans clears.settings]
    exact accepted
  obtain ⟨_, groups, first, -⟩ := Serves.lookup (w := after) still space raw
  rw [if_pos passes] at groups first
  exact ⟨congrArg Prod.fst groups, congrArg Prod.fst first⟩

def browsed : World where
  store := .memory (.ofSnapshot ((∅ : Snapshot).insert ⟨"8:foo"⟩ (.single "old")))
  slots := (∅ : Overlay.Slots).insert Overlay.slot
    ⟨⟨.zero, Overlay.normalized "old" 8 ["Foo"]⟩, .ofNat 1000⟩
  cache := .new 1
  registry := [
    .fixed "a" 8 ["Foo"] true,
    .scripted "b" 8 ["foo", "Bar"] false true none
      [.lookup 8 "Foo", .store (.registered "a") ["Baz"]]]

theorem served_snapshot_browsed : ∃ report,
    ((step (.rebuild none)).run browsed).1.committed? = some report ∧
    report.overlay = some (.purged 2) ∧
    let after := ((steps [.rebuild none, .lookup 8 "Baz", .setClock (.ofNat 2),
      .primary 8 "bar"]).run browsed).2
    ((step (.lookup 8 "foo")).run after).1 = .ids ["a", "b"] := by
  have ran : (((step (.rebuild none)).run browsed).1.committed?.map fun report =>
      (report.overlay, report.snapshot.idsOf (.ofRaw 8 "foo"))) =
        some (some (.purged 2), ["a", "b"]) := by decide +kernel
  obtain ⟨report, committed, found⟩ := Option.map_eq_some_iff.1 ran
  obtain ⟨purged, ids⟩ := Prod.mk.inj found
  have plain : browsed.Undisturbed := ⟨⟨rfl, rfl⟩, by decide⟩
  have served := served_snapshot browsed plain rfl none report committed (.inr ⟨2, purged⟩)
    [.lookup 8 "Baz", .setClock (.ofNat 2), .primary 8 "bar"] (by simp [Operation.IsReading])
    8 "foo" (by decide +kernel)
  rw [ids] at served
  exact ⟨report, committed, purged, served.1⟩

end World

end ClaimIndex
