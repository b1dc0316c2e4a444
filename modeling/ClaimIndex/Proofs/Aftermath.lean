import ClaimIndex.Proofs.Removal
import ClaimIndex.Proofs.Chronicle
import ClaimIndex.Proofs.Purging
import ClaimIndex.Proofs.Steady

namespace ClaimIndex

namespace Changes

inductive Before : ChangeKind × Key × Change → ChangeKind × Key × Change → Prop
  | within {kind : ChangeKind} {k k' : Key} {c c' : Change} (lt : compare k k' = .lt) :
    Before (kind, k, c) (kind, k', c')
  | removed {k k' : Key} {c c' : Change} : Before (.added, k, c) (.removed, k', c')
  | modified {kind : ChangeKind} {k k' : Key} {c c' : Change} (ne : kind ≠ .modified) :
    Before (kind, k, c) (.modified, k', c')

def notifications (c : Changes) : List Notification :=
  c.toList.filterMap fun (_, k, change) => k.page?.map (⟨·, change⟩)

theorem ordered_toList (c : Changes) : c.toList.Pairwise Before := by
  have listed (m : Std.ExtTreeMap Key Change) (kind : ChangeKind) :
      (m.toList.map (kind, ·)).Pairwise Before :=
    List.pairwise_map.2 (Std.ExtTreeMap.ordered_keys_toList.imp .within)
  refine List.pairwise_append.2 ⟨List.pairwise_append.2 ⟨listed _ _, listed _ _, ?_⟩,
    listed _ _, ?_⟩
  · simp only [List.mem_map]
    rintro _ ⟨a, -, rfl⟩ _ ⟨b, -, rfl⟩
    exact .removed
  · simp only [List.mem_append, List.mem_map]
    rintro _ (⟨a, -, rfl⟩ | ⟨a, -, rfl⟩) _ ⟨b, -, rfl⟩
    · exact .modified nofun
    · exact .modified nofun

end Changes

namespace Overlay.Slots

variable {s : Slots} {name : String} {now : Instant}

theorem delete_eq_self (h : s[name]? = none) : s.delete name = s := by
  apply Std.ExtTreeMap.ext_getElem?
  intro other
  by_cases same : name = other
  · subst same
    exact Std.ExtTreeMap.getElem?_erase_self.trans h.symm
  · exact getElem?_delete_ne same

theorem get_missed (h : (s.get name now).1 = none) : (s.get name now).2 = s.delete name := by
  cases there : s[name]? with
  | none => rw [get_none there, delete_eq_self there]
  | some held =>
    cases late : held.expired now with
    | false =>
      rw [get_live there late] at h
      cases h
    | true => rw [get_expired there late, delete]

end Overlay.Slots

namespace World

open Overlay (slot)
open Proc (Yields yields_bind yields_ask yields_pure mem_calls_bind)

variable {w v : World} {s : Settings} {bound : Instant} {difference : Difference}

def verdict (w : World) (bound : Instant) : Overlay.Outcome :=
  match w.overlay? with
  | none => .empty
  | some entry => if entry.stamp ≤ bound then .purged entry.keys.size else .retained entry.stamp

def swept (w : World) (bound : Instant) : Overlay.Slots :=
  match w.verdict bound with
  | .retained _ => w.slots
  | _ => w.slots.delete slot

def followUps : Overlay.Outcome → List Task
  | .retained _ => [.rebuild none]
  | _ => []

theorem verdict_bare (bare : w.overlay? = none) :
    w.verdict bound = .empty ∧ w.swept bound = w.slots.delete slot := by
  have empty : w.verdict bound = .empty := by rw [verdict, bare]
  exact ⟨empty, by rw [swept, empty]⟩

theorem verdict_early {entry : Overlay.Entry} (there : w.overlay? = some entry)
    (early : entry.stamp ≤ bound) : w.verdict bound = .purged entry.keys.size ∧
      w.swept bound = w.slots.delete slot := by
  have purged : w.verdict bound = .purged entry.keys.size := by
    rw [verdict, there]
    exact if_pos early
  exact ⟨purged, by rw [swept, purged]⟩

theorem verdict_late {entry : Overlay.Entry} (there : w.overlay? = some entry)
    (late : ¬ entry.stamp ≤ bound) : w.verdict bound = .retained entry.stamp ∧
      w.swept bound = w.slots := by
  have retained : w.verdict bound = .retained entry.stamp := by
    rw [verdict, there]
    exact if_neg late
  exact ⟨retained, by rw [swept, retained]⟩

theorem reconcile_verdict (rounds : Nat) :
    (Overlay.reconcile bound (rounds + 1)).run.Yields (reply idle) w
      (.ok (some (w.verdict bound))) { w with slots := w.swept bound } := by
  rw [Overlay.Removal.reconcile_succ]
  change ((Overlay.Removal.looked bound rounds (w.slots.get slot w.clock).1).run
    (reply idle)).run { w with slots := (w.slots.get slot w.clock).2 } = _
  cases there : w.overlay? with
  | none =>
    obtain ⟨empty, swept⟩ : w.verdict bound = .empty ∧ w.swept bound = w.slots.delete slot :=
      verdict_bare there
    rw [Overlay.Slots.get_missed there, show (w.slots.get slot w.clock).1 = none from there, empty,
      swept]
    rfl
  | some entry =>
    rw [get_overlay there]
    by_cases early : entry.stamp ≤ bound
    · obtain ⟨purged, swept⟩ := verdict_early there early
      have hit := Overlay.Removal.Amid.hits there early
      obtain ⟨-, -, -, -, erased⟩ := Overlay.Slots.deleteIf_hit hit
      rw [Overlay.Removal.looked_early early, purged, swept, Overlay.Slots.delete, ← erased]
      change ((if (w.slots.deleteIf slot entry.stamp w.clock).1 then _ else _ : Proc _).run
        (reply idle)).run _ = _
      rw [if_pos hit]
      rfl
    · obtain ⟨retained, swept⟩ := verdict_late there early
      rw [Overlay.Removal.looked_late early, retained, swept]
      rfl

theorem enqueue_open {task : Task} {step : SideEffect} {done : Proc Unit}
    (hopen : w.queue.closed = false)
    (hy : done.Yields (reply idle)
      { w with queue := { w.queue with tasks := w.queue.tasks ++ [task] } } () v) :
    (Rebuild.enqueue task step done).Yields (reply idle) w () v :=
  yields_bind.2 ⟨.ok (), _, yields_ask.2 (reply_enqueue_open hopen), hy⟩

theorem respond_verdict (hopen : w.queue.closed = false) (outcome : Overlay.Outcome) :
    ∃ metrics, (Rebuild.respond (.ok (some outcome))).Yields (reply idle) w (some outcome)
      { w with
        metrics
        queue := { w.queue with tasks := w.queue.tasks ++ followUps outcome } } := by
  cases outcome with
  | empty =>
    have none : w.queue.tasks ++ followUps .empty = w.queue.tasks := List.append_nil _
    exact ⟨w.metrics, by rw [none]; rfl⟩
  | purged keys =>
    have none : w.queue.tasks ++ followUps (.purged keys) = w.queue.tasks := List.append_nil _
    exact ⟨w.metrics.record .purged, by rw [none]; rfl⟩
  | retained stamp =>
    refine ⟨(w.metrics.record .retained).record .followUp, ?_⟩
    refine yields_bind.2 ⟨(), { w with metrics := w.metrics.record .retained }, rfl, ?_⟩
    exact yields_bind.2 ⟨(), _, enqueue_open hopen rfl, rfl⟩

theorem announce_open (quiet : w.Quiet) (hopen : w.queue.closed = false)
    (hy : (Rebuild.announce difference).Yields (reply idle) w () v) : ∃ notices,
      v = { w with
        notices
        queue := { w.queue with tasks := w.queue.tasks ++ refreshes difference }
        log := w.log ++ difference.changes.notifications } := by
  obtain ⟨_, told, hnotify, hy⟩ := yields_bind.1 hy
  have heard : (difference.changes.toList.forM Rebuild.notify).Yields (handle idle) w () told :=
    (quiet.run (Rebuild.within_notifyAll _) fun _ he => aside_not_perform (.inl he)).trans hnotify
  obtain ⟨notices, rfl⟩ := notified heard
  refine ⟨notices, ?_⟩
  unfold refreshes
  split at hy
  · obtain ⟨-, rfl⟩ := yields_pure.1 hy
    rw [if_pos ‹_›, List.append_nil]
    rfl
  · rw [if_neg ‹_›]
    exact (Prod.mk.inj (hy.symm.trans (enqueue_open hopen rfl))).2

theorem afterCommit_exact (quiet : w.Quiet) (hopen : w.queue.closed = false)
    {outcome : Option Overlay.Outcome}
    (hy : (Rebuild.afterCommit s difference bound).Yields (reply idle) w outcome v) :
    outcome = some (w.verdict bound) ∧ ∃ metrics notices, v = { w with
      metrics
      notices
      tokens := w.tokens.insert s.token (w.tokens[s.token]?.getD 0 + 1)
      slots := w.swept bound
      queue := { w.queue with
        tasks := w.queue.tasks ++ followUps (w.verdict bound) ++ refreshes difference }
      log := w.log ++ difference.changes.notifications } := by
  obtain ⟨touched, looked, responded, found, htouch, hlook, hrespond, hannounce⟩ :=
    Rebuild.yields_afterCommit hy
  have raised : (Rebuild.touch s).Yields (reply idle) w ()
    { w with tokens := w.tokens.insert s.token (w.tokens[s.token]?.getD 0 + 1) } := rfl
  obtain ⟨-, rfl⟩ := htouch.unique raised
  obtain ⟨rfl, rfl⟩ := hlook.unique (reconcile_verdict _)
  obtain ⟨metrics, answered⟩ := respond_verdict (w := { w with
    tokens := w.tokens.insert s.token (w.tokens[s.token]?.getD 0 + 1)
    slots := w.swept bound }) hopen (w.verdict bound)
  obtain ⟨rfl, rfl⟩ := hrespond.unique answered
  obtain ⟨notices, rfl⟩ := announce_open (by exact ⟨quiet.hooks, quiet.failing⟩)
    (by exact hopen) hannounce
  exact ⟨rfl, metrics, notices, rfl⟩

def Motion.Withheld (m : Motion) : Prop := m.Hushed ∧ ∀ token, m ≠ .reply (.touch token)

theorem Motion.Ordinary.withheld {m : Motion} (hm : m.Ordinary) : m.Withheld := by
  refine ⟨hm.hushed, ?_⟩
  rintro token rfl
  obtain hm | ⟨entry, hm⟩ := hm
  · exact hm
  · cases hm

theorem Motion.kind_withheld : Kind Motion.Withheld :=
  ⟨fun _ hm => hm.1.tame.staying, fun _ => ⟨trivial, nofun⟩⟩

theorem withheld_play (depth : Nat) : (play depth).Makes Motion.Withheld :=
  fun label operations w hw => (ordinary_play depth label operations w hw).mono fun _ =>
    Motion.Ordinary.withheld

structure Withholds (w v : World) : Prop where
  tokens : v.tokens = w.tokens
  log : v.log = w.log
  closed : v.queue.closed = w.queue.closed

namespace Withholds

variable {u : World}

theorem trans (h : Withholds w v) (h' : Withholds v u) : Withholds w u where
  tokens := h'.tokens.trans h.tokens
  log := h'.log.trans h.log
  closed := h'.closed.trans h.closed

theorem apply {m : Motion} (hm : m.Withheld) (w : World) : Withholds w (m.apply w) := by
  refine ⟨?_, log_apply hm.1 w, (motion_frame m w).2⟩
  cases m with
  | reply e =>
    cases e with
    | touch token => exact absurd rfl (hm.2 token)
    | enqueue task =>
      obtain ⟨tasks, e⟩ := exists_tasks idle task w
      rw [Motion.apply, e]
    | _ => rfl
  | _ => rfl

theorem moves (h : Moves Motion.Withheld w v) : Withholds w v :=
  h.keeps (I := Withholds w) (fun _ u hm hu => hu.trans (.apply hm u)) ⟨rfl, rfl, rfl⟩

theorem lock {asked taken : Nat} {begun : Instant}
    (hy : (Rebuild.lock s).Yields (reply idle) w (.ok (asked, taken, begun)) v) :
    Withholds w v := by
  obtain ⟨_, got, _, _, waiting, took, entered, read, cleared, -⟩ := Rebuild.yields_taken hy
  cases waiting
  have held : Withholds w got := ⟨(congrArg (·.2.tokens) took).symm,
    (congrArg (·.2.log) took).symm, (congrArg (·.2.queue.closed) took).symm⟩
  cases entered
  cases read
  cases cleared
  exact ⟨held.tokens, held.log, held.closed⟩

theorem unlock {left : Nat} (hy : Rebuild.unlock.Yields (reply idle) w left v) :
    Withholds w v := by
  obtain ⟨freed, u, asked, hy⟩ := yields_bind.1 hy
  have held : Withholds w u := ⟨(congrArg (·.2.tokens) (yields_ask.1 asked)).symm,
    (congrArg (·.2.log) (yields_ask.1 asked)).symm,
    (congrArg (·.2.queue.closed) (yields_ask.1 asked)).symm⟩
  cases freed with
  | error fault =>
    cases hy
    exact ⟨held.tokens, held.log, held.closed⟩
  | ok _ =>
    cases hy
    exact ⟨held.tokens, held.log, held.closed⟩

theorem building {n : Nat} {build : Build} (hw : w.Running)
    (filled : (Build.ofGroups w.registry).run.Yields (handle (play n)) w (.ok build) v) :
    Withholds w v := by
  have listing : (Build.ofGroups w.registry).run.Within (Build.Listing fun _ => True) :=
    Build.within_ofGroups fun _ _ _ _ => trivial
  refine moves ((inert_handle Motion.kind_withheld (withheld_play n)).yields
    (listing.mono fun e he => ?_) hw filled)
  cases e with
  | perform | report => exact ⟨⟨trivial, nofun⟩, nofun⟩
  | _ => exact he.elim

end Withholds

def Latest (w : World) (old : Snapshot) : Prop :=
  w.store.home = .inl old ∨ w.Keeps old ∧ old.WellFormed

inductive Release (n : Nat) (s : Settings) (purge : Option Instant) (w w' : World)
    (report : Report) : Prop
  | intro {built released ended : World} {metrics : Metrics}
    (wrote : (.writeStore report.snapshot report.difference.changes, built) ∈
      (Rebuild.start s purge).calls (handle (play n)) w)
    (freed : Alike built released) (quiet : released.Quiet) (withheld : Withholds w released)
    (differs : ∃ old, report.difference = old.diff report.snapshot ∧
      ∀ old', w.Latest old' → old = old')
    (bounded : report.purge = some (purge.getD w.clock))
    (settled : (Rebuild.afterCommit s report.difference (purge.getD w.clock)).Yields (reply idle)
      released report.overlay ended)
    (finished : w' = { ended with metrics, running := false })

theorem release_course {n : Nat} {purge : Option Instant} {report : Report} (hw : w.Undisturbed)
    (hc : Rebuild.Course (handle (World.play (n + 1))) s purge w v report) :
    Release (n + 1) s purge w v report := by
  obtain ⟨entered, lock, answered, reading, filled, -, -, -, changed, wrote, publishing, unlock,
    settled, snapshot, difference, bounded, finished, writing, -⟩ := steady_phases hw hc
  rename_i locked read built published released ended asked taken left old commit metrics
  obtain ⟨locking, -, stored⟩ := entered.guarding Rebuild.within_lock lock
  obtain ⟨releasing, freed, -⟩ := publishing.guarding Rebuild.within_unlock unlock
  have replaced : Alike built published ∧ Withholds built published := by
    rw [← show _ = published from congrArg Prod.snd wrote]
    exact ⟨⟨rfl, rfl, rfl, rfl⟩, ⟨rfl, rfl, rfl⟩⟩
  have withheld : Withholds w released := by
    have locks : Withholds { w with running := true } locked :=
      .lock (entered.bare (Rebuild.within_lock.mono fun _ => .inl) lock)
    have reads : Withholds locked read := by
      rw [← show _ = read from congrArg Prod.snd answered]
      exact ⟨rfl, rfl, rfl⟩
    have builds : Withholds read built := .building reading.1 filled
    have unlocks : Withholds published released :=
      .unlock (publishing.bare (Rebuild.within_unlock.mono fun _ => .inl) unlock)
    obtain ⟨tokens, log, closed⟩ :=
      (((locks.trans reads).trans builds).trans replaced.2).trans unlocks
    exact ⟨tokens, log, closed⟩
  have found (old' : Snapshot) (latest : w.Latest old') : old = old' := by
    have answer : (locked.store.read locked.files true).1 = .ok old := congrArg Prod.fst answered
    obtain home | ⟨keeps, sound⟩ := latest
    · have read : (locked.store.read locked.files true).1 = .ok old' :=
        Store.read_of_home (stored ▸ home)
      exact Except.ok.inj (answer.symm.trans read)
    · have tame := (inert_handle Motion.kind_tame (tame_play (n + 1))).yields
        (Rebuild.within_lock.mono fun _ he => aside_tame (.inl he)) entered.1 lock
      have still := (keeps.bound true).moves tame
      exact Except.ok.inj (answer.symm.trans (still.holds.read sound still.fits))
  refine .intro ?_ (replaced.1.trans freed) releasing.2.toQuiet withheld ⟨old, ?_, found⟩ bounded
    ?_ finished
  · rw [snapshot, difference, changed]
    exact writing
  · rw [snapshot, difference, changed]
  · rw [difference]
    exact settled

theorem Alike.judged (h : Alike w v) (bound : Instant) :
    v.verdict bound = w.verdict bound ∧ v.swept bound = w.swept bound := by
  have same : v.overlay? = w.overlay? := by rw [overlay?, overlay?, h.slots, h.clock]
  have verdict : v.verdict bound = w.verdict bound := by rw [World.verdict, World.verdict, same]
  exact ⟨verdict, by rw [swept, swept, verdict, h.slots]⟩

/-- What a rebuild that commits leaves behind.  Its difference is the one from the latest snapshot
before.  Its token is raised and no other one; observers are told of each change once, in order.
An entry of the overlay that is there after the enumeration stays if its stamp is not up to the
bound, and is removed otherwise; the queue takes another rebuild if it stays, and after that a
refresh for the groups that the changes touch, if there are any. -/
theorem commit_aftermath (w : World) (purge : Option Instant) (report : Report)
    (undisturbed : w.Undisturbed) (takes : w.queue.closed = false)
    (committed : ((step (.rebuild purge)).run w).1.committed? = some report) :
    let after := ((step (.rebuild purge)).run w).2
    let bound := purge.getD w.clock
    (∀ old, w.Latest old → report.difference = old.diff report.snapshot) ∧
    report.purge = some bound ∧
    after.tokens[w.settings.token]? = some (w.tokens[w.settings.token]?.getD 0 + 1) ∧
    (∀ token, token ≠ w.settings.token → after.tokens[token]? = w.tokens[token]?) ∧
    after.log = w.log ++ report.difference.changes.notifications ∧
    report.difference.changes.toList.Pairwise Changes.Before ∧
    (report.difference.changes.toList.map fun change => change.2.1).Nodup ∧
    ∃ built, (.writeStore report.snapshot report.difference.changes, built) ∈
        (Rebuild.start w.settings purge).calls (handle (play depth)) w ∧
      report.overlay = some (built.verdict bound) ∧
      after.slots = built.swept bound ∧ after.clock = built.clock ∧
      after.queue.tasks = built.queue.tasks ++ followUps (built.verdict bound) ++
        refreshes report.difference := by
  intro after bound
  obtain ⟨wrote, freed, quiet, withheld, ⟨old, differs, found⟩, bounded, settled, finished⟩ :=
    release_course undisturbed (course_of_committed committed)
  rename_i built released ended metrics
  obtain ⟨verdict, swept⟩ := freed.judged bound
  obtain ⟨outcome, metrics', notices, rfl⟩ :=
    afterCommit_exact quiet (withheld.closed.trans takes) settled
  change after = _ at finished
  rw [finished]
  refine ⟨fun old' latest => ?_, bounded, ?_, fun token other => ?_, ?_,
    Changes.ordered_toList _, ?_, built, wrote, ?_, swept, freed.clock, ?_⟩
  · rw [differs, found old' latest]
  · rw [Std.ExtTreeMap.getElem?_insert_self, withheld.tokens]
  · rw [Std.ExtTreeMap.getElem?_insert, withheld.tokens]
    simp [Ne.symm other]
  · rw [withheld.log]
  · rw [differs]
    exact Snapshot.nodup_changes
  · rw [outcome, verdict]
  · rw [verdict, freed.queue]

def parting : World where
  store := .memory { primary := (∅ : Snapshot).insert ⟨"8:old"⟩ (.single "a"), lagged := false }
  slots := (∅ : Overlay.Slots).insert slot
    ⟨⟨.ofNat 1, Overlay.normalized "late" 8 ["Late"]⟩, .ofNat 1000⟩
  registry := [.fixed "b" 8 ["New"] true]

theorem commit_aftermath_parting : ∃ report,
    ((step (.rebuild none)).run parting).1.committed? = some report ∧
    report.difference = Snapshot.diff ((∅ : Snapshot).insert ⟨"8:old"⟩ (.single "a"))
      report.snapshot ∧
    ((step (.rebuild none)).run parting).2.log = report.difference.changes.notifications ∧
    ((step (.rebuild none)).run parting).2.log =
      [⟨⟨8, "new"⟩, ⟨[], ["b"]⟩⟩, ⟨⟨8, "old"⟩, ⟨["a"], []⟩⟩] ∧
    ∃ built : World, report.overlay = some (built.verdict .zero) ∧
      ((step (.rebuild none)).run parting).2.queue.tasks = built.queue.tasks ++
        followUps (built.verdict .zero) ++ refreshes report.difference ∧
      ((step (.rebuild none)).run parting).2.queue.tasks.map Task.name =
        ["rebuild", "refresh_group_stats"] := by
  have ran : ((step (.rebuild none)).run parting).1.committed?.isSome = true := by decide +kernel
  obtain ⟨report, committed⟩ := Option.isSome_iff_exists.1 ran
  have plain : parting.Undisturbed := ⟨⟨rfl, rfl⟩, by decide⟩
  obtain ⟨differs, -, -, -, log, -, -, built, -, overlay, -, -, tasks⟩ :=
    commit_aftermath parting none report plain rfl committed
  exact ⟨report, committed, differs _ (.inl rfl), log, by decide +kernel, built, overlay, tasks,
    by decide +kernel⟩

end World

end ClaimIndex
