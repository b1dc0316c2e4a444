import ClaimIndex.Proofs.Accounts

namespace ClaimIndex

open World (handle play record ownMarks beginMarks after Motion Moves)

namespace Metrics

variable (m : Metrics)

theorem gauges_record {event : Event} (h : event.raises Name.rebuilds = 0) :
    (m.record event).gauges = m.gauges := by
  cases event with
  | rebuilt => simp [Event.raises, Event.raised] at h
  | lookup source => cases source <;> rfl
  | _ => rfl

theorem gauge_set (name key : String) (value : UInt64) :
    (m.set name value).gauge key = if name = key then value else m.gauge key := by
  rw [gauge, set, Std.ExtTreeMap.getElem?_insert]
  simp only [Std.LawfulEqCmp.compare_eq_iff_eq]
  split <;> rfl

theorem gauge_raise (name key : String) (x : UInt64) : (m.raise name x).gauge key = m.gauge key :=
  rfl

theorem gauge_observe (name key : String) (x : Binary64) :
    (m.observe name x).gauge key = m.gauge key := rfl

theorem gauge_rebuilt (keys conflicts changed : Nat) (wait critical : Span) :
    (m.record (.rebuilt keys conflicts changed wait critical)).gauge Name.snapshotKeys =
        .ofNat keys ∧
      (m.record (.rebuilt keys conflicts changed wait critical)).gauge Name.snapshotConflicts =
        .ofNat conflicts := by
  simp +decide [record, gauge_set, gauge_raise, gauge_observe]

end Metrics

namespace World

variable {n : Nat} {w v u : World} {e : Effect} {op : Operation} {front back marks : List Mark}

def Reported (w : World) : Prop :=
  ∃ s : Snapshot, s.WellFormed ∧ w.Keeps s ∧
    w.metrics.gauge Metrics.Name.snapshotKeys = .ofNat s.size ∧
    w.metrics.gauge Metrics.Name.snapshotConflicts = .ofNat s.conflictCount

theorem Reported.of_same (h : w.Reported) (kept : ∀ s, w.Keeps s → v.Keeps s)
    (gauges : v.metrics.gauges = w.metrics.gauges) : v.Reported := by
  obtain ⟨s, sound, keeps, keys, conflicts⟩ := h
  refine ⟨s, sound, kept s keeps, ?_, ?_⟩
  · rwa [Metrics.gauge, gauges]
  · rwa [Metrics.gauge, gauges]

theorem Preserves.keeps {s : Snapshot} (h : Preserves w v) (keeps : w.Keeps s) : v.Keeps s := by
  refine ⟨keeps.toDurable.of_same (fun path home => h.home ▸ home) h.lock, ?_⟩
  cases home : w.store.home with
  | inl primary =>
    exact (Store.holds_inl (h.home.trans home)).2 ((Store.holds_inl home).1 keeps.holds)
  | inr path =>
    have firm : ¬ w.Loose (FileSystem.place path) := by
      rintro (⟨lock, held, same⟩ | ⟨path', draft, same⟩)
      · exact keeps.apart path lock home held same
      · obtain rfl : path = path' := Sum.inr.inj (home.symm.trans draft)
        exact FileStore.place_temporary_ne ⟨path, none⟩ same.symm
    exact (Store.holds_inr (h.home.trans home)).2
      (h.files.read firm ((Store.holds_inr home).1 keeps.holds))

def Tells (w : World) (marks : List Mark) (v : World) : Prop :=
  w.running = false → v.running = false ∧
    ((∀ m ∈ marks, ∀ report, m.committed? = some report → m.world.Durable report.snapshot) →
      w.Reported ∨ (∃ m ∈ marks, m.committed?.isSome = true) → v.Reported)

theorem Tells.done (w : World) : Tells w [] w :=
  fun idle => ⟨idle, fun _ h => h.resolve_right (by simp)⟩

theorem Tells.append (h : Tells w front v) (h' : Tells v back u) : Tells w (front ++ back) u := by
  intro idle
  obtain ⟨rests, first⟩ := h idle
  obtain ⟨rests, second⟩ := h' rests
  refine ⟨rests, fun durable told => ?_⟩
  replace first := first fun m hm => durable m (List.mem_append_left _ hm)
  refine second (fun m hm => durable m (List.mem_append_right _ hm)) ?_
  obtain told | ⟨m, hm, committed⟩ := told
  · exact .inl (first (.inl told))
  · obtain hm | hm := List.mem_append.1 hm
    · exact .inl (first (.inr ⟨m, hm, committed⟩))
    · exact .inr ⟨m, hm, committed⟩

theorem gauges_apply {m : Motion} (hm : m.Ordinary) (w : World) :
    (m.apply w).metrics.gauges = w.metrics.gauges := by
  cases m with
  | reply e =>
    cases e with
    | record event =>
      refine Metrics.gauges_record w.metrics ?_
      obtain passing | ⟨entry, other⟩ := hm
      · cases event with
        | skipped | merged => decide
        | lookup source => cases source <;> decide
        | _ => exact passing.elim
      · cases other
    | enqueue task =>
      obtain ⟨tasks, same⟩ := exists_tasks idle task w
      rw [Motion.apply, same]
    | _ => rfl
  | _ => rfl

theorem Reported.apply {m : Motion} (hm : m.Ordinary) (h : w.Reported) : (m.apply w).Reported :=
  h.of_same (fun _ => Keeps.apply hm.tame) (gauges_apply hm w)

theorem Tells.moved {m : Motion} (h : Tells w marks v) (hm : m.Ordinary) :
    Tells w marks (m.apply v) := by
  intro idle
  obtain ⟨rests, told⟩ := h idle
  exact ⟨(running_apply hm v).trans rests, fun durable h => (told durable h).apply hm⟩

theorem Tells.mark {m : Mark} (h : Tells w marks v) (silent : m.committed? = none) :
    Tells w (m :: marks) v := by
  intro idle
  obtain ⟨rests, told⟩ := h idle
  refine ⟨rests, fun durable before => told (fun m hm => durable m (.tail _ hm)) ?_⟩
  refine before.imp_right ?_
  rintro ⟨m, hm, committed⟩
  obtain rfl | hm := List.mem_cons.1 hm
  · rw [silent] at committed
    cases committed
  · exact ⟨m, hm, committed⟩

theorem Tells.asks (he : e.Merging) : Tells w [.asks e w] ((reply idle e).run w).2 :=
  ((Tells.done w).moved (m := .reply e) he).mark rfl

theorem composes_tells : Composes Tells where
  done := .done
  append := .append
  direct direct w := (Tells.done w).moved direct.ordinary

theorem merging_of_calls (other : op.rebuilds? = none) {c : Effect × World}
    (hc : c ∈ op.calls n w) : c.1.Merging := by
  cases Operation.purpose_of_mem hc with
  | lookup sought asked => exact .inl ((Lookup.within_ofKey _).calls asked).calm
  | rebuild rebuilds asked => cases other.symm.trans rebuilds
  | merge merges asked => exact (Overlay.within_add _ _).calls asked
  | reads reads =>
    obtain ⟨e, u⟩ := c
    cases e with
    | readStore | readOverlay | groups | clearCache => exact .inl trivial
    | record event =>
      cases event with
      | lookup source => exact .inl trivial
      | _ => exact reads.elim
    | _ => exact reads.elim

theorem committed_begins (n : Nat) (op : Operation) (w : World) :
    (Mark.begins n op w).committed? = op.rebuilds?.bind fun purge =>
      (Answer.report
        (((Rebuild.start w.settings purge).run (handle (play n))).run w).1).committed? := by
  change (Operation.rebuilt? n op w).bind _ = _
  unfold Operation.rebuilt?
  cases op.rebuilds? with
  | none => rfl
  | some purge => rfl

theorem committed_running {m : Mark} (hm : m.world.Running) : m.committed? = none := by
  cases m with
  | asks => rfl
  | begins n op w =>
    rw [committed_begins]
    cases op.rebuilds? with
    | none => rfl
    | some purge =>
      rw [Option.bind_some, start_running (w := w) _ hm]
      rfl

theorem committed_within {purge : Option Instant} (rebuilds : op.rebuilds? = some purge)
    {m : Mark} (hm : m ∈ ownMarks n (record n) op w) : m.committed? = none := by
  obtain rfl | running := running_within rebuilds m hm
  · rfl
  · exact committed_running running

theorem gauges_narrated (h : Narrates w marks v) (regroups : Regroups marks)
    (uncommitted : ∀ m ∈ marks, m.committed? = none) : v.metrics.gauges = w.metrics.gauges := by
  have none : tally (Mark.raises Metrics.Name.rebuilds) marks = 0 := by
    rw [regroups.tally_eq, tally_congr (g := fun _ => 0) fun m hm => ?_]
    · simp [tally]
    · rw [tally_own_raises (by decide)]
      exact m.sheet.commits.trans (by rw [uncommitted m hm]; rfl)
  have silent (m : Mark) (hm : m ∈ marks) : m.raises Metrics.Name.rebuilds = 0 :=
    Nat.eq_zero_of_le_zero (none ▸ le_tally _ hm)
  refine h.keeps (I := fun u => u.metrics.gauges = w.metrics.gauges) (fun m u direct same => ?_)
    (fun e u hu same => ?_) rfl
  · rwa [metrics_apply direct]
  · by_cases recorded : ∃ event, e = .record event
    · obtain ⟨event, rfl⟩ := recorded
      exact (Metrics.gauges_record _ (silent _ hu)).trans same
    · rwa [metrics_reply fun event same => recorded ⟨event, same⟩]

open Proc (Yields yields_bind yields_pure yields_ask)

theorem gauges_settle {player : Player} {s : Settings} {commit : Rebuild.Commit} {bound : Instant}
    {asked taken left : Nat} {report : Report}
    (hy : (Rebuild.settle s commit bound asked taken left).Yields (handle player) w report v) :
    v.metrics.gauge Metrics.Name.snapshotKeys = .ofNat report.snapshot.size ∧
      v.metrics.gauge Metrics.Name.snapshotConflicts = .ofNat report.snapshot.conflictCount := by
  unfold Rebuild.settle at hy
  obtain ⟨_, ended, -, hy⟩ := yields_bind.1 hy
  obtain ⟨_, told, -, hy⟩ := yields_bind.1 hy
  obtain ⟨_, counted, count, hy⟩ := yields_bind.1 hy
  obtain ⟨rfl, rfl⟩ := yields_pure.1 hy
  rw [← show _ = counted from congrArg Prod.snd (yields_ask.1 count)]
  exact Metrics.gauge_rebuilt _ _ _ _ _ _

theorem after_rebuild {purge : Option Instant} (rebuilds : op.rebuilds? = some purge) (w : World) :
    after n op w = (((Rebuild.start w.settings purge).run (handle (play n))).run w).2 := by
  unfold after
  cases op with
  | rebuild purge | rebuildSnapshot purge =>
    cases rebuilds
    rw [Operation.perform_body rfl, map_eq_pure_bind, Proc.run_bind]
    rfl
  | execute task =>
    cases task with
    | rebuild purge =>
      cases rebuilds
      rw [Operation.perform_body rfl, map_eq_pure_bind, Proc.run_bind, Task.execute, Proc.run_bind]
      rfl
    | refreshStatistics groups => cases rebuilds
  | _ => cases rebuilds

theorem reported_course {purge : Option Instant} {report : Report}
    (durable : w.Durable report.snapshot)
    (hc : Rebuild.Course (handle (play n)) w.settings purge w v report) : v.Reported := by
  obtain ⟨u, -, -, built⟩ := hc.builds (I := fun _ => True) (fun _ _ _ _ => trivial) trivial
  refine ⟨report.snapshot, ?_, keeps_course (tame_play n) durable hc, ?_⟩
  · rw [show report.snapshot = (Build.outcome _).snapshot from congrArg Build.snapshot built]
    exact Build.wellFormed_outcome _
  · obtain ⟨-, -, -, -, -, settled, leave⟩ := hc
    have measured := gauges_settle settled
    rwa [← show _ = v from congrArg Prod.snd leave]

theorem tells_rebuild {purge : Option Instant} (rebuilds : op.rebuilds? = some purge) (w : World) :
    Tells w (beginMarks n (record n) op w) (after n op w) := by
  intro idle
  have marked : marks n op w = beginMarks n (record n) op w :=
    marks_single (single_of_rebuilds rebuilds)
  have started := start_idle (play n) idle w.settings purge
  have answer := committed_begins n op w
  rw [rebuilds, Option.bind_some] at answer
  have left := after_rebuild (n := n) rebuilds w
  cases attempted : ((Rebuild.attempt w.settings purge).run (handle (play n))).run
    { w with running := true } with
  | mk result ended =>
    rw [attempted] at started
    rw [started] at left answer
    refine ⟨by rw [left], fun durable told => ?_⟩
    cases result with
    | ok report =>
      have ran : report.skipped = false := Rebuild.ran_attempt attempted
      have committed : (Mark.begins n op w).committed? = some report := by
        rw [answer]
        simp [Answer.committed?, ran]
      rw [left]
      exact reported_course (durable _ (.head _) report committed)
        (Rebuild.course_of_yields started ran)
    | error fault =>
      have silent (m : Mark) (hm : m ∈ beginMarks n (record n) op w) : m.committed? = none := by
        obtain rfl | hm := List.mem_cons.1 hm
        · rw [answer]
          rfl
        · exact committed_within rebuilds hm
      have before : w.Reported := by
        refine told.resolve_right ?_
        rintro ⟨m, hm, committed⟩
        rw [silent m hm] at committed
        cases committed
      obtain ⟨preserves, -⟩ :=
        failures_attempt (n := n) (w := { w with running := true }) rfl attempted
      have narrated := narrates_marks n op w
      rw [marked] at narrated
      refine before.of_same (fun s keeps => ?_) (gauges_narrated narrated
        (marked ▸ regroups_marks n op w) silent)
      rw [left]
      exact (preserves.keeps (keeps.bound true)).bound false

section

variable (told : ∀ label ops w, Tells w (record n label ops w) ((play n label ops).run w).2)

include told

theorem tells_begin (single : op ≠ .executeAll) (w : World) :
    Tells w (beginMarks n (record n) op w) (after n op w) := by
  cases rebuilds : op.rebuilds? with
  | some purge => exact tells_rebuild rebuilds w
  | none =>
    have own : Tells w (ownMarks n (record n) op w) (after n op w) :=
      composes_tells.owned told single w fun _ hc _ => .asks (merging_of_calls rebuilds hc)
    exact own.mark (by rw [committed_begins, rebuilds]; rfl)

theorem tells_op (op : Operation) (w : World) :
    Tells w (opMarks n (record n) op w) (after n op w) :=
  composes_tells.performed (fun _ => tells_begin told) (after_executeAll (told_play n))
    (fun w => (Tells.done w).mark (committed_begins n .executeAll w)) op w

end

theorem tells_record (n : Nat) (label : String) (ops : List Operation) (w : World) :
    Tells w (record n label ops w) ((play n label ops).run w).2 :=
  composes_tells.recorded (fun _ => tells_op) n label ops w

theorem tells_transcript (ops : List Operation) (w : World) :
    Tells w (transcript ops w) ((steps ops).run w).2 :=
  composes_tells.transcribed (tells_op (tells_record depth)) ops w

end World

section

variable {f g : Mark → Nat} {marks : List Mark}

theorem tally_add : tally f marks + tally g marks = tally (fun m => f m + g m) marks :=
  List.sum_map_add.symm

theorem tally_toNat (p : Mark → Bool) (marks : List Mark) :
    tally (fun m => (p m).toNat) marks = marks.countP p := by
  induction marks with
  | nil => rfl
  | cons m marks ih =>
    rw [List.countP_cons, ← ih, Nat.add_comm]
    cases h : p m <;> simp [tally, h]

theorem tally_filterMap {α : Type} (p : Mark → Option α) (f : α → Nat) (marks : List Mark) :
    tally (fun m => (p m).elim 0 f) marks = ((marks.filterMap p).map f).sum := by
  induction marks with
  | nil => rfl
  | cons m marks ih =>
    have split : tally (fun m => (p m).elim 0 f) (m :: marks) =
        (p m).elim 0 f + tally (fun m => (p m).elim 0 f) marks := List.sum_cons
    rw [split, ih, List.filterMap_cons]
    cases p m with
    | none => exact Nat.zero_add _
    | some a => rfl

end

namespace World

open Metrics

variable {ops : List Operation} {w : World}

/-- The queue takes every task for a further rebuild that a rebuild of the run hands to it. -/
def Takes (ops : List Operation) (w : World) : Prop :=
  ∀ m ∈ transcript ops w, ∀ x ∈ m.trail, x.refused = false

theorem Takes.enqueues (h : w.Takes ops) {m : Mark} (hm : m ∈ transcript ops w) :
    (m.trail.map Exchange.enqueues).sum = (m.trail.map Exchange.handsOver).sum := by
  refine congrArg List.sum (List.map_congr_left fun x hx => ?_)
  have taken := h m hm x hx
  obtain ⟨e, r⟩ := x
  cases e with
  | enqueue task =>
    cases task with
    | rebuild purge =>
      cases r with
      | ok u => rfl
      | error fault => cases taken
    | refreshStatistics groups => rfl
  | _ => rfl

theorem count_steps (fresh : w.metrics = {}) {name : String} (audited : Audited name)
    (bounded : tally (Mark.raises name) (transcript ops w) < 2 ^ 64) :
    (((steps ops).run w).2.metrics.count name).toNat =
      tally (fun m => raised name m.trail) (transcript ops w) := by
  rw [toNat_count (narrates_steps ops w) fresh name bounded, (regroups_transcript ops w).tally_eq]
  exact tally_congr fun m _ => tally_own_raises audited m

/-- The counters of an index that starts afresh account for all that it has done, as long as 64
bits can hold them: for every rebuild, nested ones and those of tasks included, for every lookup
and every merge, for how rebuilds left the overlay and for what they changed; and once one of them
has committed, the gauges tell of the latest snapshot. -/
theorem accounted (ops : List Operation) (w : World) (fresh : w.metrics = {})
    (idle : w.running = false)
    (bounded : ∀ name, tally (Mark.raises name) (transcript ops w) < 2 ^ 64) :
    let after := ((steps ops).run w).2
    let count (name : String) : Nat := (after.metrics.count name).toNat
    let marks := transcript ops w
    let commits := marks.filterMap Mark.committed?
    after.running = false ∧
    count Name.rebuilds + count Name.failures + count Name.skipped = marks.countP Mark.rebuilds ∧
    count Name.lookups = marks.countP Mark.looks ∧
    count Name.cacheHits + count Name.overlayHits + count Name.lookupErrors ≤
      count Name.lookups ∧
    count Name.merges = marks.countP Mark.merges ∧
    count Name.purges + count Name.retained ≤ count Name.rebuilds ∧
    count Name.followUps = marks.countP Mark.enqueues ∧
    (w.Takes ops → count Name.followUps = count Name.retained) ∧
    count Name.rebuilds = commits.length ∧
    count Name.changedKeys = (commits.map (·.difference.changes.size)).sum ∧
    count Name.conflicts = (commits.map (·.reported.length)).sum ∧
    ((∀ m ∈ marks, ∀ report, m.committed? = some report → m.world.Durable report.snapshot) →
      commits ≠ [] → ∃ s, (after.store.read after.files true).1 = .ok s ∧
        after.metrics.gauge Name.snapshotKeys = .ofNat s.size ∧
        after.metrics.gauge Name.snapshotConflicts = .ofNat s.conflictCount) := by
  intro after count marks commits
  have total (name : String) (audited : Audited name) :
      count name = tally (fun m => raised name m.trail) marks :=
    count_steps fresh audited (bounded name)
  have sum {f g : Mark → Nat} (h : ∀ m, f m = g m) : tally f marks = tally g marks :=
    tally_congr fun m _ => h m
  refine ⟨?_, ?_, ?_, ?_, ?_, ?_, ?_, ?_, ?_, ?_, ?_, ?_⟩
  · exact (tells_transcript ops w idle).1
  · rw [total _ (by decide), total _ (by decide), total _ (by decide), tally_add, tally_add,
      ← tally_toNat]
    exact sum fun m => m.sheet.rebuilds
  · rw [total _ (by decide), ← tally_toNat]
    exact sum fun m => m.sheet.lookups
  · rw [total _ (by decide), total _ (by decide), total _ (by decide), total _ (by decide),
      tally_add, tally_add]
    exact tally_mono fun m _ => m.sheet.sources
  · rw [total _ (by decide), ← tally_toNat]
    exact sum fun m => m.sheet.merges
  · rw [total _ (by decide), total _ (by decide), total _ (by decide), tally_add]
    exact tally_mono fun m _ => m.sheet.overlay
  · rw [total _ (by decide), ← tally_toNat, (regroups_transcript ops w).tally_eq (·.enqueues.toNat)]
    exact sum fun m => m.sheet.followUps.trans (tally_own_enqueues m).symm
  · intro takes
    rw [total _ (by decide), total _ (by decide)]
    exact tally_congr fun m hm =>
      m.sheet.followUps.trans ((takes.enqueues hm).trans m.sheet.retained.symm)
  · rw [total _ (by decide), sum fun m => m.sheet.commits, tally_filterMap]
    rw [List.map_const', List.sum_replicate_nat, Nat.mul_one]
  · rw [total _ (by decide), sum fun m => m.sheet.changedKeys, tally_filterMap]
  · rw [total _ (by decide), sum fun m => m.sheet.conflicts, tally_filterMap]
  · intro durable committed
    obtain ⟨report, there⟩ := List.exists_mem_of_ne_nil _ committed
    obtain ⟨m, hm, commits⟩ := List.mem_filterMap.1 there
    obtain ⟨s, sound, keeps, gauges⟩ := (tells_transcript ops w idle).2 durable
      (.inr ⟨m, hm, commits ▸ rfl⟩)
    exact ⟨s, keeps.holds.read sound keeps.fits, gauges⟩

def tended : World where
  registry := [.fixed "core" 8 ["Main", "Help"] true,
    .scripted "wiki" 8 ["Main"] false true none [.rebuild none]]
  hooks := [(.after .storeRead,
    [.advance (.ofSeconds 1), .store (.fixed "late" 8 [] true) ["Late"]])]

def tending : List Operation :=
  [.rebuild none, .lookup 8 "Late", .lookup 8 "Late", .executeAll, .primary 8 "Main",
    .fail .storeWrite true, .rebuild none]

theorem accounted_tended :
    let after := ((steps tending).run tended).2
    let count (name : String) : Nat := (after.metrics.count name).toNat
    count Name.rebuilds = 2 ∧ count Name.failures + count Name.skipped = 4 ∧
      count Name.lookups = 3 ∧ count Name.merges = 1 ∧ count Name.followUps = 1 ∧
      count Name.retained = 1 ∧ count Name.changedKeys = 2 ∧ count Name.conflicts = 2 ∧
      ∃ s, (after.store.read after.files true).1 = .ok s ∧
        after.metrics.gauge Name.snapshotKeys = .ofNat s.size ∧
        after.metrics.gauge Name.snapshotConflicts = .ofNat s.conflictCount := by
  have small : tally Mark.weight (transcript tending tended) < 2 ^ 64 := by decide +kernel
  have takes : tended.Takes tending := by
    unfold Takes
    decide +kernel
  have inMemory : ∀ m ∈ transcript tending tended, m.world.store.home.isLeft = true := by
    decide +kernel
  obtain ⟨-, requests, lookups, -, merges, -, followUps, retained, commits, changed, conflicts,
    gauges⟩ := accounted tending tended rfl rfl fun name =>
      Nat.lt_of_le_of_lt (tally_mono fun m _ => m.raises_le name) small
  have twice : ((transcript tending tended).filterMap Mark.committed?).length = 2 := by
    decide +kernel
  have once : (transcript tending tended).countP Mark.enqueues = 1 := by decide +kernel
  have asked : (transcript tending tended).countP Mark.rebuilds = 6 := by decide +kernel
  have rebuilds := commits.trans twice
  refine ⟨rebuilds, by omega, lookups.trans (by decide +kernel), merges.trans (by decide +kernel),
    followUps.trans once, (retained takes).symm.trans (followUps.trans once),
    changed.trans (by decide +kernel), conflicts.trans (by decide +kernel), gauges ?_ ?_⟩
  · intro m hm report _
    have home := inMemory m hm
    constructor
    · intro path lock there
      rw [there] at home
      cases home
    · intro path there
      rw [there] at home
      cases home
  · intro none
    rw [none] at twice
    cases twice

end World

end ClaimIndex
