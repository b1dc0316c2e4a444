import ClaimIndex.Proofs.Requests

namespace ClaimIndex.Rebuild

open Proc (ask Yields yields_bind yields_ask yields_pure mem_calls_bind)

variable {σ : Type} {h : Handler σ} {s : Settings} {purge : Option Instant} {w v : σ}
  {bound stamp : Instant} {commit : Commit} {asked taken left : Nat}

def UpTo (bound : Instant) (e : Effect) : Prop := ∀ stamp, e = .dropOverlay stamp → stamp ≤ bound

theorem Telling.upTo {e : Effect} (he : Telling e) : UpTo bound e := by
  rintro stamp rfl
  obtain he | ⟨task, he⟩ := he
  · exact he.elim
  · cases he

theorem Sweeping.upTo {e : Effect} (he : Sweeping bound e) : UpTo bound e := by
  rintro stamp rfl
  exact he

theorem upTo_settle : (settle s commit bound asked taken left).Within (UpTo bound) := by
  have told {α : Type} {p : Proc α} (hp : p.Within Telling) : p.Within (UpTo bound) :=
    hp.mono fun _ => Telling.upTo
  rw [settle, afterCommit_eq, reconcile_eq]
  refine .bind (.bind (told (within_touch.mono fun _ => .inl)) fun _ => ?_) fun _ => ?_
  · refine .bind (.bind ((sweeping_overlay_reconcile bound rounds).mono fun _ => Sweeping.upTo)
      fun found => told (within_respond found)) fun _ => ?_
    exact .bind (told (within_announce _)) fun _ => .pure
  · exact .bind (.ask fun _ same => by cases same) fun _ =>
      .bind (.ask fun _ same => by cases same) fun _ => .pure

inductive Publishes (h : Handler σ) (s : Settings) (w : σ) (commit : Commit)
    (asked taken left : Nat) (begun : Instant) (released : σ) : Prop
  | intro {entered locked published : σ} (enter : (h .enter).run w = (true, entered))
    (lock : (lock s).Yields h entered (.ok (asked, taken, begun)) locked)
    (publish : publish.run.Yields h locked (.ok commit) published)
    (unlock : unlock.Yields h published left released)

theorem Publishes.commits {begun : Instant} {released : σ}
    (published : Publishes h s w commit asked taken left begun released) :
    ∃ report v, (start s purge).Yields h w (.ok report) v ∧ report.skipped = false ∧
      report.purge = some (purge.getD begun) := by
  obtain ⟨enter, lock, publish, unlock⟩ := published
  rename_i entered locked published
  let settled := ((settle s commit (purge.getD begun) asked taken left).run h).run released
  obtain ⟨outcome, reported⟩ := report_of_settle
    (show Yields h (settle s commit (purge.getD begun) asked taken left) released settled.1
      settled.2 from rfl)
  have ran : Yields h (run s purge) entered (.ok settled.1) settled.2 := by
    rw [run_eq]
    exact yields_bind.2 ⟨_, _, lock, yields_bind.2 ⟨_, _, publish, yields_bind.2
      ⟨_, _, unlock, yields_bind.2 ⟨_, _, rfl, rfl⟩⟩⟩⟩
  refine ⟨settled.1, ((h .leave).run settled.2).2, ?_, congrArg Report.skipped reported,
    congrArg Report.purge reported⟩
  rw [start_eq]
  exact yields_bind.2 ⟨true, entered, yields_ask.2 enter, yields_bind.2 ⟨_, _,
    yields_bind.2 ⟨_, _, ran, rfl⟩, yields_bind.2 ⟨(), _, yields_ask.2 rfl, rfl⟩⟩⟩

theorem Publishes.infix_calls {begun : Instant} {released : σ}
    (published : Publishes h s w commit asked taken left begun released) :
    (settle s commit (purge.getD begun) asked taken left).calls h released <:+:
      (start s purge).calls h w := by
  obtain ⟨enter, lock, publish, unlock⟩ := published
  rw [start_eq]
  refine .trans ?_ (yields_ask.2 enter).infix_calls
  rw [if_pos rfl, attempt, run_eq]
  refine .trans ?_ ((Proc.infix_calls _ _).trans (Proc.infix_calls _ _))
  refine .trans ?_ lock.infix_calls
  refine .trans ?_ publish.infix_calls
  refine .trans ?_ unlock.infix_calls
  exact Proc.infix_calls _ _

theorem published_of_commit {report : Report} (hy : (start s purge).Yields h w (.ok report) v)
    (unskipped : report.skipped = false) :
    ∃ commit asked taken left begun released settled,
      Publishes h s w commit asked taken left begun released ∧
      (settle s commit (purge.getD begun) asked taken left).Yields h released report settled := by
  obtain ⟨enter, -, lock, publish, unlock, settle, -⟩ := course_of_yields hy unskipped
  rename_i released settled asked taken left begun commit
  exact ⟨commit, asked, taken, left, begun, released, settled, ⟨enter, lock, publish, unlock⟩,
    settle⟩

theorem now_of_lock {begun : Instant} (hy : Yields h (lock s) w (.ok (asked, taken, begun)) v) :
    ∃ u, (.now, u) ∈ (lock s).calls h w ∧ ((h .now).run u).1 = begun := by
  obtain ⟨waiting, got, entered, dated, -, -, -, hbegun, -, whole⟩ := yields_taken hy
  exact ⟨entered, by simp [whole], congrArg Prod.fst hbegun⟩

theorem published_of_calls {e : Effect} {u : σ} (hc : (e, u) ∈ (start s purge).calls h w)
    (late : ¬ Guarding e) (later : ¬ Drafting e) (bounds : e ≠ .enter ∧ e ≠ .leave)
    (unwritten : ∀ s c, e ≠ .writeStore s c) :
    ∃ commit asked taken left begun released,
      Publishes h s w commit asked taken left begun released ∧
      (e, u) ∈ (settle s commit (purge.getD begun) asked taken left).calls h released := by
  have early {α : Type} {p : Proc α} (hp : p.Within Guarding) {x : σ} : (e, u) ∉ p.calls h x :=
    fun hc => late (hp.calls hc)
  rw [start_eq] at hc
  obtain hc | ⟨began, entered, enter, hc⟩ := mem_calls_bind.1 hc
  · cases List.mem_singleton.1 (show (e, u) ∈ [((.enter : Effect), w)] from hc)
    exact absurd rfl bounds.1
  cases began with
  | false =>
    have skipping : (do
        ask (.report .nestedRebuild)
        ask (.record .skipped)
        return .ok { skipped := true } : Proc (Except Fault Report)).Within Guarding :=
      .bind (.ask trivial) fun _ => .bind (.ask trivial) fun _ => .pure
    exact absurd hc (early skipping)
  | true =>
    rw [if_pos rfl] at hc
    obtain hc | ⟨result, _, _, hc⟩ := mem_calls_bind.1 hc
    swap
    · cases List.mem_singleton.1 (show (e, u) ∈ [((.leave : Effect), _)] from hc)
      exact absurd rfl bounds.2
    obtain hc | ⟨result, _, _, hc⟩ := mem_calls_bind.1 hc
    swap
    · exact absurd hc (early (within_conclude result))
    rw [run_eq] at hc
    obtain hc | ⟨times, locked, lock, hc⟩ := mem_calls_bind.1 hc
    · exact absurd hc (early within_lock)
    obtain fault | ⟨asked, taken, begun⟩ := times
    · exact (List.not_mem_nil hc).elim
    obtain hc | ⟨written, published, publish, hc⟩ := mem_calls_bind.1 hc
    · obtain drafts | ⟨s, c, writes⟩ := requests_publish.calls hc
      · exact absurd drafts later
      · exact absurd writes (unwritten s c)
    cases written with
    | error fault =>
      obtain hc | ⟨_, _, _, hc⟩ := mem_calls_bind.1 hc
      · exact absurd hc (early within_abandon)
      · exact (List.not_mem_nil hc).elim
    | ok commit =>
      obtain hc | ⟨left, released, unlock, hc⟩ := mem_calls_bind.1 hc
      · exact absurd hc (early within_unlock)
      obtain hc | ⟨_, _, _, hc⟩ := mem_calls_bind.1 hc
      · exact ⟨commit, asked, taken, left, begun, released,
          ⟨yields_ask.1 enter, lock, publish, unlock⟩, hc⟩
      · exact (List.not_mem_nil hc).elim

theorem Publishes.began (purge : Option Instant) {begun : Instant} {released : σ}
    (published : Publishes h s w commit asked taken left begun released) :
    ∃ u, (.now, u) ∈ (start s purge).calls h w ∧ ((h .now).run u).1 = begun := by
  obtain ⟨enter, lock, -, -⟩ := published
  obtain ⟨u, hnow, clock⟩ := now_of_lock lock
  refine ⟨u, ?_, clock⟩
  rw [start_eq]
  refine mem_calls_bind.2 (.inr ⟨true, _, yields_ask.2 enter, ?_⟩)
  rw [if_pos rfl, attempt, run_eq]
  exact mem_calls_bind.2 (.inl (mem_calls_bind.2 (.inl (mem_calls_bind.2 (.inl hnow)))))

end ClaimIndex.Rebuild

namespace ClaimIndex.Operation

open World (handle play)

variable {n : Nat} {op : Operation} {v u : World} {stamp : Instant}

/-- The operation is a rebuild that commits.  It purges up to the point that it was given, or else
up to its beginning. -/
inductive Commits (n : Nat) (op : Operation) (v : World) (bound : Instant) : Prop
  | intro {purge : Option Instant} {report : Report} {v' : World}
    (rebuilds : op.rebuilds? = some purge)
    (ran : (Rebuild.start v.settings purge).Yields (handle (play n)) v (.ok report) v')
    (unskipped : report.skipped = false) (reported : report.purge = some bound)
    (effective : purge = some bound ∨
      purge = none ∧ ∃ u, (.now, u) ∈ op.calls n v ∧ u.clock = bound)

theorem calls_rebuild {purge : Option Instant} (rebuilds : op.rebuilds? = some purge) :
    op.calls n v = (Rebuild.start v.settings purge).calls (handle (play n)) v := by
  cases op with
  | rebuild purge | rebuildSnapshot purge =>
    cases rebuilds
    rw [calls_body rfl, Proc.calls_map]
  | execute task =>
    cases task with
    | rebuild purge =>
      cases rebuilds
      rw [calls_body rfl, Proc.calls_map, Task.execute, Proc.calls_bind]
      exact List.append_nil _
    | refreshStatistics groups => cases rebuilds
  | _ => cases rebuilds

theorem commits_of_published {purge : Option Instant} {commit : Rebuild.Commit}
    {asked taken left : Nat} {begun : Instant} {released : World}
    (rebuilds : op.rebuilds? = some purge)
    (published : Rebuild.Publishes (handle (play n)) v.settings v commit asked taken left begun
      released) : op.Commits n v (purge.getD begun) := by
  obtain ⟨report, v', ran, unskipped, reported⟩ := published.commits
  refine .intro rebuilds ran unskipped reported ?_
  cases purge with
  | some bound => exact .inl rfl
  | none =>
    obtain ⟨x, hnow, clock⟩ := published.began none
    exact .inr ⟨rfl, x, by rwa [calls_rebuild rebuilds], clock⟩

theorem exists_commits {purge : Option Instant} (rebuilds : op.rebuilds? = some purge)
    (committed : (((Rebuild.start v.settings purge).run (handle (play n))).run v).1.toOption.any
      (!·.skipped) = true) : ∃ bound, op.Commits n v bound := by
  cases ran : ((Rebuild.start v.settings purge).run (handle (play n))).run v with
  | mk result v' =>
    rw [ran] at committed
    cases result with
    | error fault => cases committed
    | ok report =>
      have unskipped : report.skipped = false := (Bool.not_eq_true' _).mp committed
      obtain ⟨commit, asked, taken, left, begun, released, settled, published, -⟩ :=
        Rebuild.published_of_commit ran unskipped
      exact ⟨_, commits_of_published rebuilds published⟩

theorem commits_of_drop (hc : (.dropOverlay stamp, u) ∈ op.calls n v) :
    ∃ bound, op.Commits n v bound ∧ stamp ≤ bound := by
  cases purpose_of_mem hc with
  | lookup sought asked => exact ((Lookup.within_ofKey _).calls asked).elim
  | merge merges asked => simpa [Effect.Adding] using (Overlay.adding_add _ _).calls asked
  | reads reads => exact reads.elim
  | rebuild rebuilds asked =>
    obtain ⟨commit, begunAt, taken, left, begun, released, published, dropping⟩ :=
      Rebuild.published_of_calls asked id id (by simp) (by simp)
    exact ⟨_, commits_of_published rebuilds published, Rebuild.upTo_settle.calls dropping _ rfl⟩

end ClaimIndex.Operation
