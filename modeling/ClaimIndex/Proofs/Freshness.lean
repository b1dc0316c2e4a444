import ClaimIndex.Proofs.Racing

namespace ClaimIndex

open World (Motion Moves idle reply)
open Overlay (slot)

namespace World

variable {w : World} {e : Effect} {t : Snapshot}

theorem replicates_reply (he : e.Looking ∨ Rebuild.Aside e ∨ e = .leave)
    (h : w.store.Replicates t) : ((reply idle e).run w).2.store.Replicates t := by
  cases e with
  | readKey k =>
    change (w.store.get w.files k).2.Replicates t
    rw [h.get]
    exact h
  | enqueue task =>
    obtain ⟨tasks, left⟩ := exists_tasks idle task w
    rw [left]
    exact h
  | readStore | writeStore | perform =>
    simp [Effect.Looking, Rebuild.Aside, Rebuild.Guarding] at he
  | _ => exact h

theorem bare_reply (he : e.Looking ∨ Rebuild.Aside e ∨ e = .leave)
    (h : w.slots[slot]? = none) : ((reply idle e).run w).2.slots[slot]? = none := by
  cases e with
  | readOverlay =>
    change (w.slots.get slot w.clock).2[slot]? = none
    rw [Overlay.Slots.get_none h]
    exact h
  | dropOverlay stamp =>
    change (w.slots.deleteIf slot stamp w.clock).2[slot]? = none
    unfold Overlay.Slots.deleteIf
    rw [h]
    exact h
  | enqueue task =>
    obtain ⟨tasks, left⟩ := exists_tasks idle task w
    rw [left]
    exact h
  | writeOverlay | perform =>
    simp [Effect.Looking, Rebuild.Aside, Rebuild.Guarding] at he
  | _ => exact h

theorem bare_of_empties {x : Exchange} {p : Proc (Except Fault Report)}
    (asks : p.exchange? w = some x) (empties : Rebuild.Empties x) :
    (p.advance w).2.slots[slot]? = none := by
  obtain rfl | ⟨stamp, rfl⟩ := empties
  · have read := Proc.run_of_exchange asks
    have left : ((reply idle .readOverlay).run w).2 = (p.advance w).2 := congrArg Prod.snd read
    rw [← left]
    exact Overlay.Slots.getElem?_get (Except.ok.inj (congrArg Prod.fst read))
  · have dropped := Proc.run_of_exchange asks
    have left : ((reply idle (.dropOverlay stamp)).run w).2 = (p.advance w).2 :=
      congrArg Prod.snd dropped
    rw [← left]
    exact Overlay.Slots.getElem?_deleteIf (Except.ok.inj (congrArg Prod.fst dropped))

end World

namespace Race

variable {r : Race} {t : Turn} {ts us : List Turn} {base : UInt64} {new : Snapshot}
  {trust : Nat → Prop} {G : Key → List GroupId → Prop}

def Still : Motion → Prop
  | .reply e => e.Looking ∨ Rebuild.Aside e ∨ e = .leave
  | .clock _ => True
  | _ => False

theorem permits_still : Permits Still where
  looks _ := .inl
  clears := .inr (.inl (.inl trivial))
  passes _ := trivial

theorem Still.replicates {m : Motion} (hm : Still m) {w : World}
    (h : w.store.Replicates new) : (m.apply w).store.Replicates new := by
  cases m with
  | reply e => exact World.replicates_reply hm h
  | clock now => exact h
  | _ => exact hm.elim

theorem Still.bare {m : Motion} (hm : Still m) {w : World} (h : w.slots[slot]? = none) :
    (m.apply w).slots[slot]? = none := by
  cases m with
  | reply e => exact World.bare_reply hm h
  | clock now => exact h
  | _ => exact hm.elim

/-- The groups that claim the key in the snapshot, or the one that a lookup has read from the
overlay since the cache was cleared last. -/
def Current (base : UInt64) (new : Snapshot) (r : Race) (k : Key) (ids : List GroupId) : Prop :=
  ids = new.idsOf k ∨ ∃ id, ids = [id] ∧ ⟨base + .ofNat r.clears, k, id⟩ ∈ r.glimpses

theorem Current.turn (same : (r.turn t).clears = r.clears) {k : Key} {ids : List GroupId}
    (h : r.Current base new k ids) : (r.turn t).Current base new k ids := by
  obtain rfl | ⟨id, rfl, glimpsed⟩ := h
  · exact .inl rfl
  · exact .inr ⟨id, rfl, same ▸ glimpses_turn glimpsed⟩

structure Published (base : UInt64) (new : Snapshot) (r : Race) : Prop where
  sound : r.Sound base (fun _ => False) (r.Current base new)
  replicates : r.world.store.Replicates new

theorem Published.turn (h : r.Published base new) (few : r.clears < 2 ^ 64)
    (still : ∀ x, r.exchange? t = some x → Still (.reply x.effect)) :
    (r.turn t).Published base new := by
  refine ⟨h.sound.turn few nofun (fun same k ids => Current.turn same) ?_ ?_ nofun nofun, ?_⟩
  · rintro i l g rfl racing glimpsed
    have generation : base + .ofNat (r.turn (.lookup i)).clears = g.generation := by
      rw [turn, clears_look, ← h.sound.generation, Racer.generation_of_glimpse glimpsed]
    refine .inr ⟨g.id, rfl, ?_⟩
    rw [generation, turn, look_some racing, glimpsed]
    exact List.mem_append_right _ (List.mem_singleton.2 rfl)
  · exact fun k found answer => .inl (h.replicates.answer answer)
  · exact (moves_turn permits_still still).keeps (I := fun w => w.store.Replicates new)
      (fun m w hm held => hm.replicates held) h.replicates

theorem Published.run (h : r.Published base new) (few : (r.run ts).clears < 2 ^ 64)
    (still : ∀ x ∈ r.trace ts, Still (.reply x.effect)) : (r.run ts).Published base new :=
  keeps (E := fun e => Still (.reply e)) (fun _ _ few still h => h.turn few still) few still h

structure Settled (base : UInt64) (trust : Nat → Prop) (G : Key → List GroupId → Prop)
    (new : Snapshot) (r : Race) : Prop where
  sound : r.Sound base trust G
  replicates : r.world.store.Replicates new
  bare : r.world.slots[slot]? = none
  begun : ∀ i, trust i → i < r.lookups.length

theorem Settled.turn (h : r.Settled base trust G new) (known : ∀ k, G k (new.idsOf k))
    (few : r.clears < 2 ^ 64) (still : ∀ x, r.exchange? t = some x → Still (.reply x.effect)) :
    (r.turn t).Settled base trust G new := by
  have moved := moves_turn permits_still still
  refine ⟨h.sound.turn few (fun _ _ _ => id) (fun _ _ _ => id) ?_ ?_ ?_ h.begun, ?_, ?_, ?_⟩
  · intro i l g _ _ glimpsed
    rw [Racer.glimpse_bare h.bare] at glimpsed
    cases glimpsed
  · intro k found answer
    rw [h.replicates.answer answer]
    exact known k
  · exact fun _ k => ⟨_, congrArg Prod.fst (h.replicates.get k)⟩
  · exact moved.keeps (I := fun w => w.store.Replicates new) (fun m w hm held => hm.replicates held)
      h.replicates
  · exact moved.keeps (I := fun w => w.slots[slot]? = none) (fun m w hm bare => hm.bare bare) h.bare
  · exact fun i trusted => Nat.lt_of_lt_of_le (h.begun i trusted) length_le_turn

theorem Settled.run (h : r.Settled base trust G new) (known : ∀ k, G k (new.idsOf k))
    (few : (r.run ts).clears < 2 ^ 64) (still : ∀ x ∈ r.trace ts, Still (.reply x.effect)) :
    (r.run ts).Settled base trust G new :=
  keeps (E := fun e => Still (.reply e)) (fun _ _ few still h => h.turn known few still) few still h

theorem sound_run (h : r.Sound base (fun _ => False) fun _ _ => True)
    (few : (r.run ts).clears < 2 ^ 64) :
    (r.run ts).Sound base (fun _ => False) fun _ _ => True :=
  keeps (E := fun _ => True) (fun _ _ few _ h => h.turn few nofun (fun _ _ _ _ => trivial)
    (fun _ _ _ _ _ _ => trivial) (fun _ _ _ => trivial) nofun nofun) few (fun _ _ => trivial) h

theorem permits_tame : Permits Motion.Tame where
  looks _ he := he.calm.tame
  clears := trivial
  passes _ := trivial

variable {opening drafting closing back : List Exchange} {old : Snapshot}

theorem replicates_of_trace (current : r.world.store.lags = false)
    (tame : ∀ x ∈ opening ++ drafting, x.effect.Tame)
    (order : r.trace ts = opening ++ ⟨.readStore true, .ok old⟩ ::
      (drafting ++ ⟨.writeStore new (old.changes new), .ok ()⟩ :: back)) :
    ∃ before after, ts = before ++ after ∧ (r.run before).world.store.Replicates new ∧
      (r.run before).trace after = back := by
  obtain ⟨before, after, rfl, opens, reads, order⟩ := split_trace order
  obtain ⟨amid, after, rfl, drafts, writes, order⟩ := split_trace order
  have opened : Moves Motion.Tame r.world (r.run before).world :=
    moves_run permits_tame fun x hx => tame x (List.mem_append_left _ (opens ▸ hx))
  have read := Proc.run_of_exchange reads
  have drafted : Moves Motion.Tame (r.run before).world
      (((r.run before).turn .rebuild).run amid).world := by
    refine (moves_turn permits_tame fun x hx => ?_).trans
      (moves_run permits_tame fun x hx => tame x (List.mem_append_right _ (drafts ▸ hx)))
    cases reads.symm.trans hx
    trivial
  have latest : ∀ primary,
      (((r.run before).turn .rebuild).run amid).world.store.home = .inl primary →
        primary = old := by
    intro primary home
    rw [drafted.home] at home
    exact Except.ok.inj ((Store.read_of_home home).symm.trans (congrArg Prod.fst read))
  have lag : (((r.run before).turn .rebuild).run amid).world.store.lags = false :=
    ((opened.trans drafted).same (f := fun w => w.store.lags) fun m w hm =>
      World.lags_apply hm w).trans current
  have reached : r.run (before ++ .rebuild :: (amid ++ [.rebuild])) =
      (((r.run before).turn .rebuild).run amid).turn .rebuild := run_append.trans run_append
  refine ⟨before ++ .rebuild :: (amid ++ [.rebuild]), after, by simp, ?_, ?_⟩
  · rw [reached]
    exact World.replicates_written lag latest (Proc.run_of_exchange writes)
  · rw [reached]
    exact order

theorem published_of_trace (h : r.Sound base (fun _ => False) fun _ _ => True)
    (held : r.world.store.Replicates new) (few : (r.run ts).clears < 2 ^ 64)
    (still : ∀ x ∈ closing, Rebuild.Guarding x.effect)
    (order : r.trace ts = closing ++ ⟨.clearCache, ()⟩ :: back) :
    ∃ before after, ts = before ++ after ∧ (r.run before).Published base new ∧
      (r.run before).trace after = back := by
  obtain ⟨before, after, rfl, closes, clears, order⟩ := split_trace order
  have reached : r.run (before ++ [.rebuild]) = (r.run before).turn .rebuild := run_append
  have fewer : (r.run before).clears < 2 ^ 64 := by
    rw [run_append] at few
    exact Nat.lt_of_le_of_lt clears_le_run few
  have moved : Moves Still r.world ((r.run before).turn .rebuild).world := by
    refine (moves_run permits_still fun x hx => ?_).trans (moves_turn permits_still fun x hx => ?_)
    · exact .inr (.inl (.inl (still x (closes ▸ hx))))
    · cases clears.symm.trans hx
      exact permits_still.clears
  refine ⟨before ++ [.rebuild], after, by simp, ?_, ?_⟩
  · rw [reached]
    refine ⟨(sound_run h fewer).rebuild nofun fun same => ?_, ?_⟩
    · have once := clears_of_exchange clears
      omega
    · exact moved.keeps (I := fun w => w.store.Replicates new)
        (fun m w hm held => hm.replicates held) held
  · rw [reached]
    exact order

theorem Published.swept (h : r.Published base new) (few : (r.run ts).clears < 2 ^ 64)
    (sweeps : Rebuild.Sweeps (r.trace ts)) :
    (r.run ts).Published base new ∧ (r.run ts).world.slots[slot]? = none := by
  refine ⟨h.run few fun x hx => .inr (sweeps.aside x hx), ?_⟩
  obtain ⟨order, -, empties, ends⟩ := sweeps
  obtain ⟨before, after, rfl, -, asks, rest⟩ := split_trace order
  have bare : ((r.run before).turn .rebuild).world.slots[slot]? = none :=
    World.bare_of_empties asks empties
  have moved : Moves Still ((r.run before).turn .rebuild).world
      (((r.run before).turn .rebuild).run after).world :=
    moves_run permits_still fun x hx => .inr ((ends x (rest ▸ hx)).imp Rebuild.Telling.aside id)
  rw [run_append]
  exact moved.keeps (I := fun w => w.slots[slot]? = none) (fun m w hm bare => hm.bare bare) bare

theorem published_of_result {w : World} {purge : Option Instant} {report : Report}
    {outcome : Overlay.Outcome} (current : w.store.lags = false)
    (returned : ((start w purge).run ts).rebuild.result? = some (.ok report))
    (looked : report.overlay = some outcome) (kept : ∀ stamp, outcome ≠ .retained stamp)
    (few : ((start w purge).run ts).clears < 2 ^ 64) :
    ((start w purge).run ts).Published w.cache.generation report.snapshot ∧
      ((start w purge).run ts).world.slots[slot]? = none := by
  obtain ⟨order, tame, closes, sweeps⟩ := Rebuild.cleans_start looked kept (leads_trace returned)
  have sound : (start w purge).Sound w.cache.generation (fun _ => False) fun _ _ => True :=
    ⟨(UInt64.add_zero _).symm, fun _ _ => trivial, nofun⟩
  obtain ⟨writing, ts, rfl, held, order⟩ := replicates_of_trace current tame order
  rw [run_append] at few ⊢
  have written := sound_run sound (Nat.lt_of_le_of_lt clears_le_run few)
  obtain ⟨clearing, ts, rfl, published, order⟩ :=
    published_of_trace written held few closes order
  rw [run_append] at few ⊢
  exact published.swept few (order ▸ sweeps)

theorem Settled.begin {space : Namespace} {raw : String}
    (h : r.Settled base (fun _ => False) G new)
    (accepted : r.world.settings.accepts space = true) :
    (r.turn (.begins space raw)).Settled base (· = r.lookups.length) G new := by
  refine ⟨h.sound.trusting.enter ?_, h.replicates, h.bare, ?_⟩
  · change Stage _ _ _ _ _ (Lookup.groups _ _ _)
    rw [Lookup.groups, if_pos accepted]
    exact .begun
  · rintro i rfl
    exact List.length_append ▸ Nat.lt_succ_self _

/-- Lookups that begin after the return of a rebuild that left nothing in the overlay answer from
the published snapshot.  The only other answer is one that was cached meanwhile: the group that
an earlier lookup of the key read from the overlay, after the rebuild had cleared the cache for the
last time and before it dropped the entry. -/
theorem answers_published (w : World) (purge : Option Instant) (ts before after : List Turn)
    (space : Namespace) (raw : String) (report : Report)
    (current : w.store.lags = false)
    (returned : ((start w purge).run ts).report? = some report)
    (outcome : report.overlay = some .empty ∨ ∃ keys, report.overlay = some (.purged keys))
    (few : ((start w purge).run (ts ++ before ++ .begins space raw :: after)).clears < 2 ^ 64)
    (accepted : w.settings.accepts space = true) :
    let past := (start w purge).run ts
    let i := (past.run before).lookups.length
    let r := (start w purge).run (ts ++ before ++ .begins space raw :: after)
    let k := Key.ofRaw space raw
    (r.world.store.read r.world.files false).1 = .ok report.snapshot ∧
      (7 ≤ after.count (.lookup i) → ∃ ids, r.answer? i = some ids) ∧
      ∀ ids, r.answer? i = some ids → ids = report.snapshot.idsOf k ∨
        ∃ id, ids = [id] ∧ ⟨past.world.cache.generation, k, id⟩ ∈ past.glimpses := by
  intro past i r k
  have returned := result_of_report returned
  have turns : r = ((past.run before).turn (.begins space raw)).run after :=
    run_append.trans (congrArg (run · _) run_append)
  change r.clears < 2 ^ 64 at few
  have waiting : (past.run before).clears < 2 ^ 64 := by
    rw [turns] at few
    exact Nat.lt_of_le_of_lt (Nat.le_trans clears_le_turn clears_le_run) few
  obtain ⟨published, bare⟩ : past.Published w.cache.generation report.snapshot ∧
      past.world.slots[slot]? = none := by
    have fewer := Nat.lt_of_le_of_lt clears_le_run waiting
    obtain empty | ⟨keys, purged⟩ := outcome
    · exact published_of_result current returned empty nofun fewer
    · exact published_of_result current returned purged nofun fewer
  let G (k : Key) (ids : List GroupId) : Prop := ids = report.snapshot.idsOf k ∨
    ∃ id, ids = [id] ∧ ⟨past.world.cache.generation, k, id⟩ ∈ past.glimpses
  have known (k : Key) : G k (report.snapshot.idsOf k) := .inl rfl
  have settled : past.Settled w.cache.generation (fun _ => False) G report.snapshot := by
    refine ⟨published.sound.wider fun k ids told => ?_, published.replicates, bare, nofun⟩
    unfold Current at told
    rwa [← published.sound.generation] at told
  -- the rebuild is done, so that only lookups make requests from here on
  have waited := settled.run known waiting (by rw [(trace_done returned).1]; nofun)
  have accepted' : (past.run before).world.settings.accepts space = true := by
    rw [settings_run, settings_run]
    exact accepted
  have done : ((past.run before).turn (.begins space raw)).rebuild.result? = some (.ok report) :=
    (trace_done returned).2
  have ended : r.Settled w.cache.generation (· = i) G report.snapshot := by
    rw [turns] at few ⊢
    exact (waited.begin accepted').run known few (by rw [(trace_done done).1]; nofun)
  obtain ⟨l, there, key, ends⟩ : ∃ l, r.lookups[i]? = some l ∧ l.key = k ∧
      l.left.Ends (7 - after.count (.lookup i)) := by
    rw [turns]
    exact ends_run (l := .ofRaw (past.run before).world.settings space raw)
      List.getElem?_concat_length (Lookup.ends_groups _ space raw)
  have answer : r.answer? i = l.left.result? := by
    unfold answer?
    rw [there]
    rfl
  rw [answer]
  refine ⟨ended.replicates.serves _, fun enough => ?_, fun ids answered => ?_⟩
  · rw [Nat.sub_eq_zero_of_le enough] at ends
    exact ends.result
  · rw [← key]
    exact (ended.sound.stages i l there).result rfl answered

def doubled : World :=
  { World.written {} (World.merged {} "late" 8 ["Late"]) with
    registry := [.fixed "early" 8 ["Late"] true, .fixed "late" 8 ["Late"] true] }

def ahead : List Turn :=
  .begins 8 "Late" :: List.replicate 3 (.lookup 0) ++ List.replicate 22 .rebuild ++
    List.replicate 2 (.lookup 0)

theorem answers_published_ahead :
    let r := (start doubled none).run
      (ahead ++ [.pass .zero] ++ .begins 8 "Late" :: List.replicate 7 (.lookup 1))
    r.answer? 0 = some ["late"] ∧ r.answer? 1 = some ["early", "late"] := by
  intro r
  have done : ((start doubled none).run ahead).report?.isSome = true := by decide +kernel
  obtain ⟨report, returned⟩ := Option.isSome_iff_exists.1 done
  have outcome : ((start doubled none).run ahead).report?.map (·.overlay) =
      some (some (.purged 1)) := by decide +kernel
  have ids : ((start doubled none).run ahead).report?.map
      (·.snapshot.idsOf (.ofRaw 8 "Late")) = some ["early", "late"] := by decide +kernel
  rw [returned] at outcome ids
  obtain ⟨-, answers, told⟩ := answers_published doubled none ahead [.pass .zero]
    (List.replicate 7 (.lookup 1)) 8 "Late" report rfl returned
    (.inr ⟨1, Option.some.inj outcome⟩) (by decide +kernel) (by decide +kernel)
  refine ⟨by decide +kernel, ?_⟩
  obtain ⟨answer, answered⟩ := answers (by decide +kernel)
  refine answered.trans (congrArg some ?_)
  obtain same | ⟨id, -, glimpsed⟩ := told answer answered
  · exact same.trans (Option.some.inj ids)
  · -- what was read from the overlay was read two clears ago
    have old : ∀ g ∈ ((start doubled none).run ahead).glimpses,
        g.generation ≠ ((start doubled none).run ahead).world.cache.generation := by decide +kernel
    have older := old _ glimpsed
    dsimp only at older
    exact absurd rfl older

def amid : List Turn :=
  List.replicate 14 .rebuild ++ .begins 8 "Late" :: List.replicate 5 (.lookup 0) ++
    List.replicate 8 .rebuild

/-- What is cached then is answered when the rebuild has returned, though the snapshot says
otherwise. -/
theorem not_answers_snapshot_amid : ¬ ∀ (w : World) (purge : Option Instant)
    (ts before after : List Turn) (space : Namespace) (raw : String) (report : Report),
    w.store.lags = false → ((start w purge).run ts).report? = some report →
    (report.overlay = some .empty ∨ ∃ keys, report.overlay = some (.purged keys)) →
    ((start w purge).run (ts ++ before ++ .begins space raw :: after)).clears < 2 ^ 64 →
    w.settings.accepts space = true →
    ∀ ids, ((start w purge).run (ts ++ before ++ .begins space raw :: after)).answer?
        (((start w purge).run ts).run before).lookups.length = some ids →
      ids = report.snapshot.idsOf (.ofRaw space raw) := by
  intro always
  have done : ((start doubled none).run amid).report?.isSome = true := by decide +kernel
  obtain ⟨report, returned⟩ := Option.isSome_iff_exists.1 done
  have outcome : ((start doubled none).run amid).report?.map (·.overlay) =
      some (some (.purged 1)) := by decide +kernel
  have ids : ((start doubled none).run amid).report?.map
      (·.snapshot.idsOf (.ofRaw 8 "Late")) = some ["early", "late"] := by decide +kernel
  rw [returned] at outcome ids
  have same := always doubled none amid [] (List.replicate 2 (.lookup 1)) 8 "Late" report rfl
    returned (.inr ⟨1, Option.some.inj outcome⟩) (by decide +kernel) (by decide +kernel) ["late"]
    (by decide +kernel)
  have short := congrArg List.length (same.trans (Option.some.inj ids))
  exact absurd short (by decide)

end Race

end ClaimIndex
