import ClaimIndex.Proofs.Difference

namespace ClaimIndex

namespace MemoryStore

inductive Upkeep
  | write (s : Snapshot)
  | sync

def perform (m : MemoryStore) : Upkeep → MemoryStore
  | .write s => m.write s (m.primary.diff s).changes
  | .sync => m.sync

def run (m : MemoryStore) (steps : List Upkeep) : MemoryStore := steps.foldl perform m

variable {m : MemoryStore} {front steps back : List Upkeep} {s : Snapshot}

theorem run_append : m.run (front ++ back) = (m.run front).run back := List.foldl_append

theorem perform_write :
    m.perform (.write s) =
      { m with primary := s, replica := if m.lagged then m.replica else s } := by
  rw [perform, write]
  exact congrArg (fun p : Snapshot => MemoryStore.mk p (if m.lagged then m.replica else p) m.lagged)
    (apply_changes m.primary s)

theorem lagged_run : (m.run steps).lagged = m.lagged := by
  induction steps generalizing m with
  | nil => rfl
  | cons step steps ih => cases step <;> exact ih

theorem primary_run (unwritten : ∀ s, .write s ∉ steps) : (m.run steps).primary = m.primary := by
  induction steps generalizing m with
  | nil => rfl
  | cons step steps ih =>
    have rest := ih (m := m.perform step) fun s hs => unwritten s (.tail _ hs)
    cases step with
    | write s => exact (unwritten s (.head _)).elim
    | sync => exact rest

theorem replica_run (lagged : m.lagged = true) (unsynced : .sync ∉ steps) :
    (m.run steps).replica = m.replica := by
  induction steps generalizing m with
  | nil => rfl
  | cons step steps ih =>
    have rest := ih (m := m.perform step) (by cases step <;> exact lagged)
      fun hs => unsynced (.tail _ hs)
    cases step with
    | write s => exact rest.trans (by rw [perform_write, if_pos lagged])
    | sync => exact (unsynced (.head _)).elim

theorem level_run (lagged : m.lagged = false) (level : m.replica = m.primary) :
    (m.run steps).replica = (m.run steps).primary := by
  induction steps generalizing m with
  | nil => exact level
  | cons step steps ih =>
    refine ih (by cases step <;> exact lagged) ?_
    cases step with
    | write s => rw [perform_write, lagged, if_neg Bool.false_ne_true]
    | sync => rfl

/-- Writes publish the snapshot wholesale.  Written with any changes, a snapshot takes the place of
what is there if and only if they remove each key that it lacks, and its changes from what is there
always do.  So over any run from a seed the primary side is the snapshot that was written last;
and the replica is the primary side, or if it lags the primary side as it was when it was synced
last. -/
theorem writes_wholesale :
    (∀ (m : MemoryStore) s c,
      (m.write s c).primary = s ↔ ∀ k ∈ m.primary, k ∉ s → k ∈ c.removed) ∧
    (∀ (m : MemoryStore) s, (m.write s (m.primary.diff s).changes).primary = s) ∧
    ∀ (seed : Snapshot) (lagged : Bool),
      let start : MemoryStore := ⟨seed, seed, lagged⟩
      (∀ steps, (∀ s, .write s ∉ steps) → (start.run steps).primary = seed) ∧
      (∀ front s back, (∀ s', .write s' ∉ back) →
        (start.run (front ++ .write s :: back)).primary = s) ∧
      (lagged = false → ∀ steps, (start.run steps).replica = (start.run steps).primary) ∧
      (lagged = true →
        (∀ steps, .sync ∉ steps → (start.run steps).replica = seed) ∧
        ∀ front back, .sync ∉ back →
          (start.run (front ++ .sync :: back)).replica = (start.run front).primary) := by
  refine ⟨fun m s c => apply_eq_iff, fun m s => apply_changes m.primary s, fun seed lagged => ?_⟩
  intro start
  refine ⟨fun steps => primary_run, fun front s back unwritten => ?_, fun level steps => ?_,
    fun lag => ⟨fun steps => replica_run lag, fun front back unsynced => ?_⟩⟩
  · rw [run_append]
    have last := primary_run (m := (start.run front).perform (.write s)) unwritten
    exact last.trans (by rw [perform_write])
  · exact level_run level rfl
  · rw [run_append]
    exact replica_run (m := (start.run front).sync) (lagged_run.trans lag) unsynced

theorem writes_wholesale_returning :
    let m := (⟨.before, .before, true⟩ : MemoryStore).run
      [.write .after, .sync, .write .before]
    m.primary = .before ∧ m.replica = .after ∧ (m.write .after {}).primary ≠ .after := by
  intro m
  obtain ⟨covered, -, seeded⟩ := writes_wholesale
  obtain ⟨-, written, -, lags⟩ := seeded .before true
  have primary : m.primary = .before := written [.write .after, .sync] .before [] nofun
  have synced := (lags rfl).2 [.write .after] [.write .before] (by simp)
  have published := written [] .after [] nofun
  refine ⟨primary, synced.trans published, fun whole => ?_⟩
  have den := (covered _ _ _).1 whole ⟨"8:den"⟩
  rw [primary] at den
  exact absurd (den (by decide +kernel) (by decide +kernel)) (by decide +kernel)

end MemoryStore

end ClaimIndex
