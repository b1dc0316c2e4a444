import ClaimIndex.Proofs.Paths
import ClaimIndex.Proofs.Publication
import ClaimIndex.Proofs.Steps

namespace ClaimIndex.Rebuild

open Proc (leads_pure leads_ask leads_bind leads_bind_ok)

variable {s : Settings} {purge : Option Instant} {bound : Instant} {commit : Commit}
  {asked taken left : Nat} {report : Report} {outcome : Overlay.Outcome} {trail : List Exchange}

theorem Drafting.tame {e : Effect} (he : Drafting e) : e.Tame := by
  cases e with
  | writeStore | leave => exact he
  | _ => trivial

def Empties (x : Exchange) : Prop :=
  x = ⟨.readOverlay, .ok none⟩ ∨ ∃ stamp, x = ⟨.dropOverlay stamp, .ok true⟩

theorem empties_of_reconcile {n : Nat} (kept : ∀ stamp, outcome ≠ .retained stamp)
    (looks : (Overlay.reconcile bound n).run.Leads trail (.ok (some outcome))) :
    ∃ front x, trail = front ++ [x] ∧ Empties x := by
  induction n generalizing trail with
  | zero => cases (leads_pure.1 looks).2
  | succ n ih =>
    obtain ⟨_, _, found, rfl, reads, rest⟩ := leads_bind_ok.1 looks
    obtain rfl := leads_ask.1 reads
    cases found with
    | none =>
      obtain ⟨rfl, -⟩ := leads_pure.1 rest
      exact ⟨[], _, rfl, .inl rfl⟩
    | some entry =>
      dsimp only at rest
      split at rest
      · obtain ⟨_, _, dropped, rfl, drops, again⟩ := leads_bind_ok.1 rest
        obtain rfl := leads_ask.1 drops
        cases dropped with
        | false =>
          -- the entry was not the one that was read: look again, with one round less
          obtain ⟨front, x, rfl, empties⟩ := ih again
          exact ⟨_ :: _ :: front, x, rfl, empties⟩
        | true =>
          obtain ⟨rfl, -⟩ := leads_pure.1 again
          exact ⟨[_], _, rfl, .inr ⟨_, rfl⟩⟩
      · cases (leads_pure.1 rest).2
        exact absurd rfl (kept _)

inductive Sweeps (trail : List Exchange) : Prop
  | intro {sweeping ending : List Exchange} {last : Exchange}
    (order : trail = sweeping ++ last :: ending)
    (sweeps : ∀ x ∈ sweeping, Aside x.effect)
    (empties : Empties last)
    (ends : ∀ x ∈ ending, Telling x.effect ∨ x.effect = .leave)

theorem Sweeps.aside (h : Sweeps trail) : ∀ x ∈ trail, Aside x.effect ∨ x.effect = .leave := by
  obtain ⟨rfl, sweeps, empties, ends⟩ := h
  intro x hx
  obtain hx | hx := List.mem_append.1 hx
  · exact .inl (sweeps x hx)
  obtain rfl | hx := List.mem_cons.1 hx
  · obtain rfl | ⟨stamp, rfl⟩ := empties
    · exact .inl (.inr (.inl rfl))
    · exact .inl (.inr (.inr (.inl ⟨stamp, rfl⟩)))
  · exact (ends x hx).imp Telling.aside id

theorem Sweeps.append {back : List Exchange} (h : Sweeps trail)
    (ends : ∀ x ∈ back, Telling x.effect ∨ x.effect = .leave) : Sweeps (trail ++ back) := by
  obtain ⟨rfl, sweeps, empties, ended⟩ := h
  refine .intro (by rw [List.append_assoc, List.cons_append]) sweeps empties fun x hx => ?_
  exact (List.mem_append.1 hx).elim (ended x) (ends x)

theorem sweeps_afterCommit {difference : Difference} (kept : ∀ stamp, outcome ≠ .retained stamp)
    (after : (afterCommit s difference bound).Leads trail (some outcome)) : Sweeps trail := by
  obtain ⟨touching, looking, responding, announcing, found, rfl, touches, looks, responds,
    announces⟩ := leads_afterCommit after
  have same := leads_respond responds
  cases found with
  | error fault => cases same
  | ok ends =>
    obtain rfl : some outcome = ends := same
    obtain ⟨front, x, rfl, empties⟩ := empties_of_reconcile kept looks
    have swept := (sweeping_overlay_reconcile bound rounds).leads looks
    have touched := within_touch.leads touches
    have sweeps : Sweeps (touching ++ (front ++ [x])) := by
      refine .intro (List.append_assoc ..).symm (fun y hy => ?_) empties nofun
      obtain hy | hy := List.mem_append.1 hy
      · exact .inl (touched y hy)
      · exact (swept y (List.mem_append_left _ hy)).hushed.1
    have told := (within_respond _).leads responds
    have announced := (within_announce _).leads announces
    have all := (sweeps.append fun y hy => .inl (told y hy)).append fun y hy =>
      .inl (announced y hy)
    simpa using all

theorem sweeps_settle (looked : report.overlay = some outcome)
    (kept : ∀ stamp, outcome ≠ .retained stamp)
    (settles : (settle s commit bound asked taken left).Leads trail report) :
    report.snapshot = commit.build.snapshot ∧ Sweeps trail := by
  obtain ⟨following, overlay, rfl, after, rfl⟩ := leads_settle settles
  obtain rfl : overlay = some outcome := looked
  refine ⟨rfl, (sweeps_afterCommit kept after).append fun x hx => .inl (.inl ?_)⟩
  obtain rfl | hx := List.mem_cons.1 hx
  · trivial
  · obtain rfl := List.mem_singleton.1 hx
    trivial

inductive Cleans (new : Snapshot) (trail : List Exchange) : Prop
  | intro {opening drafting closing sweeping : List Exchange} {old : Snapshot}
    (order : trail = opening ++ ⟨.readStore true, .ok old⟩ ::
      (drafting ++ ⟨.writeStore new (old.changes new), .ok ()⟩ ::
        (closing ++ ⟨.clearCache, ()⟩ :: sweeping)))
    (drafts : ∀ x ∈ opening ++ drafting, x.effect.Tame)
    (closes : ∀ x ∈ closing, Guarding x.effect)
    (sweeps : Sweeps sweeping)

theorem Cleans.cons {new : Snapshot} {x : Exchange} (h : Cleans new trail)
    (tame : x.effect.Tame) : Cleans new (x :: trail) := by
  obtain @⟨opening, drafting, closing, sweeping, old, rfl, drafts, closes, sweeps⟩ := h
  refine @Cleans.intro _ _ (x :: opening) drafting closing sweeping old rfl (fun y hy => ?_) closes
    sweeps
  obtain rfl | hy := List.mem_cons.1 hy
  · exact tame
  · exact drafts y hy

theorem Cleans.append {new : Snapshot} {x : Exchange} (h : Cleans new trail)
    (leaves : x.effect = .leave) : Cleans new (trail ++ [x]) := by
  obtain @⟨opening, drafting, closing, sweeping, old, rfl, drafts, closes, sweeps⟩ := h
  have ended : Sweeps (sweeping ++ [x]) := sweeps.append fun y hy =>
    .inr (List.mem_singleton.1 hy ▸ leaves)
  exact @Cleans.intro _ _ opening drafting closing (sweeping ++ [x]) old (by simp) drafts closes
    ended

theorem exists_closing {left : Nat} (unlocks : unlock.Leads trail left) :
    ∃ closing, trail = closing ++ [⟨.clearCache, ()⟩] ∧ ∀ x ∈ closing, Guarding x.effect := by
  have guarding := within_unlock.leads unlocks
  suffices ends : ∃ closing, trail = closing ++ [⟨.clearCache, ()⟩] by
    obtain ⟨closing, rfl⟩ := ends
    exact ⟨closing, rfl, fun x hx => guarding x (List.mem_append_left _ hx)⟩
  obtain ⟨front, _, released, rfl, -, rest⟩ := leads_bind.1 unlocks
  have clears {back : List Exchange} (h : (do
      let left ← Proc.ask .uptime
      Proc.ask .clearCache
      return left : Proc Nat).Leads back left) : ∃ y, back = [y, ⟨.clearCache, ()⟩] := by
    obtain ⟨_, _, _, rfl, measures, h⟩ := leads_bind.1 h
    obtain ⟨_, _, _, rfl, clears, h⟩ := leads_bind.1 h
    obtain ⟨rfl, -⟩ := leads_pure.1 h
    obtain rfl := leads_ask.1 measures
    obtain rfl := leads_ask.1 clears
    exact ⟨_, rfl⟩
  cases released with
  | error fault =>
    obtain ⟨first, _, _, rfl, -, rest⟩ := leads_bind.1 rest
    obtain ⟨second, _, _, rfl, -, rest⟩ := leads_bind.1 rest
    obtain ⟨y, rfl⟩ := clears rest
    exact ⟨front ++ (first ++ (second ++ [y])), by simp⟩
  | ok _ =>
    obtain ⟨y, rfl⟩ := clears rest
    exact ⟨front ++ [y], by simp⟩

theorem leads_publish (publishes : publish.run.Leads trail (.ok commit)) :
    ∃ old drafting, trail = ⟨.readStore true, .ok old⟩ :: (drafting ++
      [⟨.writeStore commit.build.snapshot (old.changes commit.build.snapshot), .ok ()⟩]) ∧
        ∀ x ∈ drafting, Drafting x.effect := by
  rw [publish_eq] at publishes
  obtain ⟨_, _, drafted, rfl, drafts, delivers⟩ := leads_bind_ok.1 publishes
  have drafting := within_draft.leads drafts
  obtain ⟨_, back, old, rfl, reads, rest⟩ := leads_bind_ok.1 drafts
  obtain ⟨_, _, _, rfl, -, builds⟩ := leads_bind_ok.1 rest
  obtain ⟨_, _, _, rfl, -, returns⟩ := leads_bind_ok.1 builds
  obtain ⟨rfl, same⟩ := leads_pure.1 returns
  obtain rfl := leads_ask.1 reads
  cases same
  obtain ⟨_, _, _, rfl, writes, returns⟩ := leads_bind_ok.1 delivers
  obtain ⟨rfl, same⟩ := leads_pure.1 returns
  cases same
  obtain rfl := leads_ask.1 writes
  exact ⟨old, _, rfl, fun x hx => drafting x (List.mem_cons_of_mem _ hx)⟩

theorem leads_attempt (attempts : (attempt s purge).Leads trail (.ok report)) :
    ∃ locking publishing unlocking settling asked taken begun commit left, trail =
        locking ++ (publishing ++ (unlocking ++ settling)) ∧
      (lock s).Leads locking (.ok (asked, taken, begun)) ∧
      publish.run.Leads publishing (.ok commit) ∧ unlock.Leads unlocking left ∧
      (settle s commit (purge.getD begun) asked taken left).Leads settling report := by
  obtain ⟨_, _, result, rfl, runs, concludes⟩ := leads_bind.1 attempts
  cases result with
  | error fault =>
    obtain ⟨_, _, _, -, -, returns⟩ := leads_bind.1 concludes
    cases (leads_pure.1 returns).2
  | ok result =>
    obtain ⟨rfl, same⟩ := leads_pure.1 concludes
    cases same
    rw [run_eq] at runs
    obtain ⟨locking, _, times, rfl, locks, proceeds⟩ := leads_bind.1 runs
    obtain fault | ⟨asked, taken, begun⟩ := times
    · cases (leads_pure.1 proceeds).2
    obtain ⟨publishing, _, published, rfl, publishes, rest⟩ := leads_bind.1 proceeds
    cases published with
    | error fault =>
      obtain ⟨_, _, _, -, -, returns⟩ := leads_bind.1 rest
      cases (leads_pure.1 returns).2
    | ok commit =>
      obtain ⟨unlocking, _, left, rfl, unlocks, rest⟩ := leads_bind.1 rest
      obtain ⟨settling, _, _, rfl, settles, returns⟩ := leads_bind.1 rest
      obtain ⟨rfl, same⟩ := leads_pure.1 returns
      cases same
      exact ⟨locking, publishing, unlocking, settling, asked, taken, begun, commit, left, by simp,
        locks, publishes, unlocks, settles⟩

theorem cleans_attempt (looked : report.overlay = some outcome)
    (kept : ∀ stamp, outcome ≠ .retained stamp)
    (attempts : (attempt s purge).Leads trail (.ok report)) : Cleans report.snapshot trail := by
  obtain ⟨locking, publishing, unlocking, settling, asked, taken, begun, commit, left, rfl, locks,
    publishes, unlocks, settles⟩ := leads_attempt attempts
  obtain ⟨same, sweeps⟩ := sweeps_settle looked kept settles
  obtain ⟨old, drafting, rfl, drafts⟩ := leads_publish publishes
  obtain ⟨closing, rfl, closes⟩ := exists_closing unlocks
  have locked := within_lock.leads locks
  refine @Cleans.intro _ _ locking drafting closing settling old (by rw [same]; simp)
    (fun x hx => ?_) closes sweeps
  obtain hx | hx := List.mem_append.1 hx
  · exact World.aside_tame (.inl (locked x hx))
  · exact (drafts x hx).tame

theorem cleans_start (looked : report.overlay = some outcome)
    (kept : ∀ stamp, outcome ≠ .retained stamp)
    (starts : (start s purge).Leads trail (.ok report)) : Cleans report.snapshot trail := by
  rw [start_eq] at starts
  obtain ⟨_, _, entered, rfl, enters, rest⟩ := leads_bind.1 starts
  obtain rfl := leads_ask.1 enters
  cases entered with
  | false =>
    obtain ⟨_, _, _, rfl, -, rest⟩ := leads_bind.1 rest
    obtain ⟨_, _, _, rfl, -, returns⟩ := leads_bind.1 rest
    cases (leads_pure.1 returns).2
    cases looked
  | true =>
    rw [if_pos rfl] at rest
    obtain ⟨_, _, result, rfl, attempts, rest⟩ := leads_bind.1 rest
    obtain ⟨_, _, _, rfl, leaves, returns⟩ := leads_bind.1 rest
    obtain ⟨rfl, rfl⟩ := leads_pure.1 returns
    obtain rfl := leads_ask.1 leaves
    exact ((cleans_attempt looked kept attempts).append rfl).cons trivial

end ClaimIndex.Rebuild
