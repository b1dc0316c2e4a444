import ClaimIndex.Proofs.Course
import ClaimIndex.Proofs.Undisturbed
import Mathlib.Algebra.Ring.Nat

namespace ClaimIndex

def Effect.Inner : Effect → Prop
  | enter | leave => False
  | _ => True

def Effect.written {σ : Type} : Effect → σ → List Snapshot
  | writeStore s _, _ => [s]
  | _, _ => []

namespace Rebuild

open Proc (ask)

theorem Aside.inner {e : Effect} (he : Aside e) : e.Inner := by
  cases e with
  | enter | leave => simp [Aside, Guarding] at he
  | _ => trivial

def Drafting : Effect → Prop
  | .readStore _ | .groups | .perform .. | .report _ => True
  | _ => False

theorem within_draft : draft.run.Within Drafting := by
  refine Proc.within_bindAttempt (.ask (E := Drafting) trivial) fun old => ?_
  refine Proc.within_bindAttempt (.map _ (.ask trivial)) fun groups => ?_
  have building : (Build.ofGroups groups).run.Within (Build.Listing fun _ => True) :=
    Build.within_ofGroups fun _ _ _ _ => trivial
  refine Proc.within_bindAttempt (building.mono fun e he => ?_) fun build => .pure
  cases e with
  | perform | report => trivial
  | _ => exact he.elim

theorem within_publish : publish.run.Within Effect.Inner := by
  rw [publish_eq]
  refine Proc.within_bindAttempt (within_draft.mono fun e he => ?_) fun drafted =>
    Proc.within_bindAttempt (.ask (E := Effect.Inner) trivial) fun _ => .pure
  cases e with
  | enter | leave => exact he
  | _ => trivial

theorem within_attempt (s : Settings) (purge : Option Instant) :
    (attempt s purge).Within Effect.Inner := by
  have guarding {α : Type} {p : Proc α} (hp : p.Within Guarding) : p.Within Effect.Inner :=
    hp.mono fun _ he => Aside.inner (.inl he)
  rw [attempt, run_eq]
  refine .bind (.bind (guarding within_lock) fun times => ?_) fun _ => guarding (within_conclude _)
  cases times with
  | error fault => exact .pure
  | ok times =>
    refine .bind within_publish fun published => ?_
    cases published with
    | error fault => exact .bind (guarding within_abandon) fun _ => .pure
    | ok commit =>
      exact .bind (guarding within_unlock) fun _ =>
        .bind (within_settle.mono fun _ => Aside.inner) fun _ => .pure

end Rebuild

namespace World

variable {w : World} {I : World → Prop} {s : Settings} {purge : Option Instant}

theorem keeps_start (inner : ∀ m w, Motion.Staying m → I w → I (m.apply w))
    (bounds : ∀ w running, I w → I { w with running }) (hw : I w) :
    I (((Rebuild.start s purge).run (handle (play depth))).run w).2 := by
  cases running : w.running with
  | true =>
    rw [start_running _ running]
    exact inner (.reply (.record .skipped)) _ nofun
      (inner (.reply (.report .nestedRebuild)) _ nofun hw)
  | false =>
    have staying : (play depth).Makes Motion.Staying := fun label operations w hw =>
      (ordinary_play depth label operations w hw).mono fun _ hm => hm.tame.staying
    have moved := (inert_handle Motion.kind_staying staying).run
      ((Rebuild.within_attempt s purge).mono fun e he => show Motion.Staying (.reply e) by
        rintro rfl
        exact he) (w := { w with running := true }) rfl
    rw [start_idle _ running]
    exact bounds _ false (moved.keeps inner (bounds _ true hw))

theorem settings_execute (t : Task) :
    (((t.execute s).run (handle (play depth))).run w).2.settings = w.settings := by
  cases t with
  | rebuild purge =>
    rw [Task.execute, Proc.run_bind]
    exact keeps_start (I := fun v => v.settings = w.settings) (s := s)
      (fun m v _ same => (motion_frame m v).1.trans same) (fun _ _ same => same) rfl
  | refreshStatistics groups => rfl

theorem running_apply {m : Motion} (hm : m.Ordinary) (w : World) :
    (m.apply w).running = w.running := by
  cases m with
  | reply e =>
    cases e with
    | enter | leave => simp [Motion.Ordinary, Effect.Merging, Effect.Calm] at hm
    | enqueue task =>
      obtain ⟨tasks, e⟩ := exists_tasks idle task w
      rw [Motion.apply, e]
    | _ => rfl
  | _ => rfl

theorem ordinary_step (unhooked : w.hooks = []) {op : Operation} (hop : ¬ op.Starts) :
    Moves Motion.Ordinary w ((step op).run w).2 := by
  by_cases waits : ∃ moment operations, op = .hook moment operations
  · obtain ⟨moment, operations, rfl⟩ := waits
    exact .one (m := .hooks (w.hooks ++ [(moment, operations)])) trivial
  let Unhooking (m : Motion) : Prop := m.Ordinary ∧ ∀ w, (m.apply w).hooks = w.hooks
  have H : Inert (fun w => w.hooks = []) Unhooking (handle (play depth)) op.Asks := by
    refine ⟨fun m w hm hw => (hm.2 w).trans hw, fun e he w hw => ?_⟩
    have merging : e.Merging := he.elim .inl And.right
    have frame (v : World) := reply_frame idle (not_perform_of_merging merging) v
    have answers (v : World) (hv : v.hooks = [] ∧ Moves Unhooking w v) :
        ((reply (play depth) e).run v).2.hooks = [] ∧
          Moves Unhooking w ((reply (play depth) e).run v).2 := by
      rw [reply_eq_idle (not_perform_of_merging merging)]
      have answer : Moves Unhooking v ((reply idle e).run v).2 :=
        .one (m := .reply e) ⟨merging, fun v => (frame v).1⟩
      exact ⟨(frame v).1.trans hv.1, hv.2.trans answer⟩
    exact (keeps_handle (fun _ => And.left) answers ⟨hw, .refl⟩).2
  refine (Operation.moves_perform H (fun starts => absurd starts hop) (fun m hm => ?_)
    unhooked).mono fun _ => And.left
  refine ⟨ordinary_motion hm, fun w => ?_⟩
  cases op with
  | hook moment operations => exact absurd ⟨moment, operations, rfl⟩ waits
  | acquire | release => cases hm; rfl
  | _ => first | exact (Option.some_ne_none _ hm.symm).elim | (cases hm; rfl)

def executions : List Task → World → List (Operation × World)
  | [], _ => []
  | t :: ts, w => (.execute t, w) :: executions ts ((step (.execute t)).run w).2

def stages (op : Operation) (w : World) : List (Operation × World) :=
  match op with
  | .executeAll => (.drain, w) :: executions w.queue.tasks (Motion.drain.apply w)
  | _ => [(op, w)]

def stagesAll : List Operation → World → List (Operation × World)
  | [], _ => []
  | op :: ops, w => stages op w ++ stagesAll ops ((step op).run w).2

def Fitting (snapshots : List Snapshot) : Prop :=
  ∀ s ∈ snapshots, (Codec.encode s.toList).length < 2 ^ 64

def writes (w : World) : Operation → List Snapshot
  | .rebuild purge | .rebuildSnapshot purge | .execute (.rebuild purge) =>
    (Rebuild.start w.settings purge).gather Effect.written (handle (play depth)) w
  | _ => []

end World

end ClaimIndex
