import ClaimIndex.Proofs.Nested
import ClaimIndex.Proofs.Paths
import Mathlib.Algebra.BigOperators.Group.List.Basic

/-! What a run counts.  A counter tells how much the events of a run raise it, as far as 64 bits
can tell, and the marks of a run are those that its operations make by themselves, so that what
holds of each operation adds up over the run. -/

namespace ClaimIndex

namespace Metrics

def Event.raised : Event → List (String × Nat)
  | .rebuilt _ _ changed _ _ => [(Name.rebuilds, 1), (Name.changedKeys, changed)]
  | .failed => [(Name.failures, 1)]
  | .skipped => [(Name.skipped, 1)]
  | .lockUnavailable => [(Name.lockUnavailable, 1)]
  | .conflicts count => [(Name.conflicts, count)]
  | .followUp => [(Name.followUps, 1)]
  | .sideEffectFailed => [(Name.sideEffectFailures, 1)]
  | .lookup source => (Name.lookups, 1) :: ((sourceCounter? source).map (·, 1)).toList
  | .merged => [(Name.merges, 1)]
  | .purged => [(Name.purges, 1)]
  | .retained => [(Name.retained, 1)]

def Event.raises (name : String) (event : Event) : Nat :=
  (event.raised.map fun r => if r.1 = name then r.2 else 0).sum

theorem count_raise_add (m : Metrics) (key name : String) (x : Nat) :
    (m.raise key (.ofNat x)).count name = m.count name + .ofNat (if key = name then x else 0) := by
  rw [count_raise]
  split
  · subst key
    rfl
  · exact (UInt64.add_zero _).symm

def raiseAll (m : Metrics) (raised : List (String × Nat)) : Metrics :=
  raised.foldl (fun m r => m.raise r.1 (.ofNat r.2)) m

theorem count_raiseAll (m : Metrics) (raised : List (String × Nat)) (name : String) :
    (m.raiseAll raised).count name =
      m.count name + .ofNat (raised.map fun r => if r.1 = name then r.2 else 0).sum := by
  induction raised generalizing m with
  | nil => exact (UInt64.add_zero _).symm
  | cons r raised ih =>
    change ((m.raise r.1 (.ofNat r.2)).raiseAll raised).count name = _
    rw [ih, count_raise_add, List.map_cons, List.sum_cons, UInt64.ofNat_add, UInt64.add_assoc]

theorem counters_record (m : Metrics) (event : Event) :
    (m.record event).counters = (m.raiseAll event.raised).counters := by
  cases event with
  | lookup source => cases source <;> rfl
  | _ => rfl

theorem count_record (m : Metrics) (event : Event) (name : String) :
    (m.record event).count name = m.count name + .ofNat (event.raises name) := by
  rw [count, counters_record]
  exact m.count_raiseAll event.raised name

end Metrics

def Mark.raises (name : String) : Mark → Nat
  | asks (.record event) _ => event.raises name
  | _ => 0

def Mark.weight : Mark → Nat
  | asks (.record event) _ => (event.raised.map Prod.snd).sum
  | _ => 0

theorem Mark.raises_le (name : String) (m : Mark) : m.raises name ≤ m.weight := by
  unfold raises weight
  split
  · rename_i event w
    unfold Metrics.Event.raises
    induction event.raised with
    | nil => exact Nat.le_refl 0
    | cons r raised ih =>
      rw [List.map_cons, List.map_cons, List.sum_cons, List.sum_cons]
      refine Nat.add_le_add ?_ ih
      split
      · exact Nat.le_refl _
      · exact Nat.zero_le _
  · exact Nat.zero_le _

def tally (f : Mark → Nat) (marks : List Mark) : Nat := (marks.map f).sum

theorem tally_append (f : Mark → Nat) (front back : List Mark) :
    tally f (front ++ back) = tally f front + tally f back := by
  simp [tally]

theorem tally_perm (f : Mark → Nat) {front back : List Mark} (h : front.Perm back) :
    tally f front = tally f back :=
  (h.map f).sum_eq

theorem tally_flatMap (f : Mark → Nat) (g : Mark → List Mark) (marks : List Mark) :
    tally f (marks.flatMap g) = tally (fun m => tally f (g m)) marks := by
  induction marks with
  | nil => rfl
  | cons m marks ih =>
    rw [List.flatMap_cons, tally_append, ih]
    simp [tally]

theorem tally_mono {f g : Mark → Nat} {marks : List Mark} (h : ∀ m ∈ marks, f m ≤ g m) :
    tally f marks ≤ tally g marks := by
  induction marks with
  | nil => exact Nat.le_refl 0
  | cons m marks ih =>
    have rest : tally f marks ≤ tally g marks := ih fun m' h' => h m' (.tail _ h')
    exact Nat.add_le_add (h m (.head _)) rest

theorem le_tally (f : Mark → Nat) {m : Mark} {marks : List Mark} (h : m ∈ marks) :
    f m ≤ tally f marks := by
  obtain ⟨front, back, rfl⟩ := List.append_of_mem h
  have split : tally f (m :: back) = f m + tally f back := List.sum_cons
  rw [tally_append, split]
  omega

theorem tally_congr {f g : Mark → Nat} {marks : List Mark} (h : ∀ m ∈ marks, f m = g m) :
    tally f marks = tally g marks :=
  congrArg List.sum (List.map_congr_left h)

namespace World

open Metrics (Event)

variable {w v : World} {e : Effect} {marks : List Mark}

theorem metrics_apply {m : Motion} (direct : m.Direct) (w : World) :
    (m.apply w).metrics = w.metrics := by
  cases m with
  | reply e => obtain rfl | rfl := direct <;> rfl
  | _ => rfl

theorem metrics_reply (unrecorded : ∀ event, e ≠ .record event) (w : World) :
    ((reply idle e).run w).2.metrics = w.metrics := by
  cases e with
  | record event => exact absurd rfl (unrecorded event)
  | enqueue task =>
    obtain ⟨tasks, same⟩ := exists_tasks idle task w
    rw [same]
  | _ => rfl

theorem count_narrated (h : Narrates w marks v) (name : String) :
    v.metrics.count name = w.metrics.count name + .ofNat (tally (Mark.raises name) marks) := by
  induction h with
  | done => exact (UInt64.add_zero _).symm
  | moves direct _ ih => rw [ih, metrics_apply direct]
  | @begins w v marks n op _ ih => exact ih.trans (by simp [tally, Mark.raises])
  | @asks w v marks e _ ih =>
    rw [ih]
    by_cases recorded : ∃ event, e = .record event
    · obtain ⟨event, rfl⟩ := recorded
      rw [show ((reply idle (.record event)).run w).2.metrics = w.metrics.record event from rfl,
        Metrics.count_record, UInt64.add_assoc, ← UInt64.ofNat_add]
      rfl
    · rw [metrics_reply fun event same => recorded ⟨event, same⟩]
      have none : Mark.raises name (.asks e w) = 0 := by
        cases e with
        | record event => exact absurd ⟨event, rfl⟩ recorded
        | _ => rfl
      simp [tally, none]

theorem toNat_count (h : Narrates w marks v) (fresh : w.metrics = {}) (name : String)
    (bounded : tally (Mark.raises name) marks < 2 ^ 64) :
    (v.metrics.count name).toNat = tally (Mark.raises name) marks := by
  have none : w.metrics.count name = 0 := by simp [fresh, Metrics.count]
  rw [count_narrated h, none, UInt64.zero_add, UInt64.toNat_ofNat_of_lt' bounded]

def passed (n : Nat) (e : Effect) (w : World) : List Mark :=
  if works e (met (play n) e w) then [.asks e (met (play n) e w)] else []

end World

/-- What an operation does by itself: it begins, and makes those requests that get through. -/
def Mark.own : Mark → List Mark
  | begins n op w => begins n op w :: (op.calls n w).flatMap fun c => World.passed n c.1 c.2
  | asks .. => []

def Regroups (marks : List Mark) : Prop := marks.Perm (marks.flatMap Mark.own)

namespace Regroups

variable {front back marks : List Mark}

theorem nil : Regroups [] := List.Perm.nil

theorem append (h : Regroups front) (h' : Regroups back) : Regroups (front ++ back) := by
  rw [Regroups, List.flatMap_append]
  exact List.Perm.append h h'

theorem tally_eq (h : Regroups marks) (f : Mark → Nat) :
    tally f marks = tally (fun m => tally f m.own) marks := by
  rw [tally_perm f h, tally_flatMap]

end Regroups

namespace World

variable {n : Nat}

theorem composes_regroups : Composes fun _ marks _ => Regroups marks where
  done _ := .nil
  append h h' := h.append h'
  direct _ _ := .nil

section

variable (regroups : ∀ label ops w, Regroups (record n label ops w))

include regroups

theorem perm_call (e : Effect) (w : World) : (callMarks (play n) (record n) e w).Perm
    (passed n e w ++ (callMarks (play n) (record n) e w).flatMap Mark.own) := by
  have before : Regroups (beforeMarks (record n) e w) := by
    unfold beforeMarks
    split
    · exact .nil
    · exact composes_regroups.hooked (play n) regroups _ w
  have through (v : World) : Regroups (throughMarks (play n) (record n) e v) := by
    unfold throughMarks
    split
    · split
      · exact regroups _ _ _
      · exact .nil
    · exact composes_regroups.hooked (play n) regroups _ _
  unfold callMarks passed
  dsimp only
  split
  · refine List.perm_middle.trans (.cons _ ?_)
    change List.Perm _ (List.flatMap Mark.own _)
    rw [List.flatMap_append, List.flatMap_cons]
    exact List.Perm.append before (through _)
  · rw [List.append_nil]
    exact before

theorem perm_own (op : Operation) (w : World) : (ownMarks n (record n) op w).Perm
    (((op.calls n w).flatMap fun c => passed n c.1 c.2) ++
      (ownMarks n (record n) op w).flatMap Mark.own) := by
  unfold ownMarks
  rw [List.flatMap_assoc]
  exact (List.Perm.flatMap_left _ fun c _ => perm_call regroups c.1 c.2).trans
    (List.flatMap_append_perm _ _ _).symm

theorem regroups_begin (op : Operation) (w : World) : Regroups (beginMarks n (record n) op w) :=
  .cons _ (perm_own regroups op w)

theorem regroups_op (op : Operation) (w : World) : Regroups (opMarks n (record n) op w) :=
  composes_regroups.performed (fun op _ => regroups_begin regroups op)
    (after_executeAll (told_play n)) (fun _ => .refl _) op w

end

theorem regroups_record (n : Nat) (label : String) (ops : List Operation) (w : World) :
    Regroups (record n label ops w) :=
  composes_regroups.recorded (fun _ => regroups_op) n label ops w

theorem regroups_marks (n : Nat) (op : Operation) (w : World) : Regroups (marks n op w) :=
  regroups_op (regroups_record n) op w

theorem regroups_transcript (ops : List Operation) (w : World) : Regroups (transcript ops w) :=
  composes_regroups.transcribed (regroups_marks depth) ops w

end World

end ClaimIndex
