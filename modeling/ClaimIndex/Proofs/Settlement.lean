import ClaimIndex.Proofs.Overlay
import ClaimIndex.Proofs.Phases

namespace ClaimIndex

namespace Overlay.Slots

variable {s : Slots} {name : String} {now stamp : Instant}

theorem getElem?_get (h : (s.get name now).1 = none) : (s.get name now).2[name]? = none := by
  cases hs : s[name]? with
  | none => rw [get_none hs]; exact hs
  | some held =>
    cases he : held.expired now with
    | false =>
      rw [get_live hs he] at h
      cases h
    | true =>
      rw [get_expired hs he]
      exact Std.ExtTreeMap.getElem?_erase_self

theorem getElem?_deleteIf (h : (s.deleteIf name stamp now).1 = true) :
    (s.deleteIf name stamp now).2[name]? = none := by
  unfold deleteIf at h ⊢
  cases hs : s[name]? with
  | none =>
    rw [hs] at h
    cases h
  | some held =>
    rw [hs] at h
    dsimp only at h ⊢
    split at h
    · rw [if_pos ‹_›]
      exact Std.ExtTreeMap.getElem?_erase_self
    · cases h

theorem deleteIf_live {held : Overlay.Slot} (there : s[name]? = some held)
    (live : held.expired now = false) (same : held.entry.stamp.equals stamp = true) :
    (s.deleteIf name stamp now).1 = true := by
  unfold deleteIf
  rw [there]
  dsimp only
  rw [live, same]
  rfl

end Overlay.Slots

namespace World

open Overlay (slot)
open Rebuild (Guarding Telling Aside)
open Proc (Yields yields_bind yields_ask yields_pure)

variable {w v u : World} {e : Effect} {s : Settings} {α : Type} {p : Proc α} {a : α}

structure Alike (w v : World) : Prop where
  slots : v.slots = w.slots
  queue : v.queue = w.queue
  clock : v.clock = w.clock
  settings : v.settings = w.settings

namespace Alike

theorem refl (w : World) : Alike w w := ⟨rfl, rfl, rfl, rfl⟩

theorem trans (h : Alike w v) (h' : Alike v u) : Alike w u where
  slots := h'.slots.trans h.slots
  queue := h'.queue.trans h.queue
  clock := h'.clock.trans h.clock
  settings := h'.settings.trans h.settings

end Alike

theorem guarding_alike (he : Guarding e) (w : World) :
    Alike w ((reply idle e).run w).2 ∧ ((reply idle e).run w).2.store = w.store := by
  cases e with
  | now | uptime | acquire | release | clearCache | touch | notify | record | report =>
    exact ⟨⟨rfl, rfl, rfl, rfl⟩, rfl⟩
  | _ => exact he.elim

theorem alike_of_guarding (hp : p.Within Guarding) (hy : p.Yields (reply idle) w a v) :
    Alike w v ∧ v.store = w.store := by
  refine hp.keeps_yields (I := fun u => Alike w u ∧ u.store = w.store) ?_ hy ⟨.refl w, rfl⟩
  intro e he u hu
  obtain ⟨alike, kept⟩ := guarding_alike he u
  exact ⟨hu.1.trans alike, kept.trans hu.2⟩

theorem telling_frame (hp : p.Within Telling) (hy : p.Yields (reply idle) w a v) :
    v.slots = w.slots ∧ v.clock = w.clock := by
  refine hp.keeps_yields (I := fun u => u.slots = w.slots ∧ u.clock = w.clock) ?_ hy ⟨rfl, rfl⟩
  rintro e (he | ⟨task, rfl⟩) u hu
  · obtain ⟨alike, -⟩ := guarding_alike he u
    exact ⟨alike.slots.trans hu.1, alike.clock.trans hu.2⟩
  · obtain ⟨tasks, e⟩ := exists_tasks idle task u
    rw [e]
    exact hu

theorem yields_respond {found : Except Fault (Option Overlay.Outcome)}
    {outcome : Overlay.Outcome}
    (hy : (Rebuild.respond found).Yields (reply idle) w (some outcome) v) :
    found = .ok (some outcome) := by
  have same := Rebuild.outcome_of_respond hy
  cases found with
  | error fault => cases same
  | ok ends => exact congrArg _ same.symm

theorem reconcile_bare {bound : Instant} {rounds : Nat} {outcome : Overlay.Outcome}
    (kept : ∀ stamp, outcome ≠ .retained stamp)
    (hy : (Overlay.reconcile bound rounds).run.Yields (reply idle) w (.ok (some outcome)) v) :
    v.slots[slot]? = none := by
  induction rounds generalizing w with
  | zero => cases (yields_pure.1 hy).1
  | succ rounds ih =>
    obtain ⟨found, read, hread, hy⟩ := Proc.yields_bind_ok.1 hy
    have answer : (w.slots.get slot w.clock).1 = found :=
      Except.ok.inj (congrArg Prod.fst (yields_ask.1 hread))
    have left : { w with slots := (w.slots.get slot w.clock).2 } = read :=
      congrArg Prod.snd (yields_ask.1 hread)
    cases found with
    | none =>
      obtain ⟨-, rfl⟩ := Proc.yields_pure_ok.1 hy
      rw [← left]
      exact Overlay.Slots.getElem?_get answer
    | some entry =>
      dsimp only at hy
      split at hy
      · obtain ⟨gone, dropped, hdrop, hy⟩ := Proc.yields_bind_ok.1 hy
        have removed : (read.slots.deleteIf slot entry.stamp read.clock).1 = gone :=
          Except.ok.inj (congrArg Prod.fst (yields_ask.1 hdrop))
        have rest : { read with
            slots := (read.slots.deleteIf slot entry.stamp read.clock).2 } = dropped :=
          congrArg Prod.snd (yields_ask.1 hdrop)
        cases gone with
        | false =>
          -- the entry was not the one that was read: look again, with one round less
          exact ih hy
        | true =>
          obtain ⟨-, rfl⟩ := Proc.yields_pure_ok.1 hy
          rw [← rest]
          exact Overlay.Slots.getElem?_deleteIf removed
      · obtain ⟨retained, -⟩ := Proc.yields_pure_ok.1 hy
        exact absurd (Option.some.inj retained).symm (kept _)

theorem afterCommit_bare {difference : Difference} {bound : Instant} {outcome : Overlay.Outcome}
    (kept : ∀ stamp, outcome ≠ .retained stamp)
    (hy : (Rebuild.afterCommit s difference bound).Yields (reply idle) w (some outcome) v) :
    v.slots[slot]? = none := by
  obtain ⟨touched, looked, responded, found, -, hfound, hrespond, hannounce⟩ :=
    Rebuild.yields_afterCommit hy
  cases yields_respond hrespond
  rw [(telling_frame (Rebuild.within_announce _) hannounce).1,
    (telling_frame (Rebuild.within_respond _) hrespond).1]
  exact reconcile_bare kept hfound

theorem reply_enqueue_open {task : Task} (hopen : w.queue.closed = false) :
    (reply idle (.enqueue task)).run w =
      (.ok (), { w with queue := { w.queue with tasks := w.queue.tasks ++ [task] } }) := by
  have enqueued : w.queue.enqueue task = .ok { w.queue with tasks := w.queue.tasks ++ [task] } :=
    if_neg (by simp [hopen])
  rw [reply_enqueue, enqueued]

theorem yields_enqueue {task : Task} {step : SideEffect} {done : Proc Unit}
    (hopen : w.queue.closed = false) (hdone : done.Within Guarding)
    (hy : (Rebuild.enqueue task step done).Yields (reply idle) w () v) :
    Alike { w with queue := { w.queue with tasks := w.queue.tasks ++ [task] } } v := by
  obtain ⟨taken, u, hask, hy⟩ := yields_bind.1 hy
  obtain ⟨rfl, rfl⟩ := Prod.mk.inj ((reply_enqueue_open hopen).symm.trans (yields_ask.1 hask))
  exact (alike_of_guarding hdone hy).1

theorem reconcile_retained {bound : Instant} {rounds : Nat} {held : Overlay.Slot}
    (hs : w.slots[slot]? = some held) (live : held.expired w.clock = false)
    (late : ¬ held.entry.stamp ≤ bound) :
    (Overlay.reconcile bound (rounds + 1)).run.Yields (reply idle) w
      (.ok (some (.retained held.entry.stamp))) w := by
  have read : Overlay.current.run.Yields (reply idle) w (.ok (some held.entry)) w := by
    have got := Overlay.Slots.get_live hs live
    change (Except.ok (w.slots.get slot w.clock).1,
      { w with slots := (w.slots.get slot w.clock).2 }) = _
    rw [got]
  refine Proc.yields_bind_ok.2 ⟨some held.entry, w, read, ?_⟩
  dsimp only
  rw [if_neg late]
  exact Proc.yields_pure_ok.2 ⟨rfl, rfl⟩

def refreshes (difference : Difference) : List Task :=
  if difference.touched.isEmpty then [] else [.refreshStatistics difference.touched]

theorem yields_announce {difference : Difference} (hopen : w.queue.closed = false)
    (hy : (Rebuild.announce difference).Yields (reply idle) w () v) :
    Alike { w with queue := { w.queue with
      tasks := w.queue.tasks ++ refreshes difference } } v := by
  obtain ⟨_, told, hnotify, hy⟩ := yields_bind.1 hy
  have quiet := (alike_of_guarding (Rebuild.within_notifyAll _) hnotify).1
  unfold refreshes
  split at hy
  · obtain ⟨-, rfl⟩ := yields_pure.1 hy
    rw [if_pos ‹_›, List.append_nil]
    exact ⟨quiet.slots, quiet.queue, quiet.clock, quiet.settings⟩
  · rw [if_neg ‹_›, ← quiet.queue]
    have taken := yields_enqueue (quiet.queue ▸ hopen) .pure hy
    exact ⟨taken.slots.trans quiet.slots, taken.queue, taken.clock.trans quiet.clock,
      taken.settings.trans quiet.settings⟩

theorem afterCommit_retained {difference : Difference} {bound : Instant}
    {outcome : Option Overlay.Outcome} {held : Overlay.Slot}
    (hs : w.slots[slot]? = some held) (live : held.expired w.clock = false)
    (late : ¬ held.entry.stamp ≤ bound)
    (hy : (Rebuild.afterCommit s difference bound).Yields (reply idle) w outcome v) :
    outcome = some (.retained held.entry.stamp) ∧ v.slots = w.slots ∧ v.clock = w.clock ∧
      (w.queue.closed = false →
        v.queue.tasks = w.queue.tasks ++ .rebuild none :: refreshes difference) := by
  obtain ⟨touched, looked, responded, found, htouch, hfound, hrespond, hannounce⟩ :=
    Rebuild.yields_afterCommit hy
  have alike := (alike_of_guarding Rebuild.within_touch htouch).1
  have retained : (Overlay.reconcile bound Rebuild.rounds).run.Yields (reply idle) touched
      (.ok (some (.retained held.entry.stamp))) touched :=
    reconcile_retained (by rw [alike.slots, hs]) (alike.clock ▸ live) late
  obtain ⟨rfl, rfl⟩ := hfound.unique retained
  obtain ⟨kept, still⟩ := telling_frame (Rebuild.within_respond _) hrespond
  obtain ⟨kept', still'⟩ := telling_frame (Rebuild.within_announce _) hannounce
  obtain ⟨_, counted, hcount, hrespond⟩ := yields_bind.1 hrespond
  obtain ⟨_, queued, henqueue, hrespond⟩ := yields_bind.1 hrespond
  obtain ⟨rfl, rfl⟩ := yields_pure.1 hrespond
  refine ⟨rfl, kept'.trans (kept.trans alike.slots), still'.trans (still.trans alike.clock), ?_⟩
  intro hopen
  have before := alike.trans (alike_of_guarding (.ask (e := .record .retained) trivial) hcount).1
  have taken := yields_enqueue (before.queue ▸ hopen) (.ask (e := .record .followUp) trivial)
    henqueue
  have told := yields_announce (by rw [taken.queue]; exact before.queue ▸ hopen) hannounce
  rw [told.queue, taken.queue, before.queue, List.append_assoc, List.singleton_append]

end World

end ClaimIndex
