import ClaimIndex.Proofs.Origins
import ClaimIndex.Proofs.Reconciling
import Mathlib.Data.List.Flatten

/-! Rebuilds that follow one another.  While the clock does not run backwards, a rebuild that is
left to choose its purge point keeps nothing in the overlay that was there when it began, so that
no further rebuild is asked for and one round of the queue is enough. -/

namespace ClaimIndex

open Overlay (slot)

open Rebuild (Publishes Ends)

open World (handle play reply idle met works ownMarks record narrates_own)

def Operation.Answered (n : Nat) (op : Operation) (u : World) : Prop :=
  ∀ e z, (e, z) ∈ op.calls n u → (e = .readOverlay ∨ ∃ stamp, e = .dropOverlay stamp) →
    works e (met (play n) e z) = true

variable {n : Nat} {op : Operation} {w v u x z z' : World} {e : Effect}
  {course front back : List Mark} {held : Overlay.Slot} {entry : Overlay.Entry}
  {stamp bound : Instant}

theorem Binary64.equals_of_le {a b : Binary64} (h : a ≤ b) : a.equals a = true := by
  have self : a ≤ a := Binary64.le_refl (by
    rintro rfl
    exact Binary64.not_nan_le b h)
  exact Binary64.equals_iff.2 ⟨self, self⟩

/-- An operation during which the clock does not run backwards and nothing is merged, and which
begins with an entry in the overlay at most that is older than what it reads off the clock. -/
structure Unmerged (n : Nat) (op : Operation) (u : World) : Prop where
  forward : Forward (ownMarks n (record n) op u)
  unwritten : ∀ entry x, .asks (.writeOverlay entry) x ∉ ownMarks n (record n) op u
  aged : ∀ held x, u.slots[slot]? = some held → .asks .now x ∈ ownMarks n (record n) op u →
    held.entry.stamp ≤ x.clock

namespace World

theorem held_of_read (there : (.readOverlay, z) ∈ op.calls n u)
    (answer : ((handle (play n) .readOverlay).run z).1 = .ok (some entry)) :
    .asks .readOverlay (met (play n) .readOverlay z) ∈ ownMarks n (record n) op u ∧
      ∃ held, (met (play n) .readOverlay z).slots[slot]? = some held ∧ held.entry = entry ∧
        held.expired (met (play n) .readOverlay z).clock = false := by
  have through := works_of_answer (e := .readOverlay) rfl (by rw [answer]; simp)
  refine ⟨asks_of_works there through, ?_⟩
  rw [answer_of_works through] at answer
  generalize met (play n) .readOverlay z = x at answer
  have found : (x.slots.get slot x.clock).1 = some entry := Except.ok.inj answer
  cases absent : x.slots[slot]? with
  | none =>
    rw [Overlay.Slots.get_none absent] at found
    cases found
  | some held =>
    cases late : held.expired x.clock with
    | true =>
      rw [Overlay.Slots.get_expired absent late] at found
      cases found
    | false =>
      rw [Overlay.Slots.get_live absent late] at found
      exact ⟨held, rfl, Option.some.inj found, late⟩

theorem asks_sublist {e' : Effect} (sub : [(e, z), (e', z')].Sublist (op.calls n u))
    (through : works e (met (play n) e z) = true)
    (through' : works e' (met (play n) e' z') = true) :
    [.asks e (met (play n) e z), .asks e' (met (play n) e' z')].Sublist
      (ownMarks n (record n) op u) := by
  have single {e : Effect} {z : World} (through : works e (met (play n) e z) = true) :
      [.asks e (met (play n) e z)].Sublist (callMarks (play n) (record n) e z) := by
    refine List.singleton_sublist.2 (List.mem_append_right _ ?_)
    rw [if_pos through]
    exact .head _
  have both := (single through).append ((single through').append (.refl []))
  exact both.trans (sub.flatMap fun c => callMarks (play n) (record n) c.1 c.2)

end World

namespace Narrates

theorem between {m m' : Mark} (h : Narrates w course v) (sub : [m, m'].Sublist course) :
    ∃ mid, Narrates m.next mid m'.world ∧ mid ⊆ course := by
  obtain ⟨first, second, rfl, hm, later⟩ := List.cons_sublist_iff.1 sub
  obtain ⟨older, mid, rfl⟩ := List.append_of_mem hm
  obtain ⟨mid', newer, rfl⟩ := List.append_of_mem (List.singleton_sublist.1 later)
  rw [List.append_assoc, List.cons_append, ← List.append_assoc mid] at h
  refine ⟨mid ++ mid', h.split.2.split.1, fun m hm => ?_⟩
  simp only [List.mem_append, List.mem_cons] at hm ⊢
  tauto

end Narrates

namespace Unmerged

variable (quiet : Unmerged n op u) (single : op ≠ .executeAll)

include quiet single

theorem held_before {m : Mark} (there : m ∈ ownMarks n (record n) op u)
    (holds : m.world.slots[slot]? = some held) : u.slots[slot]? = some held := by
  obtain ⟨older, newer, whole⟩ := List.append_of_mem there
  have run := narrates_own (n := n) single u
  rw [whole] at run
  refine World.held_of_unwritten run.split.1 (fun entry x hx => quiet.unwritten entry x ?_) holds
  rw [whole]
  exact List.mem_append_left _ hx

theorem read_early (began : (.now, x) ∈ op.calls n u) (there : (.readOverlay, z) ∈ op.calls n u)
    (answer : ((handle (play n) .readOverlay).run z).1 = .ok (some entry)) :
    entry.stamp ≤ x.clock := by
  obtain ⟨asked, held, holds, rfl, -⟩ := World.held_of_read there answer
  exact quiet.aged held x (quiet.held_before single asked holds)
    (World.asks_of_works (e := .now) began rfl)

theorem not_missed {z'' : World} {again : Overlay.Entry}
    (sub : [(.readOverlay, z), (.dropOverlay entry.stamp, z'), (.readOverlay, z'')].Sublist
      (op.calls n u))
    (answer : ((handle (play n) .readOverlay).run z).1 = .ok (some entry))
    (early : entry.stamp ≤ bound)
    (miss : ((handle (play n) (.dropOverlay entry.stamp)).run z').1 = .ok false) :
    ((handle (play n) .readOverlay).run z'').1 ≠ .ok (some again) := by
  intro answer'
  obtain ⟨asked, held, holds, same, -⟩ :=
    World.held_of_read (sub.subset (.head _)) answer
  obtain ⟨asked', held', holds', -, live⟩ :=
    World.held_of_read (sub.subset (.tail _ (.tail _ (.head _)))) answer'
  have first := quiet.held_before single asked holds
  obtain rfl : held = held' :=
    Option.some.inj (first.symm.trans (quiet.held_before single asked' holds'))
  have through := World.works_of_answer (e := .dropOverlay entry.stamp) rfl (by rw [miss]; simp)
  have through' := World.works_of_answer (e := .readOverlay) rfl (by rw [answer']; simp)
  have moments := World.asks_sublist ((List.sublist_cons_self _ _).trans sub) through through'
  rw [World.answer_of_works through] at miss
  generalize met (play n) (.dropOverlay entry.stamp) z' = x at moments miss
  generalize met (play n) .readOverlay z'' = y at moments asked' holds' live
  obtain ⟨mid, run, within⟩ := (narrates_own (n := n) single u).between moments
  have left : ((reply idle (.dropOverlay entry.stamp)).run x).2.slots[slot]? = some held :=
    World.held_of_unwritten run (fun entry z hz => quiet.unwritten entry z (within hz)) holds'
  obtain still | ⟨gone, -⟩ := World.slot_reply (e := .dropOverlay entry.stamp) (w := x) (by simp)
  swap
  · rw [left] at gone
    cases gone
  have timely : x.clock ≤ y.clock := by
    have readings := quiet.forward.sublist moments
    exact (List.pairwise_cons.1 readings).1 _ (.head _)
  have self : held.entry.stamp.equals entry.stamp = true := by
    rw [same]
    exact Binary64.equals_of_le early
  have dropped := Overlay.Slots.deleteIf_live (still.symm.trans left)
    (Overlay.Slot.live_of_le live timely) self
  exact absurd (dropped.symm.trans (Except.ok.inj miss)) (by simp)

end Unmerged

inductive Clears (n : Nat) (op : Operation) (u : World) :
    Except Fault (Option Overlay.Outcome) → Prop
  | failed {fault : Fault} (unanswered : ¬ op.Answered n u) : Clears n op u (.error fault)
  | cleared {outcome : Overlay.Outcome} {e : Effect} {x : World}
    (kept : ∀ stamp, outcome ≠ .retained stamp) (there : .asks e x ∈ ownMarks n (record n) op u)
    (bare : ((reply idle e).run x).2.slots[slot]? = none) : Clears n op u (.ok (some outcome))

namespace Unmerged

variable {commit : Rebuild.Commit} {asked taken left : Nat} {begun : Instant} {released : World}
  {found : Except Fault (Option Overlay.Outcome)}

theorem clears (quiet : Unmerged n op u) (rebuilds : op.rebuilds? = some none)
    (published : Publishes (handle (play n)) u.settings u commit asked taken left begun released)
    (touched : (Rebuild.touch u.settings).Yields (handle (play n)) released () z)
    (looked : (Overlay.reconcile begun Rebuild.rounds).run.Yields (handle (play n)) z found z') :
    Clears n op u found := by
  have single := World.single_of_rebuilds rebuilds
  have calls := Operation.calls_rebuild (n := n) (v := u) rebuilds
  have within : (Overlay.reconcile begun Rebuild.rounds).run.calls (handle (play n)) z <:+:
      op.calls n u := by
    rw [calls]
    exact published.infix_reconcile none touched
  have working {e : Effect} {r : e.Reply} {z : World} (answer : ((handle (play n) e).run z).1 = r)
      (through : works e (met (play n) e z) = true) :
      ((reply (play n) e).run (met (play n) e z)).1 = r :=
    (World.answer_of_works through).symm.trans answer
  cases (Rebuild.ends_reconcile looked).mono within.subset with
  | unread there answer =>
    refine .failed fun answered => ?_
    cases working answer (answered _ _ there (.inl rfl))
  | undropped there answer =>
    refine .failed fun answered => ?_
    cases working answer (answered _ _ there (.inr ⟨_, rfl⟩))
  | empty there answer =>
    have through := World.works_of_answer (e := .readOverlay) rfl (by rw [answer]; simp)
    exact .cleared (by simp) (World.asks_of_works there through)
      (Overlay.Slots.getElem?_get (Except.ok.inj (working answer through)))
  | purged there answer =>
    have through := World.works_of_answer (e := .dropOverlay _) rfl (by rw [answer]; simp)
    exact .cleared (by simp) (World.asks_of_works there through)
      (Overlay.Slots.getElem?_deleteIf (Except.ok.inj (working answer through)))
  | retained there answer late =>
    obtain ⟨x, began, clock⟩ := published.began none
    rw [← calls] at began
    exact absurd (clock ▸ quiet.read_early single began there answer) late
  | exhausted =>
    -- with two rounds at least, an entry was missed and read again
    obtain ⟨z, z', z'', entry, again, sub, answer, early, miss, answer'⟩ :=
      Rebuild.misses_of_exhausted 4294967294 looked
    exact absurd answer' (quiet.not_missed single (sub.trans within.sublist) answer early miss)

theorem unfollowed (quiet : Unmerged n op u) (rebuilds : op.rebuilds? = some none)
    {p : Option Instant} : (.enqueue (.rebuild p), x) ∉ op.calls n u := by
  rw [Operation.calls_rebuild rebuilds]
  intro hc
  obtain ⟨commit, asked, taken, left, begun, released, published, following⟩ :=
    Rebuild.published_of_calls hc id id (by simp) (by simp)
  obtain ⟨-, z, stamp, z', touched, looked⟩ := Rebuild.retained_of_enqueue following
  cases quiet.clears rebuilds published touched looked with
  | cleared kept => exact kept stamp rfl

theorem overlay_of_commit (quiet : Unmerged n op u) (rebuilds : op.rebuilds? = some none)
    {report : Report}
    (ran : (Rebuild.start u.settings none).Yields (handle (play n)) u (.ok report) v)
    (unskipped : report.skipped = false) :
    report.overlay = none ∧ ¬ op.Answered n u ∨
      (∃ outcome, report.overlay = some outcome ∧ ∀ stamp, outcome ≠ .retained stamp) ∧
        ∃ e x, .asks e x ∈ ownMarks n (record n) op u ∧
          ((reply idle e).run x).2.slots[slot]? = none := by
  obtain ⟨commit, asked, taken, left, begun, released, settled, published, settles⟩ :=
    Rebuild.published_of_commit ran unskipped
  obtain ⟨z, found, z', touched, looked, same⟩ := Rebuild.overlay_of_settle settles
  cases quiet.clears rebuilds published touched looked with
  | failed unanswered => exact .inl ⟨same, unanswered⟩
  | cleared kept there bare => exact .inr ⟨⟨_, same, kept⟩, _, _, there, bare⟩

end Unmerged

theorem Unmerged.of_run (run : Narrates w course v) (ordered : World.Ordered [] course)
    (bare : w.slots[slot]? = none) (forward : Forward course)
    (place : course = front ++ .begins n op u :: back)
    (unwritten : ∀ entry x, .asks (.writeOverlay entry) x ∉ ownMarks n (record n) op u) :
    Unmerged n op u := by
  obtain ⟨rest, rfl⟩ := ordered.begins front n op u back place
  subst place
  refine ⟨forward.sublist ?_, unwritten, fun held x there asked => ?_⟩
  · exact (List.sublist_append_left _ _).trans ((List.sublist_cons_self _ _).trans
      (List.sublist_append_right _ _))
  obtain early | ⟨entry, y, written, rfl⟩ := World.origin_of_held run.split.1 there
  · rw [bare] at early
    cases early
  obtain ⟨older, newer, rfl⟩ := List.append_of_mem written
  have owned := ordered.asks older (.writeOverlay held.entry) y _ (by rw [List.append_assoc]; rfl)
  obtain ⟨z, read, stamp⟩ := World.stamped_of_owned owned
  have later : .asks .now x ∈ .begins n op u :: (ownMarks n (record n) op u ++ rest) :=
    .tail _ (List.mem_append_left _ asked)
  exact forward.before (List.mem_append_left _ read) later (congrArg some stamp) rfl

namespace World

variable {p : Option Instant} {past : List Operation} {m : Mark}

theorem mem_along {f : Operation → World → List Mark} {next : Operation → World → World}
    {ops : List Operation} (there : m ∈ along f next ops w) : ∃ op ∈ ops, ∃ u, m ∈ f op u := by
  induction ops generalizing w with
  | nil => exact (List.not_mem_nil there).elim
  | cons op ops ih =>
    obtain there | there := List.mem_append.1 there
    · exact ⟨op, .head _, w, there⟩
    · obtain ⟨op', member, u, there⟩ := ih there
      exact ⟨op', .tail _ member, u, there⟩

theorem begins_first {t : Task} {tasks : List Task} (queued : v.queue.tasks = t :: tasks) :
    .begins n (.execute t) (Motion.drain.apply v) ∈ marks n .executeAll v := by
  refine .tail _ ?_
  rw [queued]
  exact .head _

theorem begins_within_round (there : .begins n op u ∈ marks depth .executeAll v) :
    op = .executeAll ∨ u.Running ∨ n = depth ∧ ∃ t ∈ v.queue.tasks, op = .execute t := by
  obtain same | there := List.mem_cons.1 there
  · cases same
    exact .inl rfl
  obtain ⟨op', member, x, there⟩ := mem_along there
  obtain ⟨t, queued, rfl⟩ := List.mem_map.1 member
  obtain same | there := List.mem_cons.1 there
  · cases same
    exact .inr (.inr ⟨rfl, t, queued, rfl⟩)
  cases t with
  | rebuild purge =>
    obtain entering | running := running_within rfl _ there
    · cases entering
    · exact .inr (.inl running)
  | refreshStatistics groups => exact (List.not_mem_nil there).elim

theorem enqueues_of_owned (h : Owned front (.enqueue (.rebuild p)) x) : p = none ∧
    ∃ n op u z purge, .begins n op u ∈ front ∧ ¬ u.Running ∧ op.rebuilds? = some purge ∧
      (.enqueue (.rebuild p), z) ∈ op.calls n u := by
  obtain ⟨place, calls, -, -⟩ := h
  rename_i older n op u z prior later
  have there : (.enqueue (.rebuild p), z) ∈ op.calls n u := by
    rw [calls]
    exact List.mem_append_right _ (.head _)
  have idle (hu : u.Running) : False := by
    obtain enter | calm | ⟨entry, same⟩ := hu.calls there
    · cases enter
    · exact calm
    · cases same
  cases Operation.purpose_of_mem there with
  | lookup sought asked => exact ((Lookup.within_ofKey _).calls asked).elim
  | merge merges asked =>
    have other := (Overlay.adding_add _ _).calls asked
    simp [Effect.Adding] at other
  | reads reads => exact reads.elim
  | @rebuild purge rebuilds asked =>
    obtain ⟨commit, _, taken, left, begun, released, published, following⟩ :=
      Rebuild.published_of_calls asked id id (by simp) (by simp)
    exact ⟨(Rebuild.retained_of_enqueue following).1, n, op, u, z, purge, by rw [place]; simp, idle,
      rebuilds, there⟩

theorem rebuild_of_round {purge : Option Instant}
    (there : .begins n op u ∈ marks depth .executeAll v) (idle : ¬ u.Running)
    (rebuilds : op.rebuilds? = some purge)
    (unbounded : ∀ p, .rebuild p ∈ v.queue.tasks → p = none) : op.rebuilds? = some none := by
  obtain rfl | running | ⟨-, t, queued, rfl⟩ := begins_within_round there
  · cases rebuilds
  · exact absurd running idle
  · cases t with
    | rebuild p =>
      cases rebuilds
      rw [unbounded purge queued]
      rfl
    | refreshStatistics groups => cases rebuilds

theorem unbounded_of_run (run : Narrates w course v) (ordered : Ordered [] course)
    (unbounded : ∀ p, .rebuild p ∈ w.queue.tasks → p = none) :
    ∀ p, .rebuild p ∈ v.queue.tasks → p = none := by
  intro p there
  obtain early | ⟨x, asked⟩ := origin_of_task run there
  · exact unbounded p early
  · obtain ⟨older, newer, rfl⟩ := List.append_of_mem asked
    exact (enqueues_of_owned (ordered.asks older _ x newer rfl)).1

theorem unfollowed_within (quiet : Unmerged n op u) (rebuilds : op.rebuilds? = some none) :
    .asks (.enqueue (.rebuild p)) x ∉ marks n op u := by
  intro there
  obtain ⟨older, newer, whole⟩ := List.append_of_mem there
  obtain ⟨-, n', op', u', z, purge, began, idle, -, asked⟩ :=
    enqueues_of_owned ((ordered_marks n op u).asks older _ x newer whole)
  have within : .begins n' op' u' ∈ marks n op u := by
    rw [whole]
    exact List.mem_append_left _ began
  obtain ⟨rfl, rfl, rfl⟩ := begins_within rebuilds within idle
  exact quiet.unfollowed rebuilds asked

theorem unmerged_in_round (run : Narrates w course v) (ordered : Ordered [] course)
    (bare : w.slots[slot]? = none) (forward : Forward (course ++ marks depth .executeAll v))
    (unwritten : ∀ entry x, .asks (.writeOverlay entry) x ∉ marks depth .executeAll v)
    {rest : List Mark}
    (place : marks depth .executeAll v =
      front ++ .begins n op u :: (ownMarks n (record n) op u ++ rest)) : Unmerged n op u := by
  have whole := run.append (narrates_marks depth .executeAll v)
  have follows := ordered.append ((ordered_marks depth .executeAll v).later course)
  have there : course ++ marks depth .executeAll v =
      course ++ front ++ .begins n op u :: (ownMarks n (record n) op u ++ rest) := by
    rw [place, List.append_assoc]
  refine .of_run whole follows bare forward there fun entry x asked => unwritten entry x ?_
  rw [place]
  exact List.mem_append_right _ (.tail _ (List.mem_append_left _ asked))

theorem settled_round (run : Narrates w course v) (ordered : Ordered [] course)
    (bare : w.slots[slot]? = none) (unbounded : ∀ p, .rebuild p ∈ w.queue.tasks → p = none)
    (forward : Forward (course ++ marks depth .executeAll v))
    (unwritten : ∀ entry x, .asks (.writeOverlay entry) x ∉ marks depth .executeAll v) :
    .rebuild p ∉ (after depth .executeAll v).queue.tasks := by
  intro queued
  obtain early | ⟨x, asked⟩ := origin_of_task (narrates_tasks (told_play depth) v) queued
  · exact (List.not_mem_nil early).elim
  have ordered' := ordered_marks depth .executeAll v
  obtain ⟨older, newer, whole⟩ :=
    List.append_of_mem (show _ ∈ marks depth .executeAll v from .tail _ asked)
  obtain ⟨-, n, op, u, z, purge, began, idle, rebuilds, asked⟩ :=
    enqueues_of_owned (ordered'.asks older _ x newer whole)
  have there : .begins n op u ∈ marks depth .executeAll v := by
    rw [whole]
    exact List.mem_append_left _ began
  obtain ⟨front, rest, place⟩ := ordered'.exists_own there
  have quiet := unmerged_in_round run ordered bare forward unwritten place
  exact quiet.unfollowed (rebuild_of_round there idle rebuilds
    (unbounded_of_run run ordered unbounded)) asked

theorem bare_round (run : Narrates w course v) (ordered : Ordered [] course)
    (bare : w.slots[slot]? = none) (unbounded : ∀ p, .rebuild p ∈ w.queue.tasks → p = none)
    (forward : Forward (course ++ marks depth .executeAll v))
    (unwritten : ∀ entry x, .asks (.writeOverlay entry) x ∉ marks depth .executeAll v)
    (there : .begins n op u ∈ marks depth .executeAll v) (commits : op.Commits n u bound)
    (answered : op.Answered n u) : (after depth .executeAll v).slots[slot]? = none := by
  obtain ⟨front, rest, place⟩ := (ordered_marks depth .executeAll v).exists_own there
  have quiet := unmerged_in_round run ordered bare forward unwritten place
  have idle : ¬ u.Running := fun running => Running.not_commits running commits
  obtain ⟨found, ran, unskipped, -, -⟩ := commits
  have rebuilds := rebuild_of_round there idle found (unbounded_of_run run ordered unbounded)
  obtain rfl := Option.some.inj (found.symm.trans rebuilds)
  obtain ⟨-, unanswered⟩ | ⟨-, e, x, asked, gone⟩ :=
    quiet.overlay_of_commit rebuilds ran unskipped
  · exact absurd answered unanswered
  have within : .asks e x ∈ marks depth .executeAll v := by
    rw [place]
    exact List.mem_append_right _ (.tail _ (List.mem_append_left _ asked))
  obtain ⟨older, newer, whole⟩ := List.append_of_mem within
  have round := narrates_marks depth .executeAll v
  rw [whole] at round
  refine Option.eq_none_iff_forall_ne_some.2 fun held holds => ?_
  have still := held_of_unwritten round.split.2 (fun entry y there => unwritten entry y ?_) holds
  · exact Option.some_ne_none _ (still.symm.trans gone)
  · rw [whole]
    exact List.mem_append_right _ (.tail _ there)

/-- In a run that begins with nothing in the overlay and in which the clock does not run backwards,
a rebuild that is left to choose its purge point and during which nothing is merged asks for no
other one, and does not report that it kept the entry.  So a round of the queue during which nothing
is merged leaves no rebuild in the queue, and no entry if one of its rebuilds commits and the
overlay's store answers it. -/
theorem followups_converge (w : World) (bare : w.slots[slot]? = none)
    (unbounded : ∀ p, .rebuild p ∈ w.queue.tasks → p = none) (ops : List Operation)
    (forward : Forward (transcript ops w)) :
    (∀ front n op u back, transcript ops w = front ++ .begins n op u :: back →
      op.rebuilds? = some none → (∀ entry x, .asks (.writeOverlay entry) x ∉ marks n op u) →
      (∀ p x, .asks (.enqueue (.rebuild p)) x ∉ marks n op u) ∧
      ∀ report v, (Rebuild.start u.settings none).Yields (handle (play n)) u (.ok report) v →
        report.skipped = false → (∀ stamp, report.overlay ≠ some (.retained stamp)) ∧
          (op.Answered n u →
            report.overlay = some .empty ∨ ∃ keys, report.overlay = some (.purged keys))) ∧
    ∀ past v, ops = past ++ [.executeAll] → ((steps past).run w).2 = v →
      (∀ entry x, .asks (.writeOverlay entry) x ∉ marks depth .executeAll v) →
      (∀ p, .rebuild p ∉ (after depth .executeAll v).queue.tasks) ∧
      ((∃ n op u bound, .begins n op u ∈ marks depth .executeAll v ∧ op.Commits n u bound ∧
        op.Answered n u) → (after depth .executeAll v).slots[slot]? = none) := by
  have run := narrates_steps ops w
  have ordered := ordered_transcript ops w
  constructor
  · intro front n op u back place rebuilds unwritten
    have quiet : Unmerged n op u := .of_run run ordered bare forward place fun entry x there =>
      unwritten entry x (by rw [marks_single (single_of_rebuilds rebuilds)]; exact .tail _ there)
    refine ⟨fun p x => unfollowed_within quiet rebuilds, fun report v ran unskipped => ?_⟩
    obtain ⟨none, unanswered⟩ | ⟨⟨outcome, same, kept⟩, -⟩ :=
      quiet.overlay_of_commit rebuilds ran unskipped
    · rw [none]
      exact ⟨by simp, fun answered => absurd answered unanswered⟩
    · rw [same]
      refine ⟨fun stamp retained => kept stamp (Option.some.inj retained), fun _ => ?_⟩
      cases outcome with
      | empty => exact .inl rfl
      | purged keys => exact .inr ⟨keys, rfl⟩
      | retained stamp => exact absurd rfl (kept stamp)
  · intro past v whole reached unwritten
    rw [whole, transcript_concat, reached] at forward
    have before := narrates_steps past w
    rw [reached] at before
    have earlier := ordered_transcript past w
    refine ⟨fun p => settled_round before earlier bare unbounded forward unwritten, ?_⟩
    rintro ⟨n, op, u, bound, there, commits, answered⟩
    exact bare_round before earlier bare unbounded forward unwritten there commits answered

def editing : World where
  registry := [.scripted "editor" 8 ["Page"] false true none
    [.advance (.ofSeconds 1), .store (.fixed "late" 8 [] true) ["Late"]]]

theorem followups_converge_editing :
    let past : List Operation := [.rebuild none, .unregister "editor"]
    let v := ((steps past).run editing).2
    v.slots[slot]?.isSome = true ∧ (v.queue.tasks.map Task.name).head? = some "rebuild" ∧
      (∀ p, .rebuild p ∉ (after depth .executeAll v).queue.tasks) ∧
      (after depth .executeAll v).slots[slot]? = none := by
  intro past v
  have holds : v.slots[slot]?.isSome = true := by decide +kernel
  have queued : (v.queue.tasks.map Task.name).head? = some "rebuild" := by decide +kernel
  have bare : editing.slots[slot]?.isNone = true := by decide +kernel
  have unbounded : ∀ p, .rebuild p ∈ editing.queue.tasks → p = none := fun p there =>
    (List.not_mem_nil there).elim
  have forward : Forward (transcript (past ++ [.executeAll]) editing) := by
    unfold Forward
    decide +kernel
  have unmerged : ((marks depth .executeAll v).filterMap Mark.merged?).isEmpty = true := by
    decide +kernel
  have committed : (((Rebuild.start (Motion.drain.apply v).settings none).run
      (handle (play depth))).run (Motion.drain.apply v)).1.toOption.any (!·.skipped) = true := by
    decide +kernel
  have works :
      (((Operation.execute (.rebuild none)).calls depth (Motion.drain.apply v)).all fun c =>
        works c.1 (met (play depth) c.1 c.2)) = true := by decide +kernel
  obtain ⟨-, round⟩ := followups_converge editing (Option.isNone_iff_eq_none.1 bare) unbounded
    (past ++ [.executeAll]) forward
  obtain ⟨idle, cleared⟩ := round past v rfl rfl (not_mem_of_unmerged unmerged)
  refine ⟨holds, queued, idle, cleared ?_⟩
  have still : ∀ p, .rebuild p ∈ v.queue.tasks → p = none :=
    unbounded_of_run (narrates_steps past editing) (ordered_transcript past editing) unbounded
  clear_value v
  cases tasks : v.queue.tasks with
  | nil =>
    rw [tasks] at queued
    cases queued
  | cons t rest =>
    cases t with
    | refreshStatistics groups =>
      rw [tasks] at queued
      exact absurd (Option.some.inj queued) (show "refresh_group_stats" ≠ "rebuild" by decide)
    | rebuild p =>
      obtain rfl := still p (by rw [tasks]; exact .head _)
      have rebuilds : (Operation.execute (.rebuild none)).rebuilds? = some none := rfl
      obtain ⟨bound, commits⟩ := Operation.exists_commits rebuilds committed
      exact ⟨depth, _, _, bound, begins_first tasks, commits, fun e z asked _ =>
        List.all_eq_true.1 works (e, z) asked⟩

def joined : World where
  hooks := [(.after .storeRead,
    [.advance (.ofSeconds 1), .store (.fixed "late" 8 [] true) ["Late"]])]

/-- A rebuild commits and leaves the entry where it is while the overlay's store is down; and it
asks for another one though it has no groups, when a key is added between its requests. -/
theorem followups_left :
    (let past : List Operation := [.rebuild none, .unregister "editor", .fail .overlayGet true]
      let v := ((steps past).run editing).2
      let left := after depth .executeAll v
      Forward (transcript (past ++ [.executeAll]) editing) ∧
      ((marks depth .executeAll v).filterMap Mark.merged?).isEmpty = true ∧
      (((Rebuild.start v.settings none).run (handle (play depth))).run
        (Motion.drain.apply v)).1.toOption.any (fun report =>
          !report.skipped && report.overlay.isNone) = true ∧
      left.slots[slot]?.any (fun held => !held.expired left.clock) = true) ∧
    joined.registry.length = 0 ∧ Forward (transcript [.rebuild none] joined) ∧
      ((exec (Rebuild.start joined.settings none)).run joined).1.toOption.any Report.isRetained =
        true ∧
      (((steps [.rebuild none]).run joined).2.queue.tasks.map Task.name).head? =
        some "rebuild" := by
  unfold Forward
  refine ⟨⟨?_, ?_, ?_, ?_⟩, ?_, ?_, ?_, ?_⟩
  all_goals decide +kernel

end World

end ClaimIndex
