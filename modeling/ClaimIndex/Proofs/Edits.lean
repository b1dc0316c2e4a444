import ClaimIndex.Proofs.Merging

namespace ClaimIndex.World

open Overlay (slot)

variable {w v u : World} {player : Player} {k : Key} {start : Instant}

structure Turn where
  operation : Operation
  before : World
  after : World

namespace Turn

def Adds (t : Turn) (k : Key) : Prop :=
  ∃ added ∈ t.operation.merge? t.before.registry, ∃ raw ∈ added.2, Key.ofRaw added.1.space raw = k

def MergesAfter (t : Turn) (start : Instant) : Prop :=
  (t.operation.merge? t.before.registry).isSome = true ∧ ¬ t.before.clock ≤ start

instance (t : Turn) (k : Key) : Decidable (t.Adds k) :=
  inferInstanceAs (Decidable (∃ added ∈ t.operation.merge? t.before.registry,
    ∃ raw ∈ added.2, Key.ofRaw added.1.space raw = k))

instance (t : Turn) (start : Instant) : Decidable (t.MergesAfter start) :=
  inferInstanceAs (Decidable (_ ∧ _))

end Turn

def trail (h : Handler World) (label : String) : List Operation → World → List Turn
  | [], _ => []
  | op :: ops, w => ⟨op, w, next h label op w⟩ :: trail h label ops (next h label op w)

def performed (n : Nat) : Effect → World → List Turn
  | .perform group actions, w => trail (handle (play n)) ("group " ++ group) actions w
  | _, _ => []

inductive Linked (h : Handler World) : World → List Turn → World → Prop
  | nil {w : World} : Linked h w [] w
  | notice {w v : World} {turns : List Turn} (notices : List Notice)
    (rest : Linked h { w with notices } turns v) : Linked h w turns v
  | turn {w v : World} {turns : List Turn} {op : Operation} (label : String)
    (plain : op.plain = true) (rest : Linked h (next h label op w) turns v) :
    Linked h w (⟨op, w, next h label op w⟩ :: turns) v

namespace Linked

variable {h : Handler World} {front back turns more : List Turn} {edit : Turn}

theorem append (hl : Linked h w turns v) (hm : Linked h v more u) :
    Linked h w (turns ++ more) u := by
  induction hl with
  | nil => exact hm
  | notice notices rest ih => exact .notice notices (ih hm)
  | turn label plain rest ih => exact .turn label plain (ih hm)

theorem play (n : Nat) (label : String) {ops : List Operation}
    (hops : ∀ op ∈ ops, op.plain = true) (w : World) :
    Linked (handle (World.play n)) w (trail (handle (World.play n)) label ops w)
      ((World.play (n + 1) label ops).run w).2 := by
  induction ops generalizing w with
  | nil => exact .nil
  | cons op ops ih =>
    rw [play_cons]
    exact .turn label (hops op List.mem_cons_self)
      (ih (fun op' h => hops op' (List.mem_cons_of_mem op h)) _)

theorem listing {n : Nat} {α : Type} {p : Proc α}
    (hp : p.Within (Build.Listing fun ops => ∀ op ∈ ops, op.plain = true)) (w : World) :
    Linked (handle (World.play n)) w (p.gather (performed n) (handle (World.play (n + 1))) w)
      ((p.run (handle (World.play (n + 1)))).run w).2 := by
  induction p generalizing w with
  | done a => exact .nil
  | call e next ih =>
    have rest := ih ((handle (World.play (n + 1)) e).run w).1 (hp.2 _)
      ((handle (World.play (n + 1)) e).run w).2
    cases e with
    | perform group actions => exact (play n _ hp.1 w).append rest
    | report notice => exact .notice _ rest
    | _ => exact hp.1.elim

theorem queue (hl : Linked h w turns v) :
    v.queue = (turns.getLast?.elim w (·.after)).queue := by
  induction hl with
  | nil => rfl
  | @notice w v turns notices rest ih =>
    rw [ih]
    cases turns.getLast? <;> rfl
  | @turn w v turns op label plain rest ih =>
    rw [ih, List.getLast?_cons]
    cases turns.getLast? <;> rfl

theorem notices_steady (hw : w.Steady) (notices : List Notice) :
    Steady { w with notices } :=
  ⟨hw.1, ⟨⟨hw.2.hooks, hw.2.failing⟩, hw.2.plain⟩⟩

theorem records (hl : Linked (handle player) w turns v) (hw : w.Steady) (h : w.Records k)
    (lasting : ∀ t ∈ turns, ¬ t.after.Lapsed) : v.Records k := by
  induction hl with
  | nil => exact h
  | notice notices rest ih => exact ih (notices_steady hw notices) h lasting
  | turn label plain rest ih =>
    exact ih (hw.next plain label) (h.next hw plain label (lasting _ List.mem_cons_self))
      fun t ht => lasting t (List.mem_cons_of_mem _ ht)

theorem added (hl : Linked (handle player) w (front ++ edit :: back) v) (hw : w.Steady)
    (added : edit.Adds k) (lasting : ∀ t ∈ edit :: back, ¬ t.after.Lapsed) : v.Records k := by
  generalize split : front ++ edit :: back = turns at hl
  induction hl generalizing front with
  | nil => simp at split
  | notice notices rest ih => exact ih (notices_steady hw notices) split
  | turn label plain rest ih =>
    cases front with
    | nil =>
      -- here the key is added; the links that are left only have to keep it
      obtain ⟨rfl, rfl⟩ := List.cons.inj split
      obtain ⟨⟨g, raws⟩, merges, listed⟩ := added
      have recorded := records_merge hw.2.toQuiet merges label listed
        (lasting _ List.mem_cons_self)
      exact rest.records (hw.next plain label) recorded
        fun t ht => lasting t (List.mem_cons_of_mem _ ht)
    | cons t front => exact ih (hw.next plain label) (List.cons.inj split).2

theorem late (hl : Linked (handle player) w turns v) (hw : w.Steady) (h : w.Late start)
    (forward : ∀ t ∈ turns, t.before.clock ≤ t.after.clock) : v.Late start := by
  induction hl with
  | nil => exact h
  | notice notices rest ih => exact ih (notices_steady hw notices) ⟨h.clock, h.stamp⟩ forward
  | turn label plain rest ih =>
    exact ih (hw.next plain label) (h.next hw plain label (forward _ List.mem_cons_self))
      fun t ht => forward t (List.mem_cons_of_mem _ ht)

theorem merged (hl : Linked (handle player) w turns v) (hw : w.Steady)
    (later : ∃ t ∈ turns, t.MergesAfter start)
    (forward : ∀ t ∈ turns, t.before.clock ≤ t.after.clock) : v.Late start := by
  obtain ⟨t, mem, merges⟩ := later
  induction hl with
  | nil => cases mem
  | notice notices rest ih => exact ih (notices_steady hw notices) forward mem
  | turn label plain rest ih =>
    obtain rfl | mem := List.mem_cons.1 mem
    · obtain ⟨isMerge, after⟩ := merges
      obtain ⟨added, h⟩ := Option.isSome_iff_exists.1 isMerge
      exact rest.late (hw.next plain label)
        (late_merge hw.2.toQuiet h label after (forward _ List.mem_cons_self))
        fun t ht => forward t (List.mem_cons_of_mem _ ht)
    · exact ih (hw.next plain label) (fun t ht => forward t (List.mem_cons_of_mem _ ht)) mem

end Linked

/-- The operations that groups perform while a rebuild enumerates them. -/
def turns (w : World) : List Turn :=
  (Rebuild.start w.settings none).gather (performed (depth - 1)) (handle (play depth)) w

theorem performed_fromGroups (n : Nat) : Rebuild.FromGroups (performed n) := by
  intro e _ he v
  cases e with
  | perform group actions => exact absurd rfl (he group actions)
  | _ => rfl

/-- A key that is added while a rebuild enumerates its groups is in the overlay when the rebuild
returns, and another rebuild is enqueued, provided some merge of the rebuild came after its start
and the overlay did not expire meanwhile. -/
theorem edits_survive (w : World) (undisturbed : w.Undisturbed) (report : Report)
    (committed : ((step (.rebuild none)).run w).1.committed? = some report)
    (forward : ∀ t ∈ w.turns, t.before.clock ≤ t.after.clock)
    (later : ∃ t ∈ w.turns, t.MergesAfter w.clock)
    (front back : List Turn) (edit : Turn) (split : w.turns = front ++ edit :: back)
    (k : Key) (added : edit.Adds k) (lasting : ∀ t ∈ edit :: back, ¬ t.after.Lapsed) :
    let after := ((step (.rebuild none)).run w).2
    ∃ held, after.slots[slot]? = some held ∧ held.expired after.clock = false ∧
      k ∈ held.entry.keys ∧ report.overlay = some (.retained held.entry.stamp) ∧
      (w.queue.closed = false → after.queue.tasks =
        (w.turns.getLast?.elim w (·.after)).queue.tasks ++
          .rebuild none :: refreshes report.difference) := by
  intro after
  have course : SteadyCourse (depth - 1) w.settings none w after report :=
    steady_course undisturbed (course_of_committed committed)
  obtain ⟨begun, reading, filled, moved, building, latest, wrote, freed, stored, cleared, releasing,
    settled, snapshot, difference, finished, gathered⟩ := course
  rename_i read built published released ended old commit metrics
  have linked : Linked (handle (play (depth - 1))) read w.turns built := by
    have run := Linked.listing (n := depth - 1) reading.2.within_ofGroups read
    rw [show ((Build.ofGroups read.registry).run.run _).run read = _ from filled] at run
    rw [show w.turns = _ from gathered _ (performed_fromGroups _)]
    exact run
  -- the entry carries the stamp of the last merge, and that one is late if any is
  have late := linked.merged reading later forward
  obtain ⟨held, hs, live, hk⟩ := (split ▸ linked).added reading added lasting
  obtain ⟨retained, slots, clock, tasks⟩ := afterCommit_retained (by rw [freed.slots, hs])
    (freed.clock ▸ live) (late.stamp held hs) settled
  have now : after.clock = built.clock := by
    rw [finished]
    exact clock.trans freed.clock
  have there : after.slots[slot]? = some held := by
    rw [finished]
    change ended.slots[slot]? = _
    rw [slots, freed.slots, hs]
  refine ⟨held, there, now ▸ live, hk, retained, fun hopen => ?_⟩
  have still : built.queue.closed = w.queue.closed :=
    Moves.same (f := fun w => w.queue.closed) (w := { w with running := true })
      (fun m w _ => (motion_frame m w).2) moved
  have enqueued := tasks (by rw [freed.queue, still, hopen])
  rw [finished]
  change ended.queue.tasks = _
  rw [enqueued, freed.queue, linked.queue, difference]
  cases w.turns.getLast? with
  | none => exact congrArg (fun q : TaskQueue => q.tasks ++ _) begun.queue
  | some t => rfl

def drafted : World where
  registry := [
    .scripted "first" 8 ["Page"] false true none
      [.store (.registered "drafts") ["Early"], .advance (.ofSeconds 1)],
    .fixed "drafts" 8 [] true,
    .scripted "second" 8 ["Page"] false true none
      [.rebuild none, .lookup 8 "Early", .storeFor "drafts" ["Late"]]]

theorem edits_survive_drafted : ∃ report held,
    ((step (.rebuild none)).run drafted).1.committed? = some report ∧
    ((step (.rebuild none)).run drafted).2.slots[slot]? = some held ∧
    (⟨"8:early"⟩ : Key) ∈ held.entry.keys ∧
    report.overlay = some (.retained held.entry.stamp) := by
  have ran : ((step (.rebuild none)).run drafted).1.committed?.isSome = true := by decide +kernel
  obtain ⟨report, committed⟩ := Option.isSome_iff_exists.1 ran
  have first : ∃ edit ∈ drafted.turns.head?, edit.Adds ⟨"8:early"⟩ := by decide +kernel
  obtain ⟨edit, head, added⟩ := first
  obtain ⟨back, split⟩ := List.head?_eq_some_iff.1 head
  have lasting : ∀ t ∈ drafted.turns, ¬ t.after.Lapsed := by decide +kernel
  obtain ⟨held, there, -, recorded, retained, -⟩ :=
    edits_survive drafted ⟨⟨rfl, rfl⟩, by decide⟩ report committed (by decide +kernel)
      (by decide +kernel) [] back edit split ⟨"8:early"⟩ added (split ▸ lasting)
  exact ⟨report, held, committed, there, recorded, retained⟩

def hasty : World where
  registry := [.scripted "editing" 8 ["Page"] false true none
    [.store (.fixed "late" 8 [] true) ["Late"]]]

/-- The bound is inclusive: a key added in the instant of the start is dropped with the entry, and
no other rebuild follows. -/
theorem edit_at_start :
    let ran := (step (.rebuild none)).run hasty
    (∀ t ∈ hasty.turns,
        t.before.clock ≤ t.after.clock ∧ t.Adds ⟨"8:late"⟩ ∧ ¬ t.after.Lapsed) ∧
      hasty.turns.length = 1 ∧ ran.1.committed?.map Report.overlay = some (some (.purged 1)) ∧
      ran.2.slots[slot]?.isNone = true ∧
      ran.2.queue.tasks.map Task.name = ["refresh_group_stats"] := by
  decide +kernel

end ClaimIndex.World
