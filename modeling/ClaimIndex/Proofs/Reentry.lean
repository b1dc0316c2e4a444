import ClaimIndex.Proofs.Edits
import ClaimIndex.Proofs.Modest
import ClaimIndex.Proofs.Parallel
import Mathlib.Logic.Function.Iterate
import Mathlib.Algebra.Ring.Nat

namespace ClaimIndex

namespace Metrics

variable (m : Metrics)

theorem getElem?_raise (name key : String) (x : UInt64) : (m.raise name x).counters[key]? =
    if name = key then some (m.count name + x) else m.counters[key]? := by
  simp only [raise, Std.ExtTreeMap.getElem?_insert, Std.LawfulEqCmp.compare_eq_iff_eq]

theorem raise_comm (name other : String) (x y : UInt64) :
    (m.raise name x).raise other y = (m.raise other y).raise name x := by
  have counters : ((m.raise name x).raise other y).counters =
      ((m.raise other y).raise name x).counters := by
    apply Std.ExtTreeMap.ext_getElem?
    intro key
    simp only [getElem?_raise, count]
    by_cases same : name = other
    · subst same
      by_cases found : name = key
      · simp only [found, if_true, Option.getD_some, UInt64.add_assoc, UInt64.add_comm x y]
      · simp only [found, if_false]
    · simp only [same, Ne.symm same, if_false]
      by_cases found : name = key
      · simp only [found, if_true, Ne.symm (found ▸ same), if_false]
      · simp only [found, if_false]
  exact congrArg (fun counters => { m with counters }) counters

theorem raise_set (name gauge : String) (x value : UInt64) :
    (m.set gauge value).raise name x = (m.raise name x).set gauge value := rfl

theorem raise_observe (name histogram : String) (x : UInt64) (value : Binary64) :
    (m.observe histogram value).raise name x = (m.raise name x).observe histogram value := rfl

theorem record_skipped (event : Event) :
    (m.record event).record .skipped = (m.record .skipped).record event := by
  cases event with
  | lookup source =>
    cases source <;> simp only [record, sourceCounter?, Option.elim, raise_comm _ Name.skipped]
  | rebuilt keys conflicts changed wait critical =>
    simp only [record]
    rw [raise_observe, raise_observe, raise_set, raise_set, raise_comm _ Name.changedKeys,
      raise_set _ Name.skipped, raise_set _ Name.skipped, raise_comm _ Name.rebuilds]
  | _ => exact raise_comm ..

def skips (n : Nat) : Metrics := (fun m : Metrics => m.record .skipped)^[n] m

theorem skips_skips (a b : Nat) : (m.skips a).skips b = m.skips (a + b) := by
  rw [Nat.add_comm]
  exact (Function.iterate_add_apply _ b a m).symm

theorem skips_record (n : Nat) (event : Event) :
    (m.record event).skips n = (m.skips n).record event :=
  Function.Commute.iterate_left (f := fun m : Metrics => m.record .skipped)
    (g := fun m : Metrics => m.record event) (fun m => m.record_skipped event) n m

end Metrics

def Operation.requests (w : World) : Operation → Nat
  | rebuild _ | rebuildSnapshot _ | execute (.rebuild _) => 1
  | executeAll => w.queue.tasks.countP (· matches .rebuild _)
  | _ => 0

def Operation.Skips : Operation → Answer → Prop
  | rebuild _, answer => answer = .report (.ok { skipped := true })
  | rebuildSnapshot _, answer => answer = .snapshot (.ok ∅)
  | execute (.rebuild _), answer => answer = .outcome (.ok ())
  | executeAll, answer => ∃ tasks : List Task, answer = .executed (tasks.map (·, .ok ()))
  | _, _ => True

namespace World

variable {w v u : World} {m n a b : Nat} {player : Player}

def Turn.requests (t : Turn) : Nat := t.operation.requests t.before

def core (w : World) : World :=
  { w with registry := [], metrics := {}, nested := [], notices := [] }

/-- Two worlds that differ by `n` skipped rebuilds in the first and `m` in the second. -/
structure Beside (m n : Nat) (w v : World) : Prop where
  same : w.core = v.core
  groups : w.registry.map Group.modest = v.registry.map Group.modest
  counts : w.metrics.skips m = v.metrics.skips n
  warned : w.notices.filter (· ≠ .nestedRebuild) = v.notices.filter (· ≠ .nestedRebuild)

namespace Beside

theorem refl (w : World) : Beside 0 0 w w := ⟨rfl, rfl, rfl, rfl⟩

theorem symm (h : Beside m n w v) : Beside n m v w :=
  ⟨h.same.symm, h.groups.symm, h.counts.symm, h.warned.symm⟩

theorem trans (h : Beside m n w v) (h' : Beside a b v u) : Beside (m + a) (n + b) w u where
  same := h.same.trans h'.same
  groups := h.groups.trans h'.groups
  counts := by
    rw [← Metrics.skips_skips, h.counts, Metrics.skips_skips, Nat.add_comm n a,
      ← Metrics.skips_skips, h'.counts, Metrics.skips_skips, Nat.add_comm b n]
  warned := h.warned.trans h'.warned

theorem running (h : Beside m n w v) : w.running = v.running :=
  show w.core.running = v.core.running by rw [h.same]

theorem skipped (h : Beside m n w v) : Beside m (n + 1) { w with
    notices := w.notices ++ [.nestedRebuild], metrics := w.metrics.record .skipped } v where
  same := h.same
  groups := h.groups
  counts := by
    rw [Metrics.skips_record, h.counts]
    exact v.metrics.skips_skips n 1
  warned := by simpa using h.warned

end Beside

theorem reply_core {e : Effect} (he : e.Plain) (w : World) :
    ((reply idle e).run w.core).1 = ((reply idle e).run w).1 ∧
      ((reply idle e).run w.core).2.core = ((reply idle e).run w).2.core := by
  cases e with
  | groups | perform | leave => exact he.elim
  | enqueue task =>
    rw [reply_enqueue, reply_enqueue]
    rw [show w.core.queue = w.queue from rfl]
    cases w.queue.enqueue task <;> exact ⟨rfl, rfl⟩
  | acquire =>
    rw [reply_acquire, reply_acquire]
    exact ⟨rfl, rfl⟩
  | writeStore s c =>
    rw [reply_writeStore, reply_writeStore]
    exact ⟨rfl, rfl⟩
  | _ => exact ⟨rfl, rfl⟩

theorem reply_told {e : Effect} (he : e.Plain) (w : World) :
    ((reply idle e).run w).2.metrics = (match e with
      | .record event => w.metrics.record event
      | _ => w.metrics) ∧
    ((reply idle e).run w).2.notices = match e with
      | .report notice => w.notices ++ [notice]
      | _ => w.notices := by
  cases e with
  | groups | perform | leave => exact he.elim
  | enqueue task =>
    obtain ⟨tasks, e⟩ := exists_tasks idle task w
    rw [e]
    exact ⟨rfl, rfl⟩
  | _ => exact ⟨rfl, rfl⟩

theorem Beside.reply {e : Effect} (he : e.Plain) (h : Beside m n w v) :
    ((reply idle e).run w).1 = ((World.reply idle e).run v).1 ∧
      Beside m n ((World.reply idle e).run w).2 ((World.reply idle e).run v).2 := by
  have other : ∀ group actions, e ≠ .perform group actions := by
    rintro group actions rfl
    exact he
  obtain ⟨-, -, enrolled, -⟩ := reply_frame idle other w
  obtain ⟨-, -, enrolled', -⟩ := reply_frame idle other v
  obtain ⟨answer, core⟩ := reply_core he w
  obtain ⟨answer', core'⟩ := reply_core he v
  obtain ⟨counts, warned⟩ := reply_told he w
  obtain ⟨counts', warned'⟩ := reply_told he v
  rw [h.same] at answer core
  refine ⟨answer.symm.trans answer', core.symm.trans core', ?_, ?_, ?_⟩
  · rw [enrolled, enrolled', h.groups]
  · rw [counts, counts']
    cases e with
    | record event => rw [Metrics.skips_record, Metrics.skips_record, h.counts]
    | _ => exact h.counts
  · rw [warned, warned']
    cases e with
    | report notice => rw [List.filter_append, List.filter_append, h.warned]
    | _ => exact h.warned

theorem direct_core {op : Operation} (hop : op.Direct) (h : Handler World) (w : World) :
    ((op.perform h).run w.core).2.core = ((op.perform h).run w).2.core ∧
      ((op.perform h).run w).2.metrics = w.metrics ∧
      ((op.perform h).run w).2.notices = w.notices ∧
      ((op.perform h).run w).2.running = w.running := by
  cases op with
  | acquire => exact ⟨(reply_core (e := .acquire) trivial w).2, rfl, rfl, rfl⟩
  | overlaySize | advance | setClock | register | unregister | sync | pending | drain | release
  | held | token | changes | metrics | rebuilding | settings | accepts | fail | hook =>
    exact ⟨rfl, rfl, rfl, rfl⟩
  | _ => exact hop.elim

theorem direct_groups {op : Operation} (hop : op.Direct) (h : Handler World)
    (same : w.registry.map Group.modest = v.registry.map Group.modest) :
    ((op.perform h).run w).2.registry.map Group.modest =
      ((op.perform h).run v).2.registry.map Group.modest := by
  have registered (w : World) (g : Group) :
      (w.registry ++ [g.resolve w.registry]).map Group.modest =
        w.registry.map Group.modest ++ [g.modest.resolve (w.registry.map Group.modest)] := by
    rw [List.map_append, List.map_singleton, Group.modest_resolve]
  have removed (w : World) (id : GroupId) : (w.registry.filter (·.id ≠ id)).map Group.modest =
      (w.registry.map Group.modest).filter (·.id ≠ id) := by
    simp only [List.filter_map, Function.comp_def, Group.id_modest]
  cases op with
  | register g => exact (registered w g).trans (same ▸ (registered v g).symm)
  | unregister id => exact (removed w id).trans (same ▸ (removed v id).symm)
  | overlaySize | advance | setClock | sync | pending | drain | acquire | release | held | token
  | changes | metrics | rebuilding | settings | accepts | fail | hook => exact same
  | _ => exact hop.elim

theorem accord_beside (m n : Nat) :
    Accord (fun w v => Beside m n w v ∧ w.Running) fun _ _ => True where
  running h := ⟨h.2, h.1.running.symm.trans h.2⟩
  settings {w v} h := show w.core.settings = v.core.settings by rw [h.1.same]
  hooks {w v} h := show w.core.hooks = v.core.hooks by rw [h.1.same]
  failing {w v} h := show w.core.failing = v.core.failing by rw [h.1.same]
  queue {w v} h := show w.core.queue = v.core.queue by rw [h.1.same]
  groups h := by
    have told := congrArg (List.map fun g : Group => (g.id, g.space)) h.1.groups
    simpa only [List.map_map, Function.comp_def, Group.id_modest, Group.space_modest] using told
  waiting hooks h :=
    ⟨⟨congrArg (fun w : World => { w with hooks }) h.1.same, h.1.groups, h.1.counts, h.1.warned⟩,
      h.2⟩
  note _ h _ := ⟨⟨h.1.same, h.1.groups, h.1.counts, h.1.warned⟩, h.2⟩
  reply e he w v h := by
    have plain : e.Plain := by
      cases e with
      | groups | perform | leave => exact he
      | _ => trivial
    refine ⟨(h.1.reply plain).1, (h.1.reply plain).2, h.2.reply ?_⟩
    rintro rfl
    exact he
  direct op k hop w v h := by
    obtain ⟨core, counts, warned, running⟩ := direct_core hop k w
    obtain ⟨core', counts', warned', -⟩ := direct_core hop k v
    rw [h.1.same] at core
    refine ⟨trivial, ⟨core.symm.trans core', direct_groups hop k h.1.groups, ?_, ?_⟩,
      running.trans h.2⟩
    · rw [counts, counts', h.1.counts]
    · rw [warned, warned', h.1.warned]
  refl _ := trivial

theorem Beside.noted (h : Beside m n w v) (label : String) (answer : Answer) :
    Beside m n ((Motion.note label answer).apply w) v := ⟨h.same, h.groups, h.counts, h.warned⟩

theorem execute_running (player : Player) (hw : w.Running) (s : Settings) (purge : Option Instant) :
    (((Task.rebuild purge).execute s).run (handle player)).run w = (.ok (),
      { w with
        notices := w.notices ++ [.nestedRebuild], metrics := w.metrics.record .skipped }) := by
  rw [Task.execute, Proc.run_bind]
  exact congrArg (fun r : Except Fault Report × World => (r.1.map fun _ => (), r.2))
    (start_running player hw s purge)

theorem Beside.executed (h : Beside m n w v) (player : Player) (hw : w.Running) (s : Settings)
    (ts : List Task) :
    ((Operation.executeTasks (handle player) s ts).run w).1 = ts.map (·, .ok ()) ∧
      Beside m (n + ts.countP (· matches .rebuild _))
        ((Operation.executeTasks (handle player) s ts).run w).2 v := by
  induction ts generalizing w n with
  | nil => exact ⟨rfl, h⟩
  | cons t ts ih =>
    let first := ((t.execute s).run (handle player)).run w
    change (t, first.1) :: ((Operation.executeTasks (handle player) s ts).run first.2).1 = _ ∧
      Beside m _ ((Operation.executeTasks (handle player) s ts).run first.2).2 v
    cases t with
    | rebuild purge =>
      obtain ⟨answers, rest⟩ := ih h.skipped hw
      rw [show first = _ from execute_running _ hw s purge, answers, List.countP_cons_of_pos rfl,
        Nat.add_comm _ 1, ← Nat.add_assoc]
      exact ⟨rfl, rest⟩
    | refreshStatistics groups =>
      obtain ⟨answers, rest⟩ := ih h hw
      rw [show first = (.ok (), w) from rfl, answers, List.countP_cons_of_neg Bool.false_ne_true]
      exact ⟨rfl, rest⟩

theorem Beside.operation (h : Beside m n w v) (hw : w.Running) (depth : Nat) (label : String)
    (op : Operation) : Beside m (n + op.requests w) (next (handle (play depth)) label op w)
      ((play (depth + 1) label op.modest).run v).2 := by
  have H := accord_beside m n
  have other (h : Beside m n w v) : Beside m n (next (handle (play depth)) label op w)
      (next (handle (play depth)) label op v) :=
    have performed := (H.perform (H.play depth) op ⟨h, hw⟩).2
    (H.note label performed trivial).1
  have refused := start_running (play depth) hw w.settings
  cases op with
  | rebuild purge | rebuildSnapshot purge =>
    refine Beside.noted ?_ label _
    change Beside m (n + 1) (((Rebuild.start w.settings purge).run (handle (play depth))).run w).2 v
    rw [refused]
    exact h.skipped
  | execute task =>
    cases task with
    | rebuild purge =>
      refine Beside.noted ?_ label _
      change Beside m (n + 1)
        ((((Task.rebuild purge).execute w.settings).run (handle (play depth))).run w).2 v
      rw [execute_running _ hw]
      exact h.skipped
    | refreshStatistics groups => exact other h
  | executeAll =>
    refine Beside.noted ?_ label _
    have drained : Beside m n { w with queue := w.queue.drain.2 }
        (next (handle (play depth)) label .drain v) :=
      ((H.direct .drain (handle (play depth)) trivial ⟨h, hw⟩).2.1.symm.noted label _).symm
    exact (drained.executed _ hw w.settings w.queue.tasks).2
  | _ => exact other h

theorem play_append (depth : Nat) (label : String) (ops ops' : List Operation) (w : World) :
    (play (depth + 1) label (ops ++ ops')).run w =
      (play (depth + 1) label ops').run ((play (depth + 1) label ops).run w).2 := by
  induction ops generalizing w with
  | nil => rfl
  | cons op ops ih => exact ih (next (handle (play depth)) label op w)

theorem next_running (hw : w.Running) (depth : Nat) (label : String) (op : Operation) :
    (next (handle (play depth)) label op w).Running :=
  (ordinary_play (depth + 1) label [op] w hw).running Motion.kind_ordinary hw

theorem Beside.modest (h : Beside m n w v) (hw : w.Running) (depth : Nat) (label : String)
    (ops : List Operation) :
    Beside m (n + ((trail (handle (play depth)) label ops w).map Turn.requests).sum)
      ((play (depth + 1) label ops).run w).2
      ((play (depth + 1) label (ops.flatMap Operation.modest)).run v).2 := by
  induction ops generalizing w v n with
  | nil => exact h
  | cons op ops ih =>
    have rest := ih (h.operation hw depth label op) (next_running hw depth label op)
    rw [trail, List.map_cons, List.sum_cons, ← Nat.add_assoc, play_cons, List.flatMap_cons,
      play_append]
    exact rest

theorem Beside.script (h : Beside m n w v) (hw : w.Running) (depth : Nat) (label : String)
    {ops ops' : List Operation}
    (same : ops.flatMap Operation.modest = ops'.flatMap Operation.modest) :
    Beside (m + ((trail (handle (play depth)) label ops' v).map Turn.requests).sum)
      (n + ((trail (handle (play depth)) label ops w).map Turn.requests).sum)
      ((play (depth + 1) label ops).run w).2 ((play (depth + 1) label ops').run v).2 := by
  have first := h.modest hw depth label ops
  have second := (Beside.refl v).modest (h.running.symm.trans hw) depth label ops'
  rw [← same, Nat.zero_add] at second
  exact first.trans second.symm

theorem Beside.plain (h : Beside m n w v) (hw : w.Running) (depth : Nat) {e : Effect}
    (he : e.Plain) :
    ((handle (play depth) e).run w).1 = ((handle (play depth) e).run v).1 ∧
      Beside m n ((handle (play depth) e).run w).2 ((handle (play depth) e).run v).2 := by
  have H := accord_beside m n
  have hook := lockstep_runHook (fun _ _ => H.hooks) (fun _ _ => H.waiting) (H.play depth)
  have replied : Lockstep (fun w v => Beside m n w v ∧ w.Running)
      (fun w v => Beside m n w v ∧ w.Running) Eq (World.reply (play depth) e)
      (World.reply (play depth) e) := by
    intro w v h
    rw [reply_eq_idle (by rintro group actions rfl; exact he)]
    refine ⟨(h.1.reply he).1, (h.1.reply he).2, h.2.reply ?_⟩
    rintro rfl
    exact he
  have handled := lockstep_handle (fun _ _ _ => rfl) (fun _ _ => H.failing) (fun _ _ => id) hook
    hook replied ⟨h, hw⟩
  exact ⟨handled.1, handled.2.1⟩

def requested {α : Type} (depth : Nat) (p : Proc α) (w : World) : Nat :=
  ((p.gather (performed depth) (handle (play (depth + 1))) w).map Turn.requests).sum

theorem requested_call {α : Type} (depth : Nat) {e : Effect} {next : e.Reply → Proc α} (w : World) :
    requested depth (.call e next) w = ((performed depth e w).map Turn.requests).sum +
      requested depth (next ((handle (play (depth + 1)) e).run w).1)
        ((handle (play (depth + 1)) e).run w).2 := by
  rw [requested, Proc.gather_call, List.map_append, List.sum_append]
  rfl

theorem Beside.mirror {α : Type} {p q : Proc α} (hpq : p.Mirror q) (h : Beside m n w v)
    (hw : w.Running) (depth : Nat) :
    ((p.run (handle (play (depth + 1)))).run w).1 = ((q.run (handle (play (depth + 1)))).run v).1 ∧
      Beside (m + requested depth q v) (n + requested depth p w)
        ((p.run (handle (play (depth + 1)))).run w).2
        ((q.run (handle (play (depth + 1)))).run v).2 := by
  induction hpq generalizing w v m n with
  | done a => exact ⟨rfl, h⟩
  | @call e next next' plain rest ih =>
    obtain ⟨same, beside⟩ := h.plain hw (depth + 1) plain
    have still := hw.handle (e := e) (by rintro rfl; exact plain) (depth + 1)
    have silent (w : World) : performed depth e w = [] := by
      cases e with
      | perform => exact plain.elim
      | _ => rfl
    have after := ih ((handle (play (depth + 1)) e).run w).1 beside still
    rw [show next' ((handle (play (depth + 1)) e).run w).1 = _ from congrArg next' same] at after
    rw [requested_call, requested_call, silent, silent, List.map_nil, List.sum_nil, Nat.zero_add,
      Nat.zero_add]
    exact after
  | groups rest ih => exact ih _ _ h.groups h hw
  | @perform id ops ops' next next' same rest ih =>
    have scripts := h.script hw depth ("group " ++ id) same
    have still := hw.handle (e := .perform id ops) nofun (depth + 1)
    obtain ⟨answers, after⟩ := ih () scripts still
    refine ⟨answers, ?_⟩
    rw [requested_call, requested_call, ← Nat.add_assoc, ← Nat.add_assoc]
    exact after

def turnsOf (w : World) (purge : Option Instant) : List Turn :=
  (Rebuild.start w.settings purge).gather (performed (depth - 1)) (handle (play depth)) w

theorem turnsOf_idle (hw : w.running = false) (purge : Option Instant) :
    w.turnsOf purge = (Rebuild.attempt w.settings purge).gather (performed (depth - 1))
      (handle (play depth)) { w with running := true } :=
  gather_start_idle (fun _ => ⟨rfl, rfl⟩) hw w.settings purge

theorem trail_running (hw : w.Running) (depth : Nat) (label : String) (ops : List Operation) :
    ∀ t ∈ trail (handle (play depth)) label ops w, t.before.Running := by
  induction ops generalizing w with
  | nil => exact fun t ht => (List.not_mem_nil ht).elim
  | cons op ops ih =>
    intro t ht
    obtain rfl | ht := List.mem_cons.1 ht
    · exact hw
    · exact ih (next_running hw depth label op) t ht

theorem turns_running (hw : w.running = false) (purge : Option Instant) :
    ∀ t ∈ w.turnsOf purge, t.before.Running := by
  rw [turnsOf_idle hw]
  refine (Rebuild.mirror_attempt w.settings purge).within.forall_gather (I := Running)
    (fun e he v hv => hv.handle he depth) (fun e _ v hv t ht => ?_) rfl
  cases e with
  | perform group actions => exact trail_running hv _ _ actions t ht
  | _ => cases ht

theorem skips_perform (hw : w.Running) (depth : Nat) (op : Operation) :
    op.Skips ((op.perform (handle (play depth))).run w).1 := by
  have refused := start_running (play depth) hw w.settings
  cases op with
  | rebuild purge => exact congrArg (fun r => Answer.report r.1) (refused purge)
  | rebuildSnapshot purge =>
    exact congrArg (fun r => Answer.snapshot (r.1.map Report.snapshot)) (refused purge)
  | execute task =>
    cases task with
    | rebuild purge =>
      exact congrArg (fun r => Answer.outcome r.1) (execute_running (play depth) hw _ purge)
    | refreshStatistics groups => trivial
  | executeAll =>
    have drained :
        Beside 0 0 { w with queue := w.queue.drain.2 } { w with queue := w.queue.drain.2 } :=
      .refl _
    exact ⟨w.queue.tasks, congrArg Answer.executed
      (drained.executed (play depth) hw w.settings w.queue.tasks).1⟩
  | _ => trivial

theorem requests_modest {op left : Operation} (h : left ∈ op.modest) (w : World) :
    left.requests w = 0 := by
  cases op with
  | execute task =>
    cases task with
    | rebuild purge => cases h
    | refreshStatistics groups => exact List.mem_singleton.1 h ▸ rfl
  | rebuild | rebuildSnapshot => cases h
  | _ => exact List.mem_singleton.1 h ▸ rfl

theorem mem_trail {h : Handler World} {label : String} {ops : List Operation} {t : Turn}
    (ht : t ∈ trail h label ops w) : t.operation ∈ ops := by
  induction ops generalizing w with
  | nil => cases ht
  | cons op ops ih =>
    obtain rfl | ht := List.mem_cons.1 ht
    · exact List.mem_cons_self
    · exact List.mem_cons_of_mem _ (ih ht)

theorem requests_quiet (hw : w.running = false) (unhooked : w.hooks = []) (purge : Option Instant)
    (groups : List Group) (modest : w.registry = groups.map Group.modest) :
    ((w.turnsOf purge).map Turn.requests).sum = 0 := by
  refine List.sum_eq_zero_iff_forall_eq_nat.2 fun n hn => ?_
  obtain ⟨t, ht, rfl⟩ := List.mem_map.1 hn
  rw [turnsOf_idle hw] at ht
  have keeps (e : Effect) (he : Rebuild.Opening e) (v : World)
      (hv : v.hooks = [] ∧ v.registry = w.registry) :
      ((handle (play depth) e).run v).2.hooks = [] ∧
        ((handle (play depth) e).run v).2.registry = w.registry := opening_keeps he hv
  have opened : ({ w with running := true } : World).hooks = [] ∧
      ({ w with running := true } : World).registry = w.registry := ⟨unhooked, rfl⟩
  obtain ⟨v, ⟨-, registered⟩, found⟩ := Rebuild.mem_gather_attempt (performed_fromGroups _)
    (I := fun v => v.hooks = [] ∧ v.registry = w.registry) keeps opened ht
  have enumerated : t ∈ (Build.ofGroups v.registry).run.gather (performed (depth - 1))
      (handle (play depth)) v := found.resolve_left List.not_mem_nil
  have within : (Build.ofGroups v.registry).run.Within (Build.Listing fun actions =>
      ∃ ops : List Operation, actions = ops.flatMap Operation.modest) := by
    refine Build.within_ofGroups fun g hg actions h => ?_
    rw [registered, modest] at hg
    obtain ⟨g, -, rfl⟩ := List.mem_map.1 hg
    exact g.scripts_modest actions h
  refine within.forall_gather (I := fun _ => True) (P := fun t => t.requests = 0)
    (fun _ _ _ _ => trivial) ?_ trivial t enumerated
  intro e he v _ t ht
  cases e with
  | perform group actions =>
    obtain ⟨ops, rfl⟩ := he
    obtain ⟨op, -, left⟩ := List.mem_flatMap.1 (mem_trail ht)
    exact requests_modest left t.before
  | _ => cases ht

theorem ran_start (player : Player) (hw : w.running = false) (s : Settings)
    (purge : Option Instant) {report : Report}
    (h : (((Rebuild.start s purge).run (handle player)).run w).1 = .ok report) :
    report.skipped = false := by
  rw [start_idle player hw] at h
  cases hy : ((Rebuild.attempt s purge).run (handle player)).run { w with running := true } with
  | mk answer ended =>
    rw [hy] at h
    obtain rfl : answer = .ok report := h
    exact Rebuild.ran_attempt hy

/-- The requests for rebuilds that groups make while a rebuild enumerates them are skipped, and
leave the rebuild and the world as they are without them but for the count of skipped rebuilds and
a warning of each.  Whatever comes of the rebuild, it keeps no later one from running. -/
theorem reentrant_rebuilds (w : World) (idle : w.running = false) (purge : Option Instant) :
    let quiet : World := { w with registry := w.registry.map Group.modest }
    let ran := (step (.rebuild purge)).run w
    let left := (step (.rebuild purge)).run quiet
    (∀ t ∈ w.turnsOf purge,
      t.operation.Skips ((t.operation.perform (handle (play (depth - 1)))).run t.before).1) ∧
    ran.1 = left.1 ∧
    Beside ((quiet.turnsOf purge).map Turn.requests).sum ((w.turnsOf purge).map Turn.requests).sum
      ran.2 left.2 ∧
    (w.hooks = [] → ((quiet.turnsOf purge).map Turn.requests).sum = 0) ∧
    ran.2.running = false ∧
    ∀ later report, ((step (.rebuild later)).run ran.2).1 = .report (.ok report) →
      report.skipped = false := by
  intro quiet ran left
  have alone : Beside 0 0 { w with running := true } { quiet with running := true } := by
    refine ⟨rfl, ?_, rfl, rfl⟩
    change w.registry.map _ = (w.registry.map _).map _
    simp only [List.map_map, Function.comp_def, Group.modest_modest]
  obtain ⟨same, beside⟩ := alone.mirror (Rebuild.mirror_attempt w.settings purge) rfl (depth - 1)
  rw [Nat.zero_add, Nat.zero_add] at beside
  have started : ran = (.report _, _) := congrArg
    (fun r : Except Fault Report × World => (Answer.report r.1, r.2)) (start_idle _ idle _ _)
  have quieted : left = (.report _, _) := congrArg
    (fun r : Except Fault Report × World => (Answer.report r.1, r.2))
    (start_idle (w := quiet) _ idle _ _)
  have freed : ran.2.running = false := by rw [started]
  refine ⟨fun t ht => skips_perform (turns_running idle purge t ht) _ _, ?_, ?_, ?_, freed, ?_⟩
  · rw [started, quieted]
    exact congrArg Answer.report same
  · rw [started, quieted, turnsOf_idle idle, turnsOf_idle (w := quiet) idle]
    exact ⟨congrArg (fun w : World => { w with running := false }) beside.same, beside.groups,
      beside.counts, beside.warned⟩
  · exact fun unhooked => requests_quiet (w := quiet) idle unhooked purge w.registry rfl
  · intro later report answered
    exact ran_start (play depth) freed _ later (Answer.report.inj answered)

def insistent : World where
  queue := { tasks := [.rebuild none, .refreshStatistics ∅, .rebuild (some (.ofNat 5))] }
  registry := [
    .aggregate "all" 8 [.scripted "member" 8 ["Foo"] false true none
      [.rebuild none, .store (.registered "a") ["Bar"], .executeAll]],
    .scripted "a" 8 ["Foo"] false true none
      [.execute (.rebuild none), .lookup 8 "Bar", .rebuildSnapshot (some (.ofNat 3)), .executeAll],
    .scripted "broken" 8 [] true true (some "gone") [.advance (.ofSeconds 1), .rebuild none]]

theorem reentrant_rebuilds_insistent :
    let quiet : World := { insistent with registry := insistent.registry.map Group.modest }
    let ran := (step (.rebuild none)).run insistent
    let left := (step (.rebuild none)).run quiet
    ran.1.committed?.isNone = true ∧ ran.1 = left.1 ∧ Beside 0 6 ran.2 left.2 ∧
      ran.2.metrics.count Metrics.Name.skipped = 6 ∧ ran.2.running = false := by
  have asked : ((insistent.turnsOf none).map Turn.requests).sum = 6 := by decide +kernel
  have counted : ((step (.rebuild none)).run insistent).1.committed?.isNone = true ∧
      ((step (.rebuild none)).run insistent).2.metrics.count Metrics.Name.skipped = 6 := by
    decide +kernel
  obtain ⟨-, same, beside, unasked, freed, -⟩ := reentrant_rebuilds insistent rfl none
  rw [asked, unasked rfl] at beside
  exact ⟨counted.1, same, beside, counted.2, freed⟩

end World

end ClaimIndex
