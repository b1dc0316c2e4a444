import ClaimIndex.Proofs.Tallies

namespace ClaimIndex

def Effect.counted : Effect → Bool
  | record .sideEffectFailed | record .lockUnavailable => false
  | record _ | enqueue (.rebuild _) => true
  | _ => false

def Effect.Uncounted (e : Effect) : Prop := e.counted = false

def counted (trail : List Exchange) : List Exchange := trail.filter (·.effect.counted)

theorem counted_append (front back : List Exchange) :
    counted (front ++ back) = counted front ++ counted back :=
  List.filter_append ..

theorem Proc.Within.counted {α : Type} {p : Proc α} {trail : List Exchange} {a : α}
    (hp : p.Within Effect.Uncounted) (h : p.Leads trail a) : ClaimIndex.counted trail = [] :=
  List.filter_eq_nil_iff.2 fun x hx => by simp [show x.effect.counted = false from hp.leads h x hx]

theorem Proc.Within.counted_bind {α β : Type} {p : Proc α} {f : α → Proc β}
    {trail : List Exchange} {b : β} (hp : p.Within Effect.Uncounted)
    (h : (p >>= f).Leads trail b) :
    ∃ rest a, ClaimIndex.counted trail = ClaimIndex.counted rest ∧ (f a).Leads rest b := by
  obtain ⟨front, rest, a, rfl, led, h⟩ := leads_bind.1 h
  exact ⟨rest, a, by rw [counted_append, hp.counted led, List.nil_append], h⟩

theorem Proc.counted_ask {α : Type} {e : Effect} {f : e.Reply → Proc α} {trail : List Exchange}
    {a : α} (he : e.counted = false) (h : (ask e >>= f).Leads trail a) :
    ∃ rest r, ClaimIndex.counted trail = ClaimIndex.counted rest ∧ (f r).Leads rest a :=
  Within.counted_bind (.ask he) h

def Exchange.count (event : Metrics.Event) : Exchange := ⟨.record event, ()⟩

namespace Rebuild

open Proc (ask leads_bind leads_ask leads_pure)

variable {s : Settings} {purge : Option Instant} {trail : List Exchange}

theorem uncounted_lock : (lock s).Within Effect.Uncounted := by
  refine .bind (.ask rfl) fun asked => .bind (.ask rfl) fun taken => ?_
  match taken with
  | .error fault => exact .pure
  | .ok false => exact .bind (.ask rfl) fun _ => .bind (.ask rfl) fun _ => .pure
  | .ok true =>
    exact .bind (.ask rfl) fun _ => .bind (.ask rfl) fun _ => .bind (.ask rfl) fun _ => .pure

theorem uncounted_publish : publish.run.Within Effect.Uncounted := by
  refine requests_publish.mono fun e he => ?_
  obtain drafting | ⟨s, c, rfl⟩ := he
  · cases e with
    | readStore | groups | perform | report => rfl
    | _ => exact drafting.elim
  · rfl

theorem uncounted_unlock : unlock.Within Effect.Uncounted := by
  refine .bind (.ask rfl) fun released => ?_
  have rest : (do
      let left ← ask .uptime
      ask .clearCache
      return left : Proc Nat).Within Effect.Uncounted :=
    .bind (.ask rfl) fun _ => .bind (.ask rfl) fun _ => .pure
  cases released with
  | error fault => exact .bind (.ask rfl) fun _ => .bind (.ask rfl) fun _ => rest
  | ok _ => exact rest

theorem uncounted_abandon : abandon.Within Effect.Uncounted := by
  refine .bind (.ask rfl) fun released => ?_
  cases released with
  | error fault => exact .ask (E := Effect.Uncounted) rfl
  | ok _ => exact .pure

theorem uncounted_sideEffectFailed (step : SideEffect) :
    (sideEffectFailed step).Within Effect.Uncounted :=
  .bind (.ask rfl) fun _ => .ask rfl

theorem uncounted_touch : (touch s).Within Effect.Uncounted := by
  refine .bind (.ask rfl) fun touched => ?_
  cases touched with
  | error fault => exact uncounted_sideEffectFailed _
  | ok _ => exact .pure

theorem uncounted_notify (change : ChangeKind × Key × Change) :
    (notify change).Within Effect.Uncounted := by
  obtain ⟨kind, key, change⟩ := change
  simp only [notify]
  split
  · exact .ask (E := Effect.Uncounted) rfl
  · exact .ask (E := Effect.Uncounted) rfl

theorem uncounted_announce (difference : Difference) :
    (announce difference).Within Effect.Uncounted := by
  unfold announce
  refine .bind ?_ fun _ => ?_
  · induction difference.changes.toList with
    | nil => exact .pure
    | cons change changes ih => exact .bind (uncounted_notify change) fun _ => ih
  · split
    · exact .pure
    · have asked : (Effect.enqueue (.refreshStatistics difference.touched)).Uncounted := rfl
      refine .bind (.ask asked) fun taken => ?_
      cases taken with
      | error fault => exact uncounted_sideEffectFailed _
      | ok _ => exact .pure

theorem Sweeping.uncounted {bound : Instant} {e : Effect} (he : Sweeping bound e) :
    e.Uncounted := by
  cases e with
  | readOverlay | dropOverlay => rfl
  | _ => exact he.elim

def aftermath : Option Overlay.Outcome → Except Fault Unit → List Exchange
  | some (.purged _), _ => [.count .purged]
  | some (.retained _), taken => .count .retained :: ⟨.enqueue (.rebuild none), taken⟩ ::
    taken.toOption.elim [] fun _ => [.count .followUp]
  | some .empty, _ | none, _ => []

theorem counted_respond {found : Except Fault (Option Overlay.Outcome)}
    {outcome : Option Overlay.Outcome} (h : (respond found).Leads trail outcome) :
    ∃ taken, counted trail = aftermath outcome taken := by
  match found with
  | .error fault =>
    obtain ⟨front, _, _, rfl, failed, rfl, rfl⟩ := leads_bind.1 h
    refine ⟨.ok (), ?_⟩
    rw [List.append_nil, (uncounted_sideEffectFailed _).counted failed]
    rfl
  | .ok none | .ok (some .empty) =>
    obtain ⟨rfl, rfl⟩ := h
    exact ⟨.ok (), rfl⟩
  | .ok (some (.purged keys)) =>
    obtain ⟨front, _, _, rfl, recorded, rfl, rfl⟩ := leads_bind.1 h
    rw [leads_ask.1 recorded]
    exact ⟨.ok (), rfl⟩
  | .ok (some (.retained stamp)) =>
    obtain ⟨front, _, _, rfl, recorded, h⟩ := leads_bind.1 h
    obtain ⟨asking, _, _, rfl, enqueued, rfl, rfl⟩ := leads_bind.1 h
    obtain ⟨queued, rest, taken, rfl, asked, answered⟩ := leads_bind.1 enqueued
    refine ⟨taken, ?_⟩
    rw [leads_ask.1 recorded, leads_ask.1 asked]
    cases taken with
    | ok u =>
      rw [leads_ask.1 answered]
      rfl
    | error fault =>
      rw [List.append_nil, counted_append, counted_append,
        (uncounted_sideEffectFailed _).counted answered]
      rfl

def account (taken : Except Fault Unit) : Except Fault Report → List Exchange
  | .error _ => [.count .failed]
  | .ok report =>
    if report.skipped then [.count .skipped]
    else aftermath report.overlay taken ++ [
      .count (.conflicts report.reported.length),
      .count (.rebuilt report.snapshot.size report.snapshot.conflictCount
        report.difference.changes.size report.lockWait report.criticalSection)]

theorem counted_settle {commit : Commit} {bound : Instant} {asked taken left : Nat}
    {report : Report} (h : (settle s commit bound asked taken left).Leads trail report) :
    ∃ queued, counted trail = account queued (.ok report) := by
  obtain ⟨following, outcome, rfl, followed, rfl⟩ := leads_settle h
  obtain ⟨touching, looking, responding, announcing, found, rfl, touched, looked, responded,
    announced⟩ := leads_afterCommit followed
  obtain ⟨queued, answered⟩ := counted_respond responded
  refine ⟨queued, ?_⟩
  simp only [counted_append, uncounted_touch.counted touched,
    ((sweeping_overlay_reconcile _ _).mono fun _ => Sweeping.uncounted).counted looked, answered,
    (uncounted_announce _).counted announced, List.nil_append, List.append_nil]
  rfl

theorem counted_run {result : Except Fault Report} (h : (run s purge).Leads trail result) :
    ∃ queued, counted trail = match result with
      | .error _ => []
      | .ok _ => account queued result := by
  rw [run_eq] at h
  obtain ⟨_, times, counts, h⟩ := uncounted_lock.counted_bind h
  rw [counts]
  match times with
  | .error fault =>
    obtain ⟨rfl, rfl⟩ := h
    exact ⟨.ok (), rfl⟩
  | .ok (asked, entered, begun) =>
    obtain ⟨_, published, counts, h⟩ := uncounted_publish.counted_bind h
    rw [counts]
    cases published with
    | error fault =>
      obtain ⟨_, _, counts, h⟩ := uncounted_abandon.counted_bind h
      obtain ⟨rfl, rfl⟩ := h
      exact ⟨.ok (), counts⟩
    | ok commit =>
      obtain ⟨_, left, counts, h⟩ := uncounted_unlock.counted_bind h
      obtain ⟨settling, _, report, rfl, settled, rfl, rfl⟩ := leads_bind.1 h
      rw [counts, List.append_nil]
      exact counted_settle settled

theorem counted_start {result : Except Fault Report} (h : (start s purge).Leads trail result) :
    ∃ queued, counted trail = account queued result := by
  rw [start_eq] at h
  obtain ⟨entering, rest, began, rfl, entered, h⟩ := leads_bind.1 h
  rw [leads_ask.1 entered, counted_append]
  cases began with
  | false =>
    obtain ⟨telling, _, _, rfl, told, h⟩ := leads_bind.1 h
    obtain ⟨counting, _, _, rfl, recorded, rfl, rfl⟩ := leads_bind.1 h
    rw [leads_ask.1 told, leads_ask.1 recorded]
    exact ⟨.ok (), rfl⟩
  | true =>
    rw [if_pos rfl] at h
    obtain ⟨attempting, _, result, rfl, attempted, h⟩ := leads_bind.1 h
    obtain ⟨leaving, _, _, rfl, left, rfl, rfl⟩ := leads_bind.1 h
    obtain ⟨running, concluding, ended, rfl, ran, concluded⟩ := leads_bind.1 attempted
    obtain ⟨queued, counts⟩ := counted_run ran
    rw [leads_ask.1 left]
    simp only [counted_append, counts]
    cases ended with
    | error fault =>
      obtain ⟨failing, _, _, rfl, failed, rfl, rfl⟩ := leads_bind.1 concluded
      rw [leads_ask.1 failed]
      exact ⟨queued, rfl⟩
    | ok report =>
      obtain ⟨rfl, rfl⟩ := concluded
      exact ⟨queued, by simp [counted, Effect.counted]⟩

end Rebuild

namespace Lookup

open Proc (ask leads_bind leads_ask)

variable {k : Key} {trail : List Exchange} {ids : List GroupId}

theorem counted_source {source : LookupSource} {answer : List GroupId}
    (h : (do ask (.record (.lookup source)); return answer : Proc (List GroupId)).Leads trail
      ids) : ∃ source, counted trail = [.count (.lookup source)] := by
  obtain ⟨_, _, _, rfl, recorded, rfl, rfl⟩ := leads_bind.1 h
  rw [leads_ask.1 recorded]
  exact ⟨source, rfl⟩

theorem uncounted_cache (generation : UInt64) (ids : List GroupId) :
    (discard (ask (.cache generation k ids)) : Proc PUnit).Within Effect.Uncounted :=
  .map _ (.ask rfl)

theorem counted_fromStore {generation : Option UInt64}
    (h : (fromStore k generation).Leads trail ids) :
    ∃ source, counted trail = [.count (.lookup source)] := by
  obtain ⟨_, found, counts, h⟩ := Proc.counted_ask rfl h
  rw [counts]
  cases found with
  | error fault =>
    obtain ⟨_, _, counts, h⟩ := Proc.counted_ask rfl h
    rw [counts]
    exact counted_source h
  | ok found =>
    cases generation with
    | none => exact counted_source h
    | some generation =>
      obtain ⟨_, _, counts, h⟩ := (uncounted_cache _ _).counted_bind h
      rw [counts]
      exact counted_source h

theorem counted_ofKey (h : (ofKey k).Leads trail ids) :
    ∃ source, counted trail = [.count (.lookup source)] := by
  obtain ⟨_, cached, counts, h⟩ := Proc.counted_ask rfl h
  rw [counts]
  cases cached with
  | some ids => exact counted_source h
  | none =>
    obtain ⟨_, generation, counts, h⟩ := Proc.counted_ask rfl h
    have looking : (Overlay.lookup k).run.Within Effect.Uncounted :=
      Proc.within_bindAttempt (.ask (E := Effect.Uncounted) rfl) fun _ => .pure
    obtain ⟨_, found, counts', h⟩ := looking.counted_bind h
    rw [counts, counts']
    match found with
    | .ok (some id) =>
      obtain ⟨_, _, counts, h⟩ := (uncounted_cache _ _).counted_bind h
      rw [counts]
      exact counted_source h
    | .ok none => exact counted_fromStore h
    | .error fault =>
      obtain ⟨_, _, counts, h⟩ := Proc.counted_ask rfl h
      rw [counts]
      exact counted_fromStore h

theorem counted_groups {s : Settings} {space : Namespace} {raw : String}
    (h : (groups s space raw).Leads trail ids) :
    ∃ source, counted trail = [.count (.lookup source)] := by
  unfold groups at h
  split at h
  · exact counted_ofKey h
  · exact counted_source h

end Lookup

theorem Overlay.counted_add {g : Group} {raws : List String} {trail : List Exchange}
    {r : Except Fault Unit} (h : (add g raws).Leads trail r) :
    counted trail = r.toOption.elim [] fun _ => [.count .merged] := by
  have adding : (store g.id g.space raws).run.Within Effect.Uncounted :=
    (within_store ..).mono fun e he => by
      cases e with
      | now | readOverlay | writeOverlay => rfl
      | _ => exact he.elim
  obtain ⟨_, r, counts, h⟩ := adding.counted_bind h
  rw [counts]
  cases r with
  | error fault =>
    obtain ⟨rfl, rfl⟩ := h
    rfl
  | ok u =>
    obtain ⟨_, _, _, rfl, recorded, rfl, rfl⟩ := Proc.leads_bind.1 h
    rw [Proc.leads_ask.1 recorded]
    rfl

def Answer.succeeded : Answer → Bool
  | outcome (.ok _) => true
  | _ => false

namespace Operation

open World (handle play)

open Proc (leads_exchanges leads_map leads_bind leads_ask)

variable {n : Nat} {op : Operation} {w : World}

def exchanges (n : Nat) (op : Operation) (w : World) : List Exchange :=
  (op.calls n w).map fun c => ⟨c.1, ((handle (play n) c.1).run c.2).1⟩

def looks : Operation → Bool
  | lookup .. | primary .. | lookupKey _ => true
  | _ => false

def answer (n : Nat) (op : Operation) (w : World) : Answer :=
  ((op.perform (handle (play n))).run w).1

def merges (n : Nat) (op : Operation) (w : World) : Bool :=
  match op with
  | store .. | storeFor .. => (op.answer n w).succeeded
  | _ => false

def rebuilt? (n : Nat) (op : Operation) (w : World) : Option (Except Fault Report) :=
  op.rebuilds?.map fun purge => (((Rebuild.start w.settings purge).run (handle (play n))).run w).1

inductive Accounts (n : Nat) (op : Operation) (w : World) : List Exchange → Prop
  | rebuild {result : Except Fault Report} {queued : Except Fault Unit}
    (rebuilt : op.rebuilt? n w = some result) (looks : op.looks = false)
    (merges : op.merges n w = false) : Accounts n op w (Rebuild.account queued result)
  | lookup {source : LookupSource} (looks : op.looks = true) (rebuilt : op.rebuilt? n w = none)
    (merges : op.merges n w = false) : Accounts n op w [.count (.lookup source)]
  | merge (merges : op.merges n w = true) (rebuilt : op.rebuilt? n w = none)
    (looks : op.looks = false) : Accounts n op w [.count .merged]
  | rest (rebuilt : op.rebuilt? n w = none) (looks : op.looks = false)
    (merges : op.merges n w = false) : Accounts n op w []

theorem leads_body (n : Nat) (op : Operation) (w : World) {p : Proc Answer}
    (hp : op.body? w = some p) :
    p.Leads (op.exchanges n w) (op.answer n w) := by
  rw [exchanges, answer, calls_body hp, perform_body hp]
  exact leads_exchanges

theorem accounts_exchanges (n : Nat) (op : Operation) (w : World) :
    op.Accounts n w (counted (op.exchanges n w)) := by
  have started {purge : Option Instant} (rebuilds : op.rebuilds? = some purge)
      (looks : op.looks = false) (merges : op.merges n w = false) :
      op.Accounts n w (counted (op.exchanges n w)) := by
    obtain ⟨queued, counts⟩ := Rebuild.counted_start
      (leads_exchanges (h := handle (play n)) (p := Rebuild.start w.settings purge) (w := w))
    rw [exchanges, calls_rebuild rebuilds]
    refine counts ▸ .rebuild ?_ looks merges
    rw [rebuilt?, rebuilds]
    rfl
  have quiet {p : Proc Answer} (hp : op.body? w = some p) (uncounted : p.Within Effect.Uncounted)
      (rebuilt : op.rebuilt? n w = none) (looks : op.looks = false)
      (merges : op.merges n w = false) : op.Accounts n w (counted (op.exchanges n w)) := by
    rw [uncounted.counted (leads_body n op w hp)]
    exact .rest rebuilt looks merges
  cases op with
  | rebuild purge | rebuildSnapshot purge => exact started rfl rfl rfl
  | execute task =>
    cases task with
    | rebuild purge => exact started rfl rfl rfl
    | refreshStatistics groups => exact .rest rfl rfl rfl
  | lookup space raw =>
    obtain ⟨ids, led, -⟩ := leads_map.1 (leads_body n (.lookup space raw) w rfl)
    obtain ⟨source, counts⟩ := Lookup.counted_groups led
    rw [counts]
    exact .lookup rfl rfl rfl
  | primary space raw =>
    obtain ⟨id, led, -⟩ :=
      leads_map.1 (leads_body n (.primary space raw) w rfl)
    obtain ⟨ids, led, -⟩ := leads_map.1 led
    obtain ⟨source, counts⟩ := Lookup.counted_groups led
    rw [counts]
    exact .lookup rfl rfl rfl
  | lookupKey k =>
    obtain ⟨ids, led, -⟩ := leads_map.1 (leads_body n (.lookupKey k) w rfl)
    obtain ⟨source, counts⟩ := Lookup.counted_ofKey led
    rw [counts]
    exact .lookup rfl rfl rfl
  | store group raws =>
    obtain ⟨r, led, same⟩ :=
      leads_map.1 (leads_body n (.store group raws) w rfl)
    rw [Overlay.counted_add led]
    cases r with
    | ok u => exact .merge (congrArg Answer.succeeded same.symm) rfl rfl
    | error fault => exact .rest rfl rfl (congrArg Answer.succeeded same.symm)
  | storeFor id raws =>
    obtain ⟨front, rest, groups, split, listed, led⟩ :=
      leads_bind.1 (leads_body n (.storeFor id raws) w rfl)
    rw [split, leads_ask.1 listed]
    change Accounts n _ w (counted rest)
    cases found : groups.find? (·.id = id) with
    | none =>
      rw [found, addTo] at led
      obtain ⟨rfl, same⟩ := led
      exact .rest rfl rfl (congrArg Answer.succeeded same.symm)
    | some g =>
      rw [found, addTo] at led
      obtain ⟨r, led, same⟩ := leads_map.1 led
      rw [Overlay.counted_add led]
      cases r with
      | ok u => exact .merge (congrArg Answer.succeeded same.symm) rfl rfl
      | error fault => exact .rest rfl rfl (congrArg Answer.succeeded same.symm)
  | overlay | snapshot | keys => exact quiet rfl (.map _ (.ask rfl)) rfl rfl rfl
  | clearCache => exact quiet rfl (.bind (.ask rfl) fun _ => .pure) rfl rfl rfl
  | _ => exact .rest rfl rfl rfl

end Operation

def Mark.trail : Mark → List Exchange
  | begins n op w => counted (op.exchanges n w)
  | asks .. => []

def Exchange.raises (name : String) (x : Exchange) : Nat :=
  match x.effect with
  | .record event => event.raises name
  | _ => 0

def Exchange.enqueues : Exchange → Nat
  | ⟨.enqueue (.rebuild _), .ok _⟩ => 1
  | _ => 0

def Mark.enqueues : Mark → Bool
  | asks (.enqueue (.rebuild _)) w => !w.queue.closed
  | _ => false

theorem sum_counted {f : Exchange → Nat} (h : ∀ x, x.effect.counted = false → f x = 0)
    (trail : List Exchange) : (trail.map f).sum = ((counted trail).map f).sum := by
  induction trail with
  | nil => rfl
  | cons x trail ih =>
    cases there : x.effect.counted with
    | true => simp [counted, there, ih]
    | false => simp [counted, there, ih, h x there]

namespace World

open Operation (exchanges)

variable {n : Nat} {op : Operation} {w : World}

theorem tally_passed_raises (name : String) (n : Nat) (e : Effect) (w : World) (r : e.Reply) :
    tally (Mark.raises name) (passed n e w) = Exchange.raises name ⟨e, r⟩ := by
  cases e with
  | record event => exact Nat.add_zero _
  | _ =>
    unfold passed
    split <;> rfl

theorem tally_passed_enqueues (n : Nat) (e : Effect) (w : World) :
    tally (·.enqueues.toNat) (passed n e w) =
      Exchange.enqueues ⟨e, ((handle (play n) e).run w).1⟩ := by
  unfold passed
  split
  · rename_i through
    rw [answer_of_works through]
    generalize met (play n) e w = v
    cases e with
    | enqueue task =>
      cases task with
      | refreshStatistics groups => rfl
      | rebuild purge =>
        rw [reply_enqueue]
        unfold TaskQueue.enqueue
        by_cases closed : v.queue.closed = true
        · rw [if_pos closed]
          simp [tally, Mark.enqueues, closed, Exchange.enqueues]
        · rw [if_neg closed]
          simp [tally, Mark.enqueues, closed, Exchange.enqueues]
    | _ => rfl
  · rename_i refused
    cases e with
    | enqueue task =>
      cases task with
      | refreshStatistics groups => rfl
      | rebuild purge =>
        have down : ((handle (play n) (.enqueue (.rebuild purge))).run w).1 =
            .error (.queueUnavailable "queue.enqueue down") := by
          by_contra up
          exact refused (works_of_answer rfl up)
        rw [down]
        rfl
    | _ => rfl

theorem tally_own {f : Mark → Nat} {g : Exchange → Nat} (begins : f (.begins n op w) = 0)
    (passes : ∀ e v, tally f (passed n e v) = g ⟨e, ((handle (play n) e).run v).1⟩)
    (uncounted : ∀ x, x.effect.counted = false → g x = 0) :
    tally f (Mark.begins n op w).own = ((counted (op.exchanges n w)).map g).sum := by
  rw [← sum_counted uncounted, Mark.own, exchanges, tally, List.map_cons, List.sum_cons, begins,
    Nat.zero_add]
  induction op.calls n w with
  | nil => rfl
  | cons c calls ih =>
    rw [List.flatMap_cons, List.map_append, List.sum_append, ih, ← tally, passes]
    rfl

def Audited (name : String) : Prop :=
  name ≠ Metrics.Name.sideEffectFailures ∧ name ≠ Metrics.Name.lockUnavailable

instance (name : String) : Decidable (Audited name) := inferInstanceAs (Decidable (_ ∧ _))

theorem raises_uncounted {name : String} (audited : Audited name) {x : Exchange}
    (h : x.effect.counted = false) : x.raises name = 0 := by
  obtain ⟨e, r⟩ := x
  cases e with
  | record event =>
    cases event with
    | sideEffectFailed => simp [Exchange.raises, Metrics.Event.raises, Metrics.Event.raised,
        audited.1.symm]
    | lockUnavailable => simp [Exchange.raises, Metrics.Event.raises, Metrics.Event.raised,
        audited.2.symm]
    | _ => cases h
  | _ => rfl

theorem tally_own_raises {name : String} (audited : Audited name) (m : Mark) :
    tally (Mark.raises name) m.own = (m.trail.map (Exchange.raises name)).sum := by
  cases m with
  | asks => rfl
  | begins n op w =>
    exact tally_own rfl (fun _ _ => tally_passed_raises name n _ _ _) fun _ =>
      raises_uncounted audited

theorem tally_own_enqueues (m : Mark) :
    tally (·.enqueues.toNat) m.own = (m.trail.map Exchange.enqueues).sum := by
  cases m with
  | asks => rfl
  | begins n op w =>
    refine tally_own rfl (fun e v => tally_passed_enqueues n e v) fun x h => ?_
    obtain ⟨e, r⟩ := x
    cases e with
    | enqueue task =>
      cases task with
      | rebuild purge => cases h
      | refreshStatistics groups => rfl
    | _ => rfl

end World

namespace Mark

def rebuilds : Mark → Bool
  | begins _ op _ => op.rebuilds?.isSome
  | asks .. => false

def looks : Mark → Bool
  | begins _ op _ => op.looks
  | asks .. => false

def merges : Mark → Bool
  | begins n op w => op.merges n w
  | asks .. => false

def committed? : Mark → Option Report
  | begins n op w => (op.rebuilt? n w).bind fun result => (Answer.report result).committed?
  | asks .. => none

end Mark

def raised (name : String) (trail : List Exchange) : Nat :=
  (trail.map (Exchange.raises name)).sum

@[simp] theorem raised_nil (name : String) : raised name [] = 0 := rfl

@[simp] theorem raised_count (name : String) (event : Metrics.Event) (trail : List Exchange) :
    raised name (.count event :: trail) = event.raises name + raised name trail := rfl

def Exchange.handsOver : Exchange → Nat
  | ⟨.enqueue (.rebuild _), _⟩ => 1
  | _ => 0

def Exchange.refused : Exchange → Bool
  | ⟨.enqueue (.rebuild _), .error _⟩ => true
  | _ => false

@[simp] theorem raised_enqueue (name : String) (task : Task) (queued : Except Fault Unit)
    (trail : List Exchange) :
    raised name (⟨.enqueue task, queued⟩ :: trail) = raised name trail :=
  Nat.zero_add _

@[simp] theorem enqueues_count (event : Metrics.Event) : (Exchange.count event).enqueues = 0 := rfl

@[simp] theorem enqueues_ok (purge : Option Instant) (u : Unit) :
    Exchange.enqueues ⟨.enqueue (.rebuild purge), .ok u⟩ = 1 := rfl

@[simp] theorem enqueues_error (purge : Option Instant) (fault : Fault) :
    Exchange.enqueues ⟨.enqueue (.rebuild purge), .error fault⟩ = 0 := rfl

@[simp] theorem handsOver_enqueue (purge : Option Instant) (queued : Except Fault Unit) :
    Exchange.handsOver ⟨.enqueue (.rebuild purge), queued⟩ = 1 := rfl

@[simp] theorem handsOver_count (event : Metrics.Event) : (Exchange.count event).handsOver = 0 :=
  rfl

open Metrics

structure Mark.Sheet (m : Mark) (trail : List Exchange) : Prop where
  rebuilds : raised Name.rebuilds trail + raised Name.failures trail + raised Name.skipped trail =
    m.rebuilds.toNat
  lookups : raised Name.lookups trail = m.looks.toNat
  sources : raised Name.cacheHits trail + raised Name.overlayHits trail +
    raised Name.lookupErrors trail ≤ raised Name.lookups trail
  merges : raised Name.merges trail = m.merges.toNat
  overlay : raised Name.purges trail + raised Name.retained trail ≤ raised Name.rebuilds trail
  followUps : raised Name.followUps trail = (trail.map Exchange.enqueues).sum
  retained : raised Name.retained trail = (trail.map Exchange.handsOver).sum
  commits : raised Name.rebuilds trail = m.committed?.elim 0 fun _ => 1
  changedKeys : raised Name.changedKeys trail =
    m.committed?.elim 0 (·.difference.changes.size)
  conflicts : raised Name.conflicts trail = m.committed?.elim 0 (·.reported.length)

theorem Operation.Accounts.sheet {n : Nat} {op : Operation} {w : World} {trail : List Exchange}
    (h : op.Accounts n w trail) : (Mark.begins n op w).Sheet trail := by
  have still (rebuilt : op.rebuilt? n w = none) : op.rebuilds? = none := by
    simpa [rebuilt?] using rebuilt
  cases h with
  | lookup looks rebuilt merges =>
    rename_i source
    cases source <;> constructor <;>
      simp +decide [Mark.rebuilds, Mark.looks, Mark.merges, looks, rebuilt, merges, still rebuilt,
        Mark.committed?, Event.raises, Event.raised, sourceCounter?]
  | merge merges rebuilt looks =>
    constructor <;>
      simp +decide [Mark.rebuilds, Mark.looks, Mark.merges, looks, rebuilt, merges, still rebuilt,
        Mark.committed?, Event.raises, Event.raised]
  | rest rebuilt looks merges =>
    constructor <;> simp [Mark.rebuilds, Mark.looks, Mark.merges, looks, rebuilt, merges,
      still rebuilt, Mark.committed?]
  | rebuild rebuilt looks merges =>
    rename_i result queued
    have rebuilds : op.rebuilds?.isSome = true := by
      rw [rebuilt?, Option.map_eq_some_iff] at rebuilt
      obtain ⟨purge, rebuilds, -⟩ := rebuilt
      rw [rebuilds]
      rfl
    cases result with
    | error fault =>
      constructor <;> simp +decide [Mark.rebuilds, Mark.looks, Mark.merges, looks, rebuilt, merges,
        rebuilds, Mark.committed?, Rebuild.account, Answer.committed?, Event.raises, Event.raised]
    | ok report =>
      cases skipped : report.skipped with
      | true =>
        constructor <;> simp +decide [Mark.rebuilds, Mark.looks, Mark.merges, looks, rebuilt,
          merges, rebuilds, Mark.committed?, Rebuild.account, Answer.committed?, skipped,
          Event.raises, Event.raised]
      | false =>
        have committed : (Mark.begins n op w).committed? = some report := by
          simp [Mark.committed?, rebuilt, Answer.committed?, skipped]
        cases overlay : report.overlay with
        | none =>
          constructor <;> simp +decide [Mark.rebuilds, Mark.looks, Mark.merges, looks, merges,
            rebuilds, committed, Rebuild.account, Rebuild.aftermath, overlay, skipped,
            Event.raises, Event.raised]
        | some outcome =>
          cases outcome <;> cases queued <;> constructor <;>
            simp +decide [Mark.rebuilds, Mark.looks, Mark.merges, looks, merges, rebuilds,
              committed, Rebuild.account, Rebuild.aftermath, overlay, skipped, Event.raises,
              Event.raised, Except.toOption]

theorem Mark.sheet (m : Mark) : m.Sheet m.trail := by
  cases m with
  | begins n op w => exact (op.accounts_exchanges n w).sheet
  | asks e w => constructor <;> rfl

end ClaimIndex
