import ClaimIndex.Proofs.Paths
import ClaimIndex.World.Operation

namespace ClaimIndex.Rebuild

open Proc (ask)

def lock (s : Settings) : Proc (Except Fault (Nat × Nat × Instant)) := do
  let asked ← ask .uptime
  match ← ask .acquire with
  | .error fault => return .error fault
  | .ok false =>
    let waited := Span.ofNanos ((← ask .uptime) - asked)
    ask (.record .lockUnavailable)
    return .error (.lockUnavailable s.name waited.toMillis)
  | .ok true =>
    let entered ← ask .uptime
    let start ← ask .now
    ask .clearCache
    return .ok (asked, entered, start)

def draft : Attempt (Snapshot × Build) := do
  let old ← ExceptT.mk (ask (.readStore true))
  let build ← Build.ofGroups (← ask .groups)
  return (old, build)

def deliver (drafted : Snapshot × Build) : Attempt Commit := do
  let difference := drafted.1.diff drafted.2.snapshot
  ExceptT.mk (ask (.writeStore drafted.2.snapshot difference.changes))
  return ⟨drafted.2, difference⟩

theorem publish_eq : publish = draft >>= deliver := by
  simp only [publish, draft, deliver, bind_assoc, pure_bind]

def unlock : Proc Nat := do
  if let .error _ ← ask .release then
    ask (.report .lockNotReleased)
    ask (.record .sideEffectFailed)
  let left ← ask .uptime
  ask .clearCache
  return left

def abandon : Proc Unit := do
  if let .error _ ← ask .release then ask (.report .lockNotReleased)

def touch (s : Settings) : Proc Unit := do
  if let .error _ ← ask (.touch s.token) then sideEffectFailed .touchToken

def announce (difference : Difference) : Proc Unit := do
  difference.changes.toList.forM notify
  unless difference.touched.isEmpty do
    enqueue (.refreshStatistics difference.touched) .enqueueRefresh (pure ())

theorem afterCommit_eq (s : Settings) (difference : Difference) (bound : Instant) :
    afterCommit s difference bound = (do
      touch s
      let outcome ← reconcile bound
      announce difference
      return outcome) := by
  unfold afterCommit touch announce
  by_cases none : difference.touched.isEmpty = true
  · simp only [bind_assoc, none, if_true, pure_bind]
    congr 1
    funext touched
    cases touched <;> rfl
  · simp only [bind_assoc, none]
    congr 1
    funext touched
    cases touched <;> rfl

def settle (s : Settings) (commit : Commit) (purge : Instant) (asked entered left : Nat) :
    Proc Report := do
  let overlay ← afterCommit s commit.difference purge
  let report : Report := {
    snapshot := commit.build.snapshot
    difference := commit.difference
    conflicts := commit.build.conflicts
    lockWait := .ofNanos (entered - asked)
    criticalSection := .ofNanos (left - entered)
    purge := some purge
    overlay }
  ask (.record (.conflicts report.reported.length))
  ask (.record (.rebuilt report.snapshot.size report.snapshot.conflictCount
    report.difference.changes.size report.lockWait report.criticalSection))
  return report

/-- What is reported of a rebuild once it has published. -/
def Commit.toReport (commit : Commit) (bound : Instant) (asked taken left : Nat)
    (outcome : Option Overlay.Outcome) : Report where
  snapshot := commit.build.snapshot
  difference := commit.difference
  conflicts := commit.build.conflicts
  lockWait := .ofNanos (taken - asked)
  criticalSection := .ofNanos (left - taken)
  purge := some bound
  overlay := outcome

def proceed (s : Settings) (purge : Option Instant) :
    Except Fault (Nat × Nat × Instant) → Proc (Except Fault Report)
  | .error fault => return .error fault
  | .ok (asked, entered, start) => do
    match ← publish.run with
    | .error fault =>
      abandon
      return .error fault
    | .ok commit =>
      let left ← unlock
      return .ok (← settle s commit (purge.getD start) asked entered left)

theorem run_eq (s : Settings) (purge : Option Instant) :
    run s purge = lock s >>= proceed s purge := by
  unfold run lock
  simp only [bind_assoc]
  congr 1
  funext asked
  congr 1
  funext taken
  obtain fault | taken := taken
  · rfl
  cases taken with
  | false => rfl
  | true =>
    simp only [bind_assoc, proceed, pure_bind]
    iterate 4 (congr 1; funext _)
    rename_i entered start _ published
    cases published with
    | error fault =>
      simp only [abandon, bind_assoc]
      congr 1
      funext released
      cases released <;> rfl
    | ok commit =>
      simp only [unlock, settle, bind_assoc, pure_bind]
      congr 1
      funext released
      cases released <;> rfl

def conclude (result : Except Fault Report) : Proc (Except Fault Report) := do
  if let .error _ := result then ask (.record .failed)
  return result

def attempt (s : Settings) (purge : Option Instant) : Proc (Except Fault Report) :=
  run s purge >>= conclude

theorem start_eq (s : Settings) (purge : Option Instant) : start s purge = (do
    if ← ask .enter then
      let result ← attempt s purge
      ask .leave
      return result
    else
      ask (.report .nestedRebuild)
      ask (.record .skipped)
      return .ok { skipped := true }) := by
  unfold start attempt conclude
  congr 1
  funext entered
  cases entered with
  | false => rfl
  | true =>
    simp only [if_true, bind_assoc]
    congr 1
    funext result
    cases result <;> rfl

variable {s : Settings}

def Guarding : Effect → Prop
  | .now | .uptime | .acquire | .release | .clearCache | .touch _ | .notify .. | .record _
  | .report _ => True
  | _ => False

def Telling (e : Effect) : Prop := Guarding e ∨ ∃ task, e = .enqueue task

def Aside (e : Effect) : Prop :=
  Guarding e ∨ e = .readOverlay ∨ (∃ stamp, e = .dropOverlay stamp) ∨ ∃ task, e = .enqueue task

theorem Telling.aside {e : Effect} (he : Telling e) : Aside e :=
  he.imp id fun told => .inr (.inr told)

def Hushed (E : Effect → Prop) (e : Effect) : Prop :=
  E e ∧ ∀ page change, e ≠ .notify page change

theorem Hushed.mono {E F : Effect → Prop} (hEF : ∀ e, E e → F e) {e : Effect} (he : Hushed E e) :
    Hushed F e :=
  ⟨hEF e he.1, he.2⟩

theorem hushed_lock : (lock s).Within (Hushed Guarding) := by
  refine .bind (.ask ⟨trivial, nofun⟩) fun asked => .bind (.ask ⟨trivial, nofun⟩) fun taken => ?_
  match taken with
  | .error fault => exact .pure
  | .ok false =>
    exact .bind (.ask ⟨trivial, nofun⟩) fun _ => .bind (.ask ⟨trivial, nofun⟩) fun _ => .pure
  | .ok true =>
    exact .bind (.ask ⟨trivial, nofun⟩) fun _ => .bind (.ask ⟨trivial, nofun⟩) fun _ =>
      .bind (.ask ⟨trivial, nofun⟩) fun _ => .pure

theorem within_lock : (lock s).Within Guarding := hushed_lock.mono fun _ => And.left

theorem hushed_unlock : unlock.Within (Hushed Guarding) := by
  refine .bind (.ask ⟨trivial, nofun⟩) fun released => ?_
  have rest : (do
      let left ← ask .uptime
      ask .clearCache
      return left : Proc Nat).Within (Hushed Guarding) :=
    .bind (.ask ⟨trivial, nofun⟩) fun _ => .bind (.ask ⟨trivial, nofun⟩) fun _ => .pure
  cases released with
  | error fault =>
    exact .bind (.ask ⟨trivial, nofun⟩) fun _ => .bind (.ask ⟨trivial, nofun⟩) fun _ => rest
  | ok _ => exact rest

theorem within_unlock : unlock.Within Guarding := hushed_unlock.mono fun _ => And.left

theorem hushed_sideEffectFailed (step : SideEffect) :
    (sideEffectFailed step).Within (Hushed Guarding) :=
  .bind (.ask ⟨trivial, nofun⟩) fun _ => .ask ⟨trivial, nofun⟩

theorem hushed_touch : (touch s).Within (Hushed Guarding) := by
  refine .bind (.ask ⟨trivial, nofun⟩) fun touched => ?_
  cases touched with
  | error fault => exact hushed_sideEffectFailed _
  | ok _ => exact .pure

theorem within_touch : (touch s).Within Guarding := hushed_touch.mono fun _ => And.left

theorem within_notify (change : ChangeKind × Key × Change) :
    (notify change).Within Guarding := by
  obtain ⟨kind, key, change⟩ := change
  simp only [notify]
  split
  · exact .ask (E := Guarding) trivial
  · exact .ask (E := Guarding) trivial

theorem within_notifyAll (changes : List (ChangeKind × Key × Change)) :
    (changes.forM notify).Within Guarding := by
  induction changes with
  | nil => exact .pure
  | cons change changes ih => exact .bind (within_notify change) fun _ => ih

theorem within_enqueue {E : Effect → Prop} (calm : ∀ e, Hushed Guarding e → E e) {task : Task}
    (asks : E (.enqueue task)) (step : SideEffect) {done : Proc Unit}
    (hdone : done.Within (Hushed Guarding)) : (enqueue task step done).Within E := by
  refine .bind (.ask asks) fun taken => ?_
  cases taken with
  | error fault => exact (hushed_sideEffectFailed step).mono calm
  | ok _ => exact hdone.mono calm

theorem Hushed.telling {e : Effect} (he : Hushed Guarding e) : Hushed Telling e :=
  he.mono fun _ => .inl

theorem hushed_enqueue (task : Task) (step : SideEffect) {done : Proc Unit}
    (hdone : done.Within (Hushed Guarding)) : (enqueue task step done).Within (Hushed Telling) :=
  within_enqueue (fun _ => Hushed.telling) ⟨.inr ⟨task, rfl⟩, nofun⟩ step hdone

theorem hushed_refresh (difference : Difference) : (unless difference.touched.isEmpty do
    enqueue (.refreshStatistics difference.touched) .enqueueRefresh (pure ()) : Proc Unit).Within
      (Hushed Telling) := by
  split
  · exact .pure
  · exact hushed_enqueue _ _ .pure

theorem within_announce (difference : Difference) : (announce difference).Within Telling :=
  .bind ((within_notifyAll _).mono fun _ => .inl) fun _ =>
    (hushed_refresh difference).mono fun _ => And.left

def Sweeping (bound : Instant) : Effect → Prop
  | .readOverlay => True
  | .dropOverlay stamp => stamp ≤ bound
  | _ => False

theorem Sweeping.hushed {bound : Instant} {e : Effect} (he : Sweeping bound e) :
    Hushed Aside e := by
  cases e with
  | readOverlay => exact ⟨.inr (.inl rfl), nofun⟩
  | dropOverlay stamp => exact ⟨.inr (.inr (.inl ⟨stamp, rfl⟩)), nofun⟩
  | _ => exact he.elim

theorem sweeping_overlay_reconcile (bound : Instant) (rounds : Nat) :
    (Overlay.reconcile bound rounds).run.Within (Sweeping bound) := by
  induction rounds with
  | zero => exact .pure
  | succ rounds ih =>
    refine Proc.within_bindAttempt (.ask (E := Sweeping bound) trivial) fun found => ?_
    cases found with
    | none => exact .pure
    | some entry =>
      dsimp only
      split
      · rename_i early
        refine Proc.within_bindAttempt (.ask (E := Sweeping bound) early) fun dropped => ?_
        cases dropped with
        | false => exact ih
        | true => exact .pure
      · exact .pure

def respond : Except Fault (Option Overlay.Outcome) → Proc (Option Overlay.Outcome)
  | .error _ => do
    sideEffectFailed .reconcileOverlay
    return none
  | .ok outcome => do
    match outcome with
    | some (.purged _) => ask (.record .purged)
    | some (.retained _) =>
      ask (.record .retained)
      enqueue (.rebuild none) .enqueueFollowUp (ask (.record .followUp))
    | some .empty | none => pure ()
    return outcome

theorem reconcile_eq (bound : Instant) :
    reconcile bound = (Overlay.reconcile bound rounds).run >>= respond := rfl

theorem leads_respond {found : Except Fault (Option Overlay.Outcome)}
    {outcome : Option Overlay.Outcome} {trail : List Exchange}
    (responds : (respond found).Leads trail outcome) : outcome = found.toOption.join := by
  cases found with
  | error fault =>
    obtain ⟨_, _, _, -, -, rest⟩ := Proc.leads_bind.1 responds
    exact (Proc.leads_pure.1 rest).2.symm
  | ok ends =>
    obtain none | (empty | keys | stamp) := ends
    · exact (Proc.leads_pure.1 responds).2.symm
    · exact (Proc.leads_pure.1 responds).2.symm
    · obtain ⟨_, _, _, -, -, rest⟩ := Proc.leads_bind.1 responds
      exact (Proc.leads_pure.1 rest).2.symm
    · obtain ⟨_, _, _, -, -, queues⟩ := Proc.leads_bind.1 responds
      obtain ⟨_, _, _, -, -, rest⟩ := Proc.leads_bind.1 queues
      exact (Proc.leads_pure.1 rest).2.symm

theorem outcome_of_respond {σ : Type} {h : Handler σ} {w v : σ}
    {found : Except Fault (Option Overlay.Outcome)} {outcome : Option Overlay.Outcome}
    (hy : (respond found).Yields h w outcome v) : outcome = found.toOption.join :=
  leads_respond hy.leads

theorem yields_afterCommit {σ : Type} {h : Handler σ} {w v : σ} {difference : Difference}
    {bound : Instant} {outcome : Option Overlay.Outcome}
    (hy : (afterCommit s difference bound).Yields h w outcome v) :
    ∃ touched looked responded found, (touch s).Yields h w () touched ∧
      (Overlay.reconcile bound rounds).run.Yields h touched found looked ∧
      (respond found).Yields h looked outcome responded ∧
      (announce difference).Yields h responded () v := by
  rw [afterCommit_eq, reconcile_eq] at hy
  obtain ⟨_, touched, htouch, hy⟩ := Proc.yields_bind.1 hy
  obtain ⟨_, responded, hreconcile, hy⟩ := Proc.yields_bind.1 hy
  obtain ⟨_, told, hannounce, hy⟩ := Proc.yields_bind.1 hy
  obtain ⟨rfl, rfl⟩ := Proc.yields_pure.1 hy
  obtain ⟨found, looked, hlook, hrespond⟩ := Proc.yields_bind.1 hreconcile
  exact ⟨touched, looked, responded, found, htouch, hlook, hrespond, hannounce⟩

theorem leads_afterCommit {difference : Difference} {bound : Instant}
    {outcome : Option Overlay.Outcome} {trail : List Exchange}
    (led : (afterCommit s difference bound).Leads trail outcome) :
    ∃ touching looking responding announcing found,
      trail = touching ++ (looking ++ responding ++ announcing) ∧
      (touch s).Leads touching () ∧ (Overlay.reconcile bound rounds).run.Leads looking found ∧
      (respond found).Leads responding outcome ∧ (announce difference).Leads announcing () := by
  rw [afterCommit_eq, reconcile_eq] at led
  obtain ⟨touching, _, _, rfl, touched, led⟩ := Proc.leads_bind.1 led
  obtain ⟨_, _, _, rfl, reconciled, led⟩ := Proc.leads_bind.1 led
  obtain ⟨announcing, _, _, rfl, announced, led⟩ := Proc.leads_bind.1 led
  obtain ⟨rfl, rfl⟩ := Proc.leads_pure.1 led
  obtain ⟨looking, responding, found, rfl, looked, responded⟩ := Proc.leads_bind.1 reconciled
  exact ⟨touching, looking, responding, announcing, found, by rw [List.append_nil], touched, looked,
    responded, announced⟩

theorem leads_settle {commit : Commit} {bound : Instant} {asked taken left : Nat} {report : Report}
    {trail : List Exchange} (led : (settle s commit bound asked taken left).Leads trail report) :
    ∃ following outcome, trail = following ++
        [⟨.record (.conflicts report.reported.length), ()⟩,
          ⟨.record (.rebuilt report.snapshot.size report.snapshot.conflictCount
            report.difference.changes.size report.lockWait report.criticalSection), ()⟩] ∧
      (afterCommit s commit.difference bound).Leads following outcome ∧
      report = commit.toReport bound asked taken left outcome := by
  unfold settle at led
  obtain ⟨following, _, outcome, rfl, followed, led⟩ := Proc.leads_bind.1 led
  obtain ⟨_, _, _, rfl, tallied, led⟩ := Proc.leads_bind.1 led
  obtain ⟨_, _, _, rfl, measured, led⟩ := Proc.leads_bind.1 led
  obtain ⟨rfl, rfl⟩ := Proc.leads_pure.1 led
  obtain rfl := Proc.leads_ask.1 tallied
  obtain rfl := Proc.leads_ask.1 measured
  exact ⟨following, outcome, rfl, followed, rfl⟩

theorem respond_within {E : Effect → Prop} (calm : ∀ e, Hushed Guarding e → E e)
    (asks : E (.enqueue (.rebuild none))) (found : Except Fault (Option Overlay.Outcome)) :
    (respond found).Within E := by
  have recorded (event : Metrics.Event) : (ask (.record event)).Within E :=
    .ask (calm _ ⟨trivial, nofun⟩)
  match found with
  | .error fault => exact .bind ((hushed_sideEffectFailed _).mono calm) fun _ => .pure
  | .ok none => exact .pure
  | .ok (some .empty) => exact .pure
  | .ok (some (.purged _)) => exact .bind (recorded _) fun _ => .pure
  | .ok (some (.retained _)) =>
    exact .bind (recorded _) fun _ =>
      .bind (within_enqueue calm asks _ (.ask ⟨trivial, nofun⟩)) fun _ => .pure

theorem hushed_respond (found : Except Fault (Option Overlay.Outcome)) :
    (respond found).Within (Hushed Telling) :=
  respond_within (fun _ => Hushed.telling) ⟨.inr ⟨_, rfl⟩, nofun⟩ found

theorem within_respond (found : Except Fault (Option Overlay.Outcome)) :
    (respond found).Within Telling := (hushed_respond found).mono fun _ => And.left

theorem hushed_reconcile (bound : Instant) : (reconcile bound).Within (Hushed Aside) := by
  rw [reconcile_eq]
  exact .bind ((sweeping_overlay_reconcile bound rounds).mono fun _ => Sweeping.hushed)
    fun found => (hushed_respond found).mono fun _ he => he.mono fun _ => Telling.aside

theorem within_reconcile (bound : Instant) : (reconcile bound).Within Aside :=
  (hushed_reconcile bound).mono fun _ => And.left

theorem within_afterCommit (difference : Difference) (bound : Instant) :
    (afterCommit s difference bound).Within Aside := by
  rw [afterCommit_eq]
  exact .bind (within_touch.mono fun _ => .inl) fun _ => .bind (within_reconcile bound) fun _ =>
    .bind ((within_announce difference).mono fun _ => Telling.aside) fun _ => .pure

theorem within_settle {commit : Commit} {bound : Instant} {asked taken left : Nat} :
    (settle s commit bound asked taken left).Within Aside :=
  .bind (within_afterCommit _ _) fun _ => .bind (.ask (.inl trivial)) fun _ =>
    .bind (.ask (.inl trivial)) fun _ => .pure

theorem hushed_conclude (result : Except Fault Report) :
    (conclude result).Within (Hushed Guarding) := by
  cases result with
  | error fault => exact .bind (.ask ⟨trivial, nofun⟩) fun _ => .pure
  | ok report => exact .pure

theorem within_conclude (result : Except Fault Report) : (conclude result).Within Guarding :=
  (hushed_conclude result).mono fun _ => And.left

theorem hushed_abandon : abandon.Within (Hushed Guarding) := by
  refine .bind (.ask ⟨trivial, nofun⟩) fun released => ?_
  cases released with
  | error fault => exact .ask (E := Hushed Guarding) ⟨trivial, nofun⟩
  | ok _ => exact .pure

theorem within_abandon : abandon.Within Guarding := hushed_abandon.mono fun _ => And.left

end ClaimIndex.Rebuild

namespace ClaimIndex.World

variable {w : World} (player : Player)

theorem start_idle (hw : w.running = false) (s : Settings) (purge : Option Instant) :
    ((Rebuild.start s purge).run (handle player)).run w =
      ((((Rebuild.attempt s purge).run (handle player)).run { w with running := true }).1,
        { (((Rebuild.attempt s purge).run (handle player)).run { w with running := true }).2 with
          running := false }) := by
  have entering : (Proc.ask .enter).Yields (handle player) w true { w with running := true } := by
    cases w
    cases hw
    rfl
  rw [Rebuild.start_eq]
  exact Proc.yields_bind.2 ⟨true, _, entering, Proc.yields_bind.2 ⟨_, _, rfl,
    Proc.yields_bind.2 ⟨(), _, rfl, rfl⟩⟩⟩

theorem start_running (hw : w.running = true) (s : Settings) (purge : Option Instant) :
    ((Rebuild.start s purge).run (handle player)).run w = (.ok { skipped := true },
      { w with
        notices := w.notices ++ [.nestedRebuild], metrics := w.metrics.record .skipped }) := by
  cases w
  cases hw
  rfl

end ClaimIndex.World
