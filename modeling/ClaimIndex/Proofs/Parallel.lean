import ClaimIndex.Proofs.Motion
import ClaimIndex.Proofs.Phases

/-! Two worlds side by side.  What relates them through every single call while a rebuild runs in
both relates them through all that operations do meanwhile, at any depth. -/

namespace ClaimIndex

/-- Run from related states, two computations answer lockstep and leave related states. -/
def Lockstep {σ τ α β : Type} (R R' : σ → τ → Prop) (A : α → β → Prop) (m : StateM σ α)
    (n : StateM τ β) : Prop :=
  ∀ ⦃w v⦄, R w v → A (m.run w).1 (n.run v).1 ∧ R' (m.run w).2 (n.run v).2

section

variable {σ τ α β γ δ : Type} {R R' S : σ → τ → Prop} {A : α → β → Prop}
  {B : γ → δ → Prop} {m : StateM σ α} {n : StateM τ β}

namespace Lockstep

theorem pure {a : α} {b : β} (h : A a b) : Lockstep R R A (pure a) (pure b) := fun _ _ hR => ⟨h, hR⟩

theorem get {R : σ → τ → Prop} : Lockstep R R R get get := fun _ _ hR => ⟨hR, hR⟩

theorem bind {f : α → StateM σ γ} {g : β → StateM τ δ} (hm : Lockstep R S A m n)
    (hf : ∀ a b, A a b → Lockstep S R' B (f a) (g b)) : Lockstep R R' B (m >>= f) (n >>= g) :=
  fun _ _ hR => hf _ _ (hm hR).1 (hm hR).2

theorem weaken (hm : Lockstep R S A m n) (hS : ∀ w v, S w v → R' w v) : Lockstep R R' A m n :=
  fun _ _ hR => ⟨(hm hR).1, hS _ _ (hm hR).2⟩

end Lockstep

theorem Proc.Within.lockstep {E : Effect → Prop} {h : Handler σ} {k : Handler τ} {p : Proc α}
    (hp : p.Within E) (hE : ∀ e, E e → Lockstep R R Eq (h e) (k e)) :
    Lockstep R R Eq (p.run h) (p.run k) := by
  induction p with
  | done a => exact .pure rfl
  | call e next ih =>
    refine .bind (hE e hp.1) ?_
    rintro r _ rfl
    exact ih r (hp.2 r)

theorem Lockstep.attempt {h : Handler σ} {k : Handler τ} {x : Attempt α} {f : α → Attempt β}
    {P : α → Prop} {B : Except Fault β → Except Fault β → Prop}
    (hx : Lockstep R S (fun a b => a = b ∧ ∀ r, a = .ok r → P r) (x.run.run h) (x.run.run k))
    (hf : ∀ a, P a → Lockstep S R' B ((f a).run.run h) ((f a).run.run k))
    (sub : ∀ w v, S w v → R' w v) (failed : ∀ fault, B (.error fault) (.error fault)) :
    Lockstep R R' B ((x >>= f).run.run h) ((x >>= f).run.run k) := by
  rw [ExceptT.run_bind, Proc.run_bind, Proc.run_bind]
  refine .bind hx ?_
  rintro r _ ⟨rfl, held⟩
  cases r with
  | error fault => exact fun w v hS => ⟨failed fault, sub w v hS⟩
  | ok a => exact hf a (held a rfl)

end

def Operation.Direct : Operation → Prop
  | overlaySize | advance _ | setClock _ | register _ | unregister _ | sync | pending | drain
  | acquire | release | held | token _ | changes | metrics | rebuilding | settings | accepts _
  | fail .. | hook .. => True
  | _ => False

def Effect.Common : Effect → Prop
  | groups | perform .. | writeStore .. | leave => False
  | _ => True

theorem Effect.Common.not_perform {e : Effect} (he : e.Common) (group : GroupId)
    (actions : List Operation) : e ≠ .perform group actions := by
  rintro rfl
  exact he

theorem Effect.Looking.common {e : Effect} (he : e.Looking) : e.Common := by
  cases e with
  | groups | perform | writeStore | leave => exact he
  | _ => trivial

theorem Effect.Adding.common {e : Effect} (he : e.Adding) : e.Common := by
  cases e with
  | groups | perform | writeStore | leave => exact he
  | _ => trivial

namespace World

variable {R R' : World → World → Prop} {A : Answer → Answer → Prop} {player : Player}
  {w v : World}

def Player.Respects (player : Player) (R : World → World → Prop) : Prop :=
  ∀ label operations,
    Lockstep R R (fun _ _ => True) (player label operations) (player label operations)

/-- What relates two worlds in which a rebuild runs, with what relates the answers there. -/
structure Accord (R : World → World → Prop) (A : Answer → Answer → Prop) : Prop where
  running : ∀ {w v}, R w v → w.Running ∧ v.Running
  settings : ∀ {w v}, R w v → w.settings = v.settings
  hooks : ∀ {w v}, R w v → w.hooks = v.hooks
  failing : ∀ {w v}, R w v → w.failing = v.failing
  queue : ∀ {w v}, R w v → w.queue = v.queue
  groups : ∀ {w v}, R w v →
    w.registry.map (fun g => (g.id, g.space)) = v.registry.map fun g => (g.id, g.space)
  waiting : ∀ {w v} hooks, R w v → R { w with hooks } { v with hooks }
  note : ∀ {w v a b} label, R w v → A a b →
    R ((Motion.note label a).apply w) ((Motion.note label b).apply v)
  reply : ∀ e : Effect, e.Common → Lockstep R R Eq (reply idle e) (reply idle e)
  direct : ∀ (op : Operation) h, op.Direct → Lockstep R R A (op.perform h) (op.perform h)
  refl : ∀ a, A a a

/-- What two worlds and two that come after them have to have in common for operations that start
no rebuild. -/
structure Concord (R R' : World → World → Prop) (A : Answer → Answer → Prop) (player : Player) :
    Prop where
  settings : ∀ {w v}, R w v → w.settings = v.settings
  groups : ∀ {w v}, R w v →
    w.registry.map (fun g => (g.id, g.space)) = v.registry.map fun g => (g.id, g.space)
  sub : ∀ {w v}, R w v → R' w v
  ask : ∀ e : Effect, e.Common → Lockstep R R Eq (handle player e) (handle player e)
  direct : ∀ op : Operation, op.Direct →
    Lockstep R R' A (op.perform (handle player)) (op.perform (handle player))
  refl : ∀ a, A a a

theorem lockstep_handle {e : Effect} {B : e.Reply → e.Reply → Prop}
    (down : ∀ point r, e.outage? = some (point, r) → B r r)
    (failing : ∀ w v, R w v → w.failing = v.failing) (sub : ∀ w v, R w v → R' w v)
    (before : ∀ moment,
      Lockstep R R (fun _ _ => True) (runHook player moment) (runHook player moment))
    (after : ∀ moment,
      Lockstep R' R' (fun _ _ => True) (runHook player moment) (runHook player moment))
    (reply : Lockstep R R' B (reply player e) (World.reply player e)) :
    Lockstep R R' B (handle player e) (handle player e) := by
  unfold handle
  split
  · exact reply
  · rename_i risky
    refine .bind (before _) fun _ _ _ => .bind .get fun w v hR => ?_
    rw [failing w v hR]
    split
    · exact fun w v hR => ⟨down _ _ risky, sub w v hR⟩
    · exact .bind reply fun _ _ same => .bind (after _) fun _ _ _ => .pure same

theorem lockstep_runHook (hooks : ∀ w v, R w v → w.hooks = v.hooks)
    (waiting : ∀ w v hooks, R w v → R { w with hooks } { v with hooks })
    (hp : player.Respects R) (moment : Moment) :
    Lockstep R R (fun _ _ => True) (runHook player moment) (runHook player moment) := by
  intro w v hR
  rw [runHook_run, runHook_run, ← hooks w v hR]
  split
  · exact ⟨trivial, hR⟩
  · exact hp _ _ (waiting w v _ hR)

end World

namespace Group

theorem find?_lockstep {l l' : List Group}
    (h : l.map (fun g => (g.id, g.space)) = l'.map fun g => (g.id, g.space)) (id : GroupId) :
    (l.find? (·.id = id)).map (fun g => (g.id, g.space)) =
      (l'.find? (·.id = id)).map fun g => (g.id, g.space) := by
  have named := congrArg (List.find? fun known : GroupId × Namespace => known.1 = id) h
  rwa [List.find?_map, List.find?_map] at named

theorem resolve_lockstep {l l' : List Group}
    (h : l.map (fun g => (g.id, g.space)) = l'.map fun g => (g.id, g.space)) (g : Group) :
    (g.resolve l).id = (g.resolve l').id ∧ (g.resolve l).space = (g.resolve l').space := by
  cases g with
  | registered id =>
    have found := find?_lockstep h id
    rw [resolve, resolve]
    cases hl : l.find? (·.id = id) with
    | none =>
      rw [hl] at found
      rw [Option.map_eq_none_iff.1 found.symm]
      exact ⟨rfl, rfl⟩
    | some g =>
      rw [hl] at found
      obtain ⟨g', found', e⟩ := Option.map_eq_some_iff.1 found.symm
      rw [found']
      exact ⟨(congrArg Prod.fst e).symm, (congrArg Prod.snd e).symm⟩
  | _ => exact ⟨rfl, rfl⟩

end Group

namespace World.Concord

variable {R R' : World → World → Prop} {A : Answer → Answer → Prop} {player : Player}

theorem common (H : Concord R R' A player) {α : Type} {p : Proc α} {E : Effect → Prop}
    (hE : ∀ e, E e → e.Common) (hwithin : p.Within E) :
    Lockstep R R Eq (p.run (World.handle player)) (p.run (World.handle player)) :=
  hwithin.lockstep fun e he => H.ask e (hE e he)

theorem storeKeys (H : Concord R R' A player) {g g' : Group}
    (same : g.id = g'.id ∧ g.space = g'.space) (raws : List String) :
    Lockstep R R Eq (Operation.storeKeys (World.handle player) g raws)
      (Operation.storeKeys (World.handle player) g' raws) := by
  unfold Operation.storeKeys
  rw [← same.1, ← same.2]
  refine .bind (H.common (fun _ => Effect.Adding.common) (Overlay.within_store ..)) ?_
  rintro r _ rfl
  cases r with
  | ok _ => exact .bind (H.ask (.record .merged) trivial) fun _ _ _ => .pure rfl
  | error fault => exact .pure rfl

theorem storeFor (H : Concord R R' A player) (id : GroupId) (raws : List String) :
    Lockstep R R Eq ((Operation.storeFor id raws).perform (World.handle player))
      ((Operation.storeFor id raws).perform (World.handle player)) := by
  have listing : Lockstep R R
      (fun l l' => l.map (fun g => (g.id, g.space)) = l'.map fun g => (g.id, g.space))
      (World.handle player .groups) (World.handle player .groups) :=
    fun _ _ hR => ⟨H.groups hR, hR⟩
  refine .bind listing fun l l' h => ?_
  have found := Group.find?_lockstep h id
  cases hl : l.find? (·.id = id) with
  | none =>
    rw [hl] at found
    rw [Option.map_eq_none_iff.1 found.symm]
    exact .pure rfl
  | some g =>
    rw [hl] at found
    obtain ⟨g', found', e⟩ := Option.map_eq_some_iff.1 found.symm
    rw [found']
    refine .bind (H.storeKeys ⟨(congrArg Prod.fst e).symm, (congrArg Prod.snd e).symm⟩ raws) ?_
    rintro r _ rfl
    exact .pure rfl

theorem answering (H : Concord R R' A player) {α : Type} {m n : StateM World α} (f : α → Answer)
    (hm : Lockstep R R Eq m n) : Lockstep R R' A (do return f (← m)) (do return f (← n)) := by
  refine .bind (hm.weaken fun _ _ => H.sub) ?_
  rintro a _ rfl
  exact .pure (H.refl _)

theorem tuned (H : Concord R R' A player) {f : Settings → StateM World Answer}
    (hf : ∀ s, Lockstep R R' A (f s) (f s)) :
    Lockstep R R' A (do f (← get).settings) (do f (← get).settings) := by
  refine .bind .get fun w v hR => ?_
  rw [H.settings hR]
  exact hf _

theorem perform (H : Concord R R' A player) {op : Operation} (hop : ¬ op.Starts) :
    Lockstep R R' A (op.perform (World.handle player)) (op.perform (World.handle player)) := by
  cases op with
  | rebuild | rebuildSnapshot | executeAll | execute => exact absurd trivial hop
  | lookup space key =>
    exact H.tuned fun s => H.answering .ids
      (H.common (fun _ => Effect.Looking.common) (Lookup.within_groups s space key))
  | primary space key =>
    exact H.tuned fun s => H.answering .id (H.common (fun _ => Effect.Looking.common)
      (p := Lookup.primary s space key) (.map _ (Lookup.within_groups s space key)))
  | lookupKey key =>
    exact H.answering .ids (H.common (fun _ => Effect.Looking.common) (Lookup.within_ofKey key))
  | store group raws =>
    exact .bind .get fun w v hR =>
      H.answering .outcome (H.storeKeys (Group.resolve_lockstep (H.groups hR) group) raws)
  | storeFor id raws =>
    intro w v hR
    obtain ⟨same, after⟩ := H.storeFor id raws hR
    exact ⟨same ▸ H.refl _, H.sub after⟩
  | overlay => exact H.answering .entry (H.ask .readOverlay trivial)
  | snapshot latest => exact H.answering .snapshot (H.ask (.readStore latest) trivial)
  | keys =>
    exact H.answering (fun r => .keys (r.map Std.ExtTreeMap.keys))
      (H.ask (.readStore false) trivial)
  | clearCache => exact H.answering (fun _ => .nothing) (H.ask .clearCache trivial)
  | overlaySize | advance | setClock | register | unregister | sync | pending | drain | acquire
  | release | held | token | changes | metrics | rebuilding | settings | accepts | fail | hook =>
    exact H.direct _ trivial

end World.Concord

namespace World.Accord

variable {R : World → World → Prop} {A : Answer → Answer → Prop} {player : Player}

theorem handle (H : Accord R A) (hp : player.Respects R) {e : Effect} (he : e.Common) :
    Lockstep R R Eq (handle player e) (World.handle player e) := by
  have hook := lockstep_runHook (fun _ _ => H.hooks) (fun _ _ => H.waiting) hp
  refine lockstep_handle (fun _ _ _ => rfl) (fun _ _ => H.failing) (fun _ _ => id) hook hook ?_
  rw [reply_eq_idle he.not_perform]
  exact H.reply e he

theorem concord (H : Accord R A) (hp : player.Respects R) : Concord R R A player where
  settings := H.settings
  groups := H.groups
  sub := id
  ask _ he := H.handle hp he
  direct op := H.direct op _
  refl := H.refl

theorem start (H : Accord R A) (s : Settings) (purge : Option Instant) :
    Lockstep R R Eq ((Rebuild.start s purge).run (World.handle player))
      ((Rebuild.start s purge).run (World.handle player)) := by
  intro w v hR
  obtain ⟨hw, hv⟩ := H.running hR
  rw [start_running _ hw, start_running _ hv]
  exact ⟨rfl,
    (H.reply (.record .skipped) trivial (H.reply (.report .nestedRebuild) trivial hR).2).2⟩

theorem execute (H : Accord R A) (s : Settings) (t : Task) :
    Lockstep R R Eq ((t.execute s).run (World.handle player))
      ((t.execute s).run (World.handle player)) := by
  cases t with
  | rebuild purge =>
    rw [Task.execute, Proc.run_bind]
    refine .bind (H.start s purge) ?_
    rintro r _ rfl
    exact .pure rfl
  | refreshStatistics groups => exact .pure rfl

theorem executeTasks (H : Accord R A) (s : Settings) (ts : List Task) :
    Lockstep R R Eq (Operation.executeTasks (World.handle player) s ts)
      (Operation.executeTasks (World.handle player) s ts) := by
  induction ts with
  | nil => exact .pure rfl
  | cons t ts ih =>
    refine .bind (H.execute s t) ?_
    rintro r _ rfl
    refine .bind ih ?_
    rintro rs _ rfl
    exact .pure rfl

theorem perform (H : Accord R A) (hp : player.Respects R) (op : Operation) :
    Lockstep R R A (op.perform (World.handle player)) (op.perform (World.handle player)) := by
  have C := H.concord hp
  cases op with
  | rebuild purge => exact C.tuned fun s => C.answering .report (H.start s purge)
  | rebuildSnapshot purge =>
    exact C.tuned fun s =>
      C.answering (fun r => .snapshot (r.map Report.snapshot)) (H.start s purge)
  | executeAll =>
    refine .bind (S := R) (A := Eq) (fun w v hR => ?_) ?_
    · exact ⟨congrArg TaskQueue.tasks (H.queue hR),
        (H.direct .drain (World.handle player) trivial hR).2⟩
    · rintro ts _ rfl
      exact C.tuned fun s => C.answering .executed (H.executeTasks s ts)
  | execute task => exact C.tuned fun s => C.answering .outcome (H.execute s task)
  | _ => exact C.perform id

theorem play (H : Accord R A) (depth : Nat) : (play depth).Respects R := by
  induction depth with
  | zero => exact fun _ _ => .pure trivial
  | succ depth ih =>
    intro label operations
    induction operations with
    | nil => exact .pure trivial
    | cons op ops rest =>
      intro w v hR
      obtain ⟨answers, performed⟩ := H.perform ih op hR
      exact rest (H.note label performed answers)

end World.Accord

end ClaimIndex
