import ClaimIndex.Proofs.Procedure
import ClaimIndex.Proofs.Body
import Mathlib.Logic.Relation

/-! What can happen to a world while a rebuild runs in it.  The operations that groups perform
and those that wait for a moment are taken apart into single changes, so that whatever survives
each change survives the whole enumeration. -/

namespace ClaimIndex

namespace World

def idle : Player := fun _ _ => return

inductive Motion
  | reply (e : Effect)
  | clock (now : Instant)
  | registry (groups : List Group)
  | sync
  | drain
  | hear
  | note (label : String) (answer : Answer)
  | hooks (waiting : List (Moment × List Operation))
  | failing (points : List Point)

def Motion.apply : Motion → World → World
  | reply e, w => ((World.reply idle e).run w).2
  | clock now, w => { w with clock := now }
  | registry groups, w => { w with registry := groups }
  | sync, w => { w with store := w.store.sync }
  | drain, w => { w with queue := w.queue.drain.2 }
  | hear, w => { w with heard := w.log.length }
  | note label answer, w => { w with nested := w.nested ++ [(label, answer)] }
  | hooks waiting, w => { w with hooks := waiting }
  | failing points, w => { w with failing := points }

def Moves (P : Motion → Prop) : World → World → Prop :=
  Relation.ReflTransGen fun w w' => ∃ m, P m ∧ m.apply w = w'

namespace Moves

variable {P Q : Motion → Prop} {w v u : World}

theorem refl : Moves P w w := Relation.ReflTransGen.refl

theorem one {m : Motion} (hm : P m) : Moves P w (m.apply w) := .single ⟨m, hm, rfl⟩

theorem trans (h : Moves P w v) (h' : Moves P v u) : Moves P w u :=
  Relation.ReflTransGen.trans h h'

theorem mono (hPQ : ∀ m, P m → Q m) (h : Moves P w v) : Moves Q w v :=
  Relation.ReflTransGen.mono (fun _ _ ⟨m, hm, e⟩ => ⟨m, hPQ m hm, e⟩) _ _ h

theorem keeps {I : World → Prop} (hI : ∀ m w, P m → I w → I (m.apply w))
    (h : Moves P w v) (hw : I w) : I v := by
  induction h with
  | refl => exact hw
  | tail _ step ih =>
    obtain ⟨m, hm, rfl⟩ := step
    exact hI m _ hm ih

theorem same {β : Type} {f : World → β} (hf : ∀ m w, P m → f (m.apply w) = f w)
    (h : Moves P w v) : f v = f w :=
  h.keeps (I := fun u => f u = f w) (fun m u hm e => (hf m u hm).trans e) rfl

end Moves

end World

open World (Motion Moves)

def Metrics.Event.Passing : Metrics.Event → Prop
  | skipped | lookup _ | merged => True
  | _ => False

def Effect.Calm : Effect → Prop
  | now | uptime | acquire | release | cached _ | generation | cache .. | clearCache
  | readStore _ | readKey _ | readOverlay | groups | report _ => True
  | record event => event.Passing
  | enter | leave | writeStore .. | writeOverlay _ | dropOverlay _ | touch _ | enqueue _ | notify ..
  | perform .. => False

def Effect.Merging (e : Effect) : Prop := e.Calm ∨ ∃ entry, e = .writeOverlay entry

def Effect.Looking : Effect → Prop
  | cached _ | generation | cache .. | readKey _ | readOverlay | record (.lookup _) | report _ =>
    True
  | _ => False

theorem Effect.Looking.calm {e : Effect} (he : e.Looking) : e.Calm := by
  cases e with
  | cached | generation | cache | readKey | readOverlay | report => trivial
  | record event =>
    cases event with
    | lookup => trivial
    | _ => exact he.elim
  | _ => exact he.elim

def Effect.Adding : Effect → Prop
  | now | readOverlay | writeOverlay _ => True
  | _ => False

theorem Effect.Adding.merging {e : Effect} (he : e.Adding) : e.Merging := by
  cases e with
  | now | readOverlay => exact .inl trivial
  | writeOverlay entry => exact .inr ⟨entry, rfl⟩
  | _ => exact he.elim

/-- A handler whose replies to the effects in `E` change the world by changes of kind `P`,
wherever `I` holds. -/
structure Inert (I : World → Prop) (P : Motion → Prop) (h : Handler World)
    (E : Effect → Prop) : Prop where
  keeps : ∀ m w, P m → I w → I (m.apply w)
  asks : ∀ e, E e → ∀ w, I w → Moves P w ((h e).run w).2

variable {I : World → Prop} {P : Motion → Prop} {E : Effect → Prop} {h : Handler World}
  {w w' : World} {α : Type}

theorem Inert.mono {F : Effect → Prop} (H : Inert I P h E) (hFE : ∀ e, F e → E e) :
    Inert I P h F :=
  { H with asks := fun e he => H.asks e (hFE e he) }

theorem Inert.run (H : Inert I P h E) {p : Proc α} (hp : p.Within E) (hw : I w) :
    Moves P w ((p.run h).run w).2 := by
  induction p generalizing w with
  | done a => exact .refl
  | call e next ih =>
    have first := H.asks e hp.1 w hw
    exact first.trans (ih _ (hp.2 _) (first.keeps H.keeps hw))

theorem Inert.yields (H : Inert I P h E) {p : Proc α} (hp : p.Within E) (hw : I w) {a : α}
    (hy : p.Yields h w a w') : Moves P w w' := by
  have hm := H.run hp hw
  rwa [show (p.run h).run w = (a, w') from hy] at hm

namespace Lookup

theorem within_fromStore (k : Key) (generation : Option UInt64) :
    (fromStore k generation).Within Effect.Looking := by
  refine .bind (.ask trivial) fun found => ?_
  cases found with
  | error fault => exact .bind (.ask trivial) fun _ => .bind (.ask trivial) fun _ => .pure
  | ok found =>
    cases generation with
    | none => exact .bind (.ask trivial) fun _ => .pure
    | some g => exact .bind (.map _ (.ask trivial)) fun _ => .bind (.ask trivial) fun _ => .pure

theorem within_ofKey (k : Key) : (ofKey k).Within Effect.Looking := by
  refine .bind (.ask trivial) fun cached => ?_
  cases cached with
  | some ids => exact .bind (.ask trivial) fun _ => .pure
  | none =>
    refine .bind (.ask trivial) fun g => .bind ?_ fun found => ?_
    · exact Proc.within_bindAttempt (.ask trivial) fun _ => .pure
    · match found with
      | .ok (some id) =>
        exact .bind (.map _ (.ask trivial)) fun _ => .bind (.ask trivial) fun _ => .pure
      | .ok none => exact within_fromStore k (some g)
      | .error fault => exact .bind (.ask trivial) fun _ => within_fromStore k none

theorem within_groups (s : Settings) (space : Namespace) (raw : String) :
    (groups s space raw).Within Effect.Looking := by
  unfold groups
  split
  · exact within_ofKey _
  · exact .bind (.ask trivial) fun _ => .pure

end Lookup

theorem Overlay.within_store (id : GroupId) (space : Namespace) (raws : List String) :
    (store id space raws).run.Within Effect.Adding :=
  Proc.within_bindAttempt (.ask (E := Effect.Adding) trivial) fun _ =>
    Proc.within_bindAttempt (.ask (E := Effect.Adding) trivial) fun _ =>
      .ask (E := Effect.Adding) trivial

theorem Overlay.adding_add (g : Group) (raws : List String) :
    (add g raws).Within fun e => e.Adding ∨ e = .record .merged := by
  refine .bind ((within_store g.id g.space raws).mono fun _ => .inl) fun r => ?_
  cases r with
  | error fault => exact .pure
  | ok u => exact .bind (.ask (.inr rfl)) fun _ => .pure

theorem Overlay.within_add (g : Group) (raws : List String) :
    (add g raws).Within Effect.Merging := by
  refine (adding_add g raws).mono fun e he => ?_
  obtain he | rfl := he
  · exact he.merging
  · exact .inl trivial

def Refuses (I : World → Prop) (h : Handler World) : Prop :=
  ∀ w, I w → (h .enter).run w = (false, w)

theorem Rebuild.moves_start (H : Inert I P h Effect.Calm) (refuses : Refuses I h) (s : Settings)
    (purge : Option Instant) (hw : I w) : Moves P w (((start s purge).run h).run w).2 := by
  let skip : Proc (Except Fault Report) := do
    Proc.ask (.report .nestedRebuild)
    Proc.ask (.record .skipped)
    return .ok { skipped := true }
  have hskip : skip.Within Effect.Calm :=
    .bind (.ask trivial) fun _ => .bind (.ask trivial) fun _ => .pure
  have hrun : ((start s purge).run h).run w = (skip.run h).run w := by
    rw [start, Proc.run_bind, Proc.run_ask]
    change (Proc.run h (if ((h .enter).run w).1 then _ else skip)).run ((h .enter).run w).2 = _
    rw [refuses w hw]
    rfl
  rw [hrun]
  exact H.run hskip hw

theorem Task.moves_execute (H : Inert I P h Effect.Calm) (refuses : Refuses I h) (s : Settings)
    (t : Task) (hw : I w) : Moves P w (((t.execute s).run h).run w).2 := by
  cases t with
  | rebuild purge =>
    have start := Rebuild.moves_start H refuses s purge hw
    rw [execute, Proc.run_bind]
    exact start
  | refreshStatistics groups => exact .refl

namespace Operation

theorem moves_executeTasks (H : Inert I P h Effect.Calm) (refuses : Refuses I h) (s : Settings)
    (ts : List Task) (hw : I w) : Moves P w ((executeTasks h s ts).run w).2 := by
  induction ts generalizing w with
  | nil => exact .refl
  | cons t ts ih =>
    have first := Task.moves_execute H refuses s t hw
    exact first.trans (ih (first.keeps H.keeps hw))

def IsMerge : Operation → Prop
  | store .. | storeFor .. => True
  | _ => False

def motion? (w : World) : Operation → Option Motion
  | advance span => some (.clock (w.clock.after span))
  | setClock now => some (.clock now)
  | register group => some (.registry (w.registry ++ [group.resolve w.registry]))
  | unregister id => some (.registry (w.registry.filter (·.id ≠ id)))
  | sync => some .sync
  | drain | executeAll => some .drain
  | changes => some .hear
  | fail point on =>
    some (.failing (if on then point :: w.failing else w.failing.filter (· ≠ point)))
  | hook moment operations => some (.hooks (w.hooks ++ [(moment, operations)]))
  | acquire => some (.reply .acquire)
  | release => some (.reply .release)
  | _ => none

def Asks (op : Operation) (e : Effect) : Prop := e.Calm ∨ op.IsMerge ∧ e.Merging

theorem moves_storeKeys (H : Inert I P h Effect.Merging) (g : Group) (raws : List String)
    (hw : I w) : Moves P w ((storeKeys h g raws).run w).2 := by
  rw [storeKeys_eq]
  exact H.run (Overlay.within_add g raws) hw

theorem moves_storeFor (H : Inert I P h Effect.Merging) (id : GroupId) (raws : List String)
    (hw : I w) : Moves P w (((storeFor id raws).perform h).run w).2 := by
  rw [perform_body rfl]
  refine H.run (.bind (.ask (.inl trivial)) fun groups => ?_) hw
  cases groups.find? (·.id = id) with
  | none => exact .pure
  | some g => exact .map _ (Overlay.within_add g raws)

def Starts : Operation → Prop
  | rebuild _ | rebuildSnapshot _ | executeAll | execute _ => True
  | _ => False

theorem moves_perform {op : Operation} (H : Inert I P h op.Asks)
    (refuses : op.Starts → Refuses I h) (direct : ∀ m, op.motion? w = some m → P m) (hw : I w) :
    Moves P w ((op.perform h).run w).2 := by
  have calm : Inert I P h Effect.Calm := H.mono fun _ he => .inl he
  have looking : Inert I P h Effect.Looking := calm.mono fun _ => Effect.Looking.calm
  cases op with
  | rebuild purge | rebuildSnapshot purge =>
    exact Rebuild.moves_start calm (refuses trivial) _ purge hw
  | lookup space key => exact looking.run (Lookup.within_groups ..) hw
  | primary space key =>
    exact looking.run (p := Lookup.primary w.settings space key)
      (.map _ (Lookup.within_groups ..)) hw
  | lookupKey key => exact looking.run (Lookup.within_ofKey key) hw
  | store group raws => exact moves_storeKeys (H.mono fun _ he => .inr ⟨trivial, he⟩) _ raws hw
  | storeFor id raws => exact moves_storeFor (H.mono fun _ he => .inr ⟨trivial, he⟩) id raws hw
  | overlay => exact calm.asks .readOverlay trivial w hw
  | overlaySize => exact .refl
  | snapshot latest => exact calm.asks (.readStore latest) trivial w hw
  | keys => exact calm.asks (.readStore false) trivial w hw
  | executeAll =>
    have drained : Moves P w (Motion.drain.apply w) := .one (direct _ rfl)
    exact drained.trans
      (moves_executeTasks calm (refuses trivial) _ _ (drained.keeps H.keeps hw))
  | execute task => exact Task.moves_execute calm (refuses trivial) _ task hw
  | clearCache => exact calm.asks .clearCache trivial w hw
  | acquire | release | advance | setClock | register | unregister | sync | drain | changes | fail
  | hook => exact .one (direct _ rfl)
  | pending | held | token name | metrics | rebuilding | settings | accepts space => exact .refl

end Operation

namespace World

variable {player : Player}

theorem reply_eq_idle {e : Effect} (he : ∀ group actions, e ≠ .perform group actions) :
    reply player e = reply idle e := by
  cases e with
  | perform group actions => exact absurd rfl (he group actions)
  | _ => rfl

theorem reply_acquire (player : Player) (w : World) : (reply player .acquire).run w =
    ((w.lock.acquire (w.files.wait 1)).1, { w with
      lock := (w.lock.acquire (w.files.wait 1)).2.1
      files := (w.lock.acquire (w.files.wait 1)).2.2 }) := rfl

theorem reply_writeStore (player : Player) (s : Snapshot) (c : Changes) (w : World) :
    (reply player (.writeStore s c)).run w = ((w.store.write w.files s c).1, { w with
      store := (w.store.write w.files s c).2.1
      files := (w.store.write w.files s c).2.2 }) := rfl

theorem runHook_run (player : Player) (moment : Moment) (w : World) :
    (runHook player moment).run w = match w.hooks.find? (·.1 = moment) with
      | none => ((), w)
      | some (_, operations) =>
        (player moment.name operations).run { w with hooks := w.hooks.eraseP (·.1 = moment) } := by
  change StateT.run (match w.hooks.find? (·.1 = moment) with
    | none => return
    | some (_, operations) => do
      modify fun w => { w with hooks := w.hooks.eraseP (·.1 = moment) }
      player moment.name operations : StateM World Unit) w = _
  split <;> rfl

theorem runHook_unhooked (player : Player) (moment : Moment) {w : World} (hw : w.hooks = []) :
    (runHook player moment).run w = ((), w) := by
  rw [runHook_run, hw]
  rfl

theorem reply_enqueue (player : Player) (task : Task) (w : World) :
    (reply player (.enqueue task)).run w = match w.queue.enqueue task with
      | .ok queue => (.ok (), { w with queue })
      | .error fault => (.error fault, w) := rfl

theorem exists_tasks (player : Player) (task : Task) (w : World) :
    ∃ tasks, ((reply player (.enqueue task)).run w).2 =
      { w with queue := { w.queue with tasks } } := by
  rw [reply_enqueue]
  unfold TaskQueue.enqueue
  by_cases closed : w.queue.closed = true
  · rw [if_pos closed]
    exact ⟨w.queue.tasks, rfl⟩
  · rw [if_neg closed]
    exact ⟨_, rfl⟩

theorem reply_enter (player : Player) {w : World} (hw : w.running = true) :
    (reply player .enter).run w = (false, w) := by
  cases w
  cases hw
  rfl

end World

def Effect.Tame : Effect → Prop
  | writeStore .. | leave => False
  | _ => True

theorem Effect.Calm.tame {e : Effect} (he : e.Calm) : e.Tame := by
  cases e with
  | writeStore | leave => exact he
  | _ => trivial

theorem Effect.Merging.tame {e : Effect} (he : e.Merging) : e.Tame := by
  obtain he | ⟨entry, rfl⟩ := he
  · exact he.tame
  · trivial

def World.Motion.Tame : Motion → Prop
  | reply e => e.Tame
  | _ => True

namespace World

variable {player : Player}

def Running (w : World) : Prop := w.running = true

theorem Running.reply {e : Effect} (he : e ≠ .leave) (hw : w.Running) :
    ((reply idle e).run w).2.Running := by
  cases e with
  | leave => exact absurd rfl he
  | enter => rfl
  | enqueue task =>
    obtain ⟨tasks, e⟩ := exists_tasks idle task w
    exact (congrArg World.running e).trans hw
  | _ => exact hw

def Motion.Staying : Motion → Prop
  | reply e => e ≠ .leave
  | _ => True

theorem Motion.Tame.staying {m : Motion} (hm : m.Tame) : m.Staying := by
  cases m with
  | reply e =>
    rintro rfl
    exact hm
  | _ => trivial

theorem Running.stay {m : Motion} (hm : m.Staying) (hw : w.Running) : (m.apply w).Running := by
  cases m with
  | reply e => exact hw.reply hm
  | _ => exact hw

theorem Running.apply {m : Motion} (hm : m.Tame) (hw : w.Running) : (m.apply w).Running :=
  hw.stay hm.staying

/-- Kinds of changes that calls and what waits for them can be made of while a rebuild runs. -/
structure Motion.Kind (P : Motion → Prop) : Prop where
  staying : ∀ m, P m → m.Staying
  hooks : ∀ waiting, P (.hooks waiting)

theorem Motion.kind_staying : Kind Motion.Staying := ⟨fun _ => id, fun _ => trivial⟩

theorem Motion.kind_tame : Kind Motion.Tame := ⟨fun _ => Tame.staying, fun _ => trivial⟩

def Player.Makes (P : Motion → Prop) (player : Player) : Prop :=
  ∀ label operations w, w.Running → Moves P w ((player label operations).run w).2

def Player.Tame (player : Player) : Prop :=
  ∀ label operations w, w.Running → Moves Motion.Tame w ((player label operations).run w).2

section

variable {P : Motion → Prop}

theorem Moves.running (hP : Motion.Kind P) (h : Moves P w v) (hw : w.Running) : v.Running :=
  h.keeps (fun m _ hm => Running.stay (hP.staying m hm)) hw

theorem moves_reply (hp : player.Makes P) {e : Effect} (he : P (.reply e)) (hw : w.Running) :
    Moves P w ((reply player e).run w).2 := by
  by_cases performs : ∃ group actions, e = .perform group actions
  · obtain ⟨group, actions, rfl⟩ := performs
    exact hp _ actions w hw
  · rw [reply_eq_idle fun group actions h => performs ⟨group, actions, h⟩]
    exact .one (m := .reply e) he

theorem moves_runHook (hP : Motion.Kind P) (hp : player.Makes P) (moment : Moment)
    (hw : w.Running) : Moves P w ((runHook player moment).run w).2 := by
  rw [runHook_run]
  split
  · exact .refl
  · have taken : Moves P w ((Motion.hooks (w.hooks.eraseP (·.1 = moment))).apply w) :=
      .one (hP.hooks _)
    exact taken.trans (hp _ _ _ (taken.running hP hw))

end

/-- How a call goes: nothing can interfere, it fails, or it gets through to the collaborator. -/
inductive Call (player : Player) (e : Effect) (w : World) (result : e.Reply × World) : Prop
  | sure (safe : e.outage? = none) (replied : result = (reply player e).run w)
  | down {point : Point} {r : e.Reply} {v : World} (risky : e.outage? = some (point, r))
    (before : v = ((runHook player (.before point)).run w).2) (fails : point ∈ v.failing)
    (failed : result = (r, v))
  | up {point : Point} {r : e.Reply} {v : World} (risky : e.outage? = some (point, r))
    (before : v = ((runHook player (.before point)).run w).2) (works : point ∉ v.failing)
    (replied : result = (((reply player e).run v).1,
      ((runHook player (.after point)).run ((reply player e).run v).2).2))

theorem call_handle (player : Player) (e : Effect) (w : World) :
    Call player e w ((handle player e).run w) := by
  unfold handle
  split
  · exact .sure ‹_› rfl
  · rename_i point r risky
    by_cases fails : point ∈ ((runHook player (.before point)).run w).2.failing
    · refine .down risky rfl fails ?_
      change StateT.run (if point ∈ ((runHook player (.before point)).run w).2.failing then
        return r else _ : StateM World e.Reply) _ = _
      rw [if_pos fails]
      rfl
    · refine .up risky rfl fails ?_
      change StateT.run (if point ∈ ((runHook player (.before point)).run w).2.failing then
        return r else _ : StateM World e.Reply) _ = _
      rw [if_neg fails]
      rfl

theorem keeps_handle {I : World → Prop} (unhooked : ∀ w, I w → w.hooks = []) {e : Effect}
    (hI : ∀ w, I w → I ((reply player e).run w).2) (hw : I w) :
    I ((handle player e).run w).2 := by
  cases call_handle player e w with
  | sure safe replied => exact replied ▸ hI w hw
  | down risky before fails failed =>
    rw [failed, before, runHook_unhooked _ _ (unhooked w hw)]
    exact hw
  | up risky before works replied =>
    rw [runHook_unhooked _ _ (unhooked w hw)] at before
    subst before
    have after := hI _ hw
    rw [replied, runHook_unhooked _ _ (unhooked _ after)]
    exact after

section

variable {P : Motion → Prop}

theorem Call.replied (hP : Motion.Kind P) (hp : player.Makes P) {e : Effect} {r : e.Reply}
    {w' : World} (h : Call player e w (r, w')) (hw : w.Running)
    (kept : ∀ v, v.Running → ((reply player e).run v).2.Running)
    (up : ∀ point down, e.outage? = some (point, down) → r ≠ down) :
    ∃ v v', Moves P w v ∧ (reply player e).run v = (r, v') ∧ Moves P v' w' := by
  cases h with
  | sure safe replied => exact ⟨w, w', .refl, replied.symm, .refl⟩
  | down risky before fails failed => exact absurd (Prod.mk.inj failed).1 (up _ _ risky)
  | up risky before works replied =>
    rename_i point down v
    obtain ⟨rfl, rfl⟩ := Prod.mk.inj replied
    have moved := moves_runHook hP hp (.before point) hw
    rw [← before] at moved
    have running : v.Running := moved.running hP hw
    exact ⟨v, _, moved, rfl, moves_runHook hP hp _ (kept v running)⟩

theorem moves_handle (hP : Motion.Kind P) (hp : player.Makes P) {e : Effect}
    (he : P (.reply e)) (hw : w.Running) : Moves P w ((handle player e).run w).2 := by
  cases call_handle player e w with
  | sure safe replied => exact replied ▸ moves_reply hp he hw
  | down risky before fails failed =>
    rw [failed, before]
    exact moves_runHook hP hp _ hw
  | up risky before works replied =>
    rename_i point down v
    have moved := moves_runHook hP hp (.before point) hw
    rw [← before] at moved
    have answered := moved.trans (moves_reply hp he (moved.running hP hw))
    rw [replied]
    exact answered.trans (moves_runHook hP hp _ (answered.running hP hw))

theorem inert_handle (hP : Motion.Kind P) (hp : player.Makes P) :
    Inert Running P (handle player) fun e => P (.reply e) where
  keeps m _ hm := Running.stay (hP.staying m hm)
  asks _ he _ hw := moves_handle hP hp he hw

end

def next (h : Handler World) (label : String) (op : Operation) (w : World) : World :=
  (Motion.note label ((op.perform h).run w).1).apply ((op.perform h).run w).2

theorem play_cons (depth : Nat) (label : String) (op : Operation) (ops : List Operation)
    (w : World) : (play (depth + 1) label (op :: ops)).run w =
      (play (depth + 1) label ops).run (next (handle (play depth)) label op w) := rfl

def Motion.Ordinary : Motion → Prop
  | .reply e => e.Merging
  | _ => True

theorem Motion.Ordinary.tame {m : Motion} (hm : m.Ordinary) : m.Tame := by
  cases m with
  | reply e => exact Effect.Merging.tame hm
  | _ => trivial

theorem Motion.kind_ordinary : Kind Motion.Ordinary :=
  ⟨fun _ hm => hm.tame.staying, fun _ => trivial⟩

theorem ordinary_motion {op : Operation} {m : Motion} (hm : op.motion? w = some m) :
    m.Ordinary := by
  cases op with
  | acquire | release => cases hm; exact .inl trivial
  | _ => first | exact (Option.some_ne_none _ hm.symm).elim | (cases hm; trivial)

theorem ordinary_play (depth : Nat) : (play depth).Makes Motion.Ordinary := by
  induction depth with
  | zero => exact fun _ _ _ _ => .refl
  | succ depth ih =>
    intro label operations w hw
    induction operations generalizing w with
    | nil => exact .refl
    | cons op ops rest =>
      have H : Inert Running Motion.Ordinary (handle (play depth)) op.Asks :=
        (inert_handle Motion.kind_ordinary ih).mono fun _ he => he.elim .inl (·.2)
      have performed :=
        Operation.moves_perform H (fun _ _ => reply_enter (play depth))
          (fun _ => ordinary_motion) hw
      have next : Moves Motion.Ordinary w (next (handle (play depth)) label op w) :=
        performed.trans (.one (m := .note label _) trivial)
      exact next.trans (rest _ (next.running Motion.kind_ordinary hw))

theorem Running.handle {e : Effect} (he : e ≠ .leave) (hw : w.Running) (depth : Nat) :
    ((World.handle (play depth) e).run w).2.Running :=
  (moves_handle Motion.kind_staying (P := Motion.Staying) (fun label operations w hw =>
    (ordinary_play depth label operations w hw).mono fun _ hm => hm.tame.staying) he hw).running
      Motion.kind_staying hw

theorem tame_play (depth : Nat) : (play depth).Tame := fun label operations w hw =>
  (ordinary_play depth label operations w hw).mono fun _ => Motion.Ordinary.tame

end World

end ClaimIndex
