import ClaimIndex.Proofs.Parallel

namespace ClaimIndex

/-- What enumerating groups comes to, apart from their keys. -/
structure Deeds where
  actions : List (GroupId × List Operation) := []
  failure : Option Fault := none

def Deeds.andThen (d rest : Deeds) : Deeds :=
  match d.failure with
  | some _ => d
  | none => ⟨d.actions ++ rest.actions, rest.failure⟩

theorem Deeds.andThen_nothing (d : Deeds) : d.andThen {} = d := by
  obtain ⟨actions, failure⟩ := d
  cases failure with
  | some fault => rfl
  | none => exact congrArg (Deeds.mk · none) (List.append_nil actions)

namespace Group

mutual

def deeds : Group → Deeds
  | fixed .. | registered _ => {}
  | aggregate _ _ members => deedsAll members
  | scripted id _ _ _ _ failure actions => ⟨[(id, actions)], failure.map (.groupKeys id)⟩

def deedsAll : List Group → Deeds
  | [] => {}
  | g :: gs => (if g.isPresent then g.deeds else {}).andThen (deedsAll gs)

end

end Group

def Build.deeds (groups : List Group) : Deeds := Group.deedsAll (order groups)

namespace World

variable {w v : World}

def enact (actions : List (GroupId × List Operation)) (w : World) : World :=
  actions.foldl (fun w (id, operations) => ((play depth ("group " ++ id) operations).run w).2) w

theorem enact_append (actions rest : List (GroupId × List Operation)) (w : World) :
    enact (actions ++ rest) w = enact rest (enact actions w) := List.foldl_append

def Warned (w v : World) : Prop := w.Running ∧ v = { w with notices := v.notices }

theorem Warned.refl (hw : w.Running) : Warned w w := ⟨hw, rfl⟩

theorem Warned.report (h : Warned w v) (notices : List Notice) : Warned w { v with notices } :=
  ⟨h.1, congrArg (fun u : World => { u with notices }) h.2⟩

theorem reply_warned {e : Effect} (he : e.Common) (w : World) (notices : List Notice) :
    ((reply idle e).run w).1 = ((reply idle e).run { w with notices }).1 ∧
      ∃ after, ((reply idle e).run { w with notices }).2 =
        { ((reply idle e).run w).2 with notices := after } := by
  cases e with
  | groups | perform | writeStore | leave => exact he.elim
  | acquire =>
    rw [reply_acquire, reply_acquire]
    exact ⟨rfl, _, rfl⟩
  | enqueue task =>
    rw [reply_enqueue, reply_enqueue]
    dsimp only
    cases w.queue.enqueue task <;> exact ⟨rfl, _, rfl⟩
  | _ => exact ⟨rfl, _, rfl⟩

theorem direct_warned {op : Operation} (hop : op.Direct) (h : Handler World) (w : World)
    (notices : List Notice) :
    ((op.perform h).run w).1 = ((op.perform h).run { w with notices }).1 ∧
      ((op.perform h).run { w with notices }).2 = { ((op.perform h).run w).2 with notices } ∧
      ((op.perform h).run w).2.running = w.running := by
  cases op with
  | overlaySize | advance | setClock | register | unregister | sync | pending | drain | acquire
  | release | held | token | changes | metrics | rebuilding | settings | accepts | fail | hook =>
    exact ⟨rfl, rfl, rfl⟩
  | _ => exact hop.elim

theorem accord_warned : Accord Warned Eq where
  running h := ⟨h.1, (congrArg World.running h.2).trans h.1⟩
  settings h := (congrArg World.settings h.2).symm
  hooks h := (congrArg World.hooks h.2).symm
  failing h := (congrArg World.failing h.2).symm
  queue h := (congrArg World.queue h.2).symm
  groups h := congrArg _ (congrArg World.registry h.2).symm
  waiting hooks h := ⟨h.1, congrArg (fun u : World => { u with hooks }) h.2⟩
  note label h same := ⟨h.1, same ▸ congrArg (Motion.note label _).apply h.2⟩
  reply e he w v := by
    rintro ⟨hw, same⟩
    obtain ⟨answer, after, left⟩ := reply_warned he w v.notices
    rw [← same] at answer left
    refine ⟨answer, hw.reply ?_, ?_⟩
    · rintro rfl
      exact he
    · rw [left]
  direct op k hop w v := by
    rintro ⟨hw, same⟩
    obtain ⟨answer, left, running⟩ := direct_warned hop k w v.notices
    rw [← same] at answer left
    refine ⟨answer, running.trans hw, ?_⟩
    rw [left]
  refl _ := rfl

theorem Warned.enact (h : Warned w v) (actions : List (GroupId × List Operation)) :
    Warned (enact actions w) (World.enact actions v) := by
  induction actions generalizing w v with
  | nil => exact h
  | cons action actions ih => exact ih (accord_warned.play depth _ action.2 h).2

end World

open Proc (yields_ask yields_bind yields_map yields_pure)

def Enacts {α : Type} (x : Attempt α) (d : Deeds) : Prop :=
  ∀ ⦃w v r v'⦄, World.Warned w v → x.run.Yields (World.handle (World.play World.depth)) v r v' →
    World.Warned (World.enact d.actions w) v' ∧ match r with
      | .ok _ => d.failure = none
      | .error fault => d.failure = some fault

namespace Enacts

variable {α β : Type} {x : Attempt α} {d rest : Deeds}

theorem pure (a : α) : Enacts (pure a) {} := by
  intro w v r v' h hy
  obtain ⟨rfl, rfl⟩ := yields_pure.1 hy
  exact ⟨h, rfl⟩

theorem throw (fault : Fault) : Enacts (throw fault : Attempt α) { failure := some fault } := by
  intro w v r v' h hy
  obtain ⟨rfl, rfl⟩ := yields_pure.1 hy
  exact ⟨h, rfl⟩

theorem bind {f : α → Attempt β} (hx : Enacts x d) (hf : ∀ a, Enacts (f a) rest) :
    Enacts (x >>= f) (d.andThen rest) := by
  intro w v r v' h hy
  rw [ExceptT.run_bind] at hy
  obtain ⟨a, u, first, hy⟩ := yields_bind.1 hy
  obtain ⟨enacted, failed⟩ := hx h first
  cases a with
  | error fault =>
    obtain ⟨rfl, rfl⟩ := yields_pure.1 hy
    rw [Deeds.andThen, failed]
    exact ⟨enacted, failed⟩
  | ok a =>
    rw [Deeds.andThen, failed]
    dsimp only
    rw [World.enact_append]
    exact hf a enacted hy

theorem map (f : α → β) (hx : Enacts x d) : Enacts (f <$> x) d := by
  have mapped := hx.bind fun a => pure (f a)
  rwa [bind_pure_comp, Deeds.andThen_nothing] at mapped

theorem perform (id : GroupId) (actions : List Operation) :
    Enacts (Proc.ask (.perform id actions) : Attempt Unit) { actions := [(id, actions)] } := by
  intro w v r v' h hy
  obtain ⟨_, asked, rfl⟩ := yields_map.1 hy
  obtain rfl : ((World.handle _ (.perform id actions)).run v).2 = v' :=
    congrArg Prod.snd (yields_ask.1 asked)
  exact ⟨h.enact [(id, actions)], rfl⟩

theorem report (notice : Notice) : Enacts (Proc.ask (.report notice) : Attempt Unit) {} := by
  intro w v r v' h hy
  obtain ⟨_, asked, rfl⟩ := yields_map.1 hy
  obtain rfl : ((World.handle _ (.report notice)).run v).2 = v' :=
    congrArg Prod.snd (yields_ask.1 asked)
  exact ⟨h.report _, rfl⟩

theorem reportAll (notices : List α) (notice : α → Notice) :
    Enacts (notices.forM fun a => (Proc.ask (.report (notice a)) : Attempt Unit)) {} := by
  induction notices with
  | nil => exact pure ()
  | cons a notices ih => exact (report (notice a)).bind fun _ => ih

end Enacts

namespace Group

mutual

theorem enacts_enumerate : ∀ g : Group, Enacts g.enumerate g.deeds
  | fixed .. | registered _ => Enacts.pure _
  | aggregate _ _ members => (enacts_enumerateAll members).map distinct
  | scripted id _ keys _ _ failure actions => by
    have performed := Enacts.perform id actions
    cases failure with
    | some message => exact performed.bind fun _ => Enacts.throw (.groupKeys id message)
    | none => exact performed.bind fun _ => Enacts.pure keys

theorem enacts_enumerateAll : ∀ gs : List Group, Enacts (enumerateAll gs) (deedsAll gs)
  | [] => Enacts.pure []
  | g :: gs => by
    have rest (front : List String) :
        Enacts (do return front ++ (← enumerateAll gs)) (deedsAll gs) := by
      rw [bind_pure_comp]
      exact (enacts_enumerateAll gs).map _
    unfold enumerateAll deedsAll
    split
    · exact (enacts_enumerate g).bind rest
    · exact (Enacts.pure []).bind rest

end

end Group

namespace Build

theorem enacts_add (b : Build) (g : Group) :
    Enacts (b.add g) (if g.isPresent then g.deeds else {}) := by
  unfold add
  split
  · refine g.deeds.andThen_nothing ▸ g.enacts_enumerate.bind fun keys => ?_
    dsimp only
    split
    · exact Enacts.pure _
    · exact (Enacts.reportAll _ _).map fun _ => _
  · exact (Enacts.report _).map fun _ => b

theorem enacts_foldlM (gs : List Group) (b : Build) :
    Enacts (gs.foldlM add b) (Group.deedsAll gs) := by
  induction gs generalizing b with
  | nil => exact Enacts.pure b
  | cons g gs ih => exact (enacts_add b g).bind ih

theorem enacts_ofGroups (groups : List Group) : Enacts (ofGroups groups) (deeds groups) :=
  enacts_foldlM (order groups) {}

end Build

end ClaimIndex
