import ClaimIndex.Proofs.Built
import ClaimIndex.Proofs.Motion

/-! Worlds in which no call is made to fail and nothing waits to interrupt one.  Operations that
prepare neither keep a world so, and in such a world collaborators just reply. -/

namespace ClaimIndex

mutual

def Group.plain : Group → Bool
  | .fixed .. | .registered _ => true
  | .aggregate _ _ members => Group.plainAll members
  | .scripted _ _ _ _ _ _ actions => Operation.plainAll actions

def Group.plainAll : List Group → Bool
  | [] => true
  | g :: gs => g.plain && Group.plainAll gs

def Operation.plain : Operation → Bool
  | .fail .. | .hook .. => false
  | .register group => group.plain
  | _ => true

def Operation.plainAll : List Operation → Bool
  | [] => true
  | op :: ops => op.plain && Operation.plainAll ops

end

namespace Group

mutual

theorem plain_scripts : ∀ g : Group, g.plain = true →
    ∀ actions ∈ g.scripts, Operation.plainAll actions = true
  | .fixed .., _, _, h => (List.not_mem_nil h).elim
  | .registered _, _, _, h => (List.not_mem_nil h).elim
  | .aggregate _ _ members, hg, actions, h => plainAll_scripts members hg actions h
  | .scripted .., hg, _, h => List.mem_singleton.1 h ▸ hg

theorem plainAll_scripts : ∀ gs : List Group, plainAll gs = true →
    ∀ actions ∈ scriptsAll gs, Operation.plainAll actions = true
  | [], _, _, h => (List.not_mem_nil h).elim
  | g :: gs, hgs, actions, h => by
    rw [plainAll, Bool.and_eq_true] at hgs
    obtain h | h := List.mem_append.1 h
    · exact plain_scripts g hgs.1 actions h
    · exact plainAll_scripts gs hgs.2 actions h

end

theorem plainAll_iff {gs : List Group} : plainAll gs = true ↔ ∀ g ∈ gs, g.plain = true := by
  induction gs with
  | nil => simp [plainAll]
  | cons g gs ih => simp [plainAll, ih]

mutual

theorem plain_resolve {registry : List Group} (h : ∀ g ∈ registry, g.plain = true) :
    ∀ g : Group, g.plain = true → (g.resolve registry).plain = true
  | .fixed .., _ => rfl
  | .scripted .., hg => hg
  | .aggregate _ _ members, hg => plainAll_resolveAll h members hg
  | .registered id, _ => by
    rw [resolve]
    cases hfind : registry.find? (·.id = id) with
    | none => rfl
    | some g => exact h g (List.mem_of_find?_eq_some hfind)

theorem plainAll_resolveAll {registry : List Group} (h : ∀ g ∈ registry, g.plain = true) :
    ∀ gs : List Group, plainAll gs = true → plainAll (resolveAll registry gs) = true
  | [], _ => rfl
  | g :: gs, hgs => by
    rw [plainAll, Bool.and_eq_true] at hgs
    rw [resolveAll, plainAll, plain_resolve h g hgs.1, plainAll_resolveAll h gs hgs.2]
    rfl

end

end Group

theorem Operation.plainAll_iff {ops : List Operation} :
    plainAll ops = true ↔ ∀ op ∈ ops, op.plain = true := by
  induction ops with
  | nil => simp [plainAll]
  | cons op ops ih => simp [plainAll, ih]

namespace World

variable {w w' : World} {player : Player} {e : Effect}

structure Quiet (w : World) : Prop where
  hooks : w.hooks = []
  failing : w.failing = []

structure Undisturbed (w : World) : Prop extends Quiet w where
  plain : ∀ g ∈ w.registry, g.plain = true

theorem reply_frame (player : Player) (he : ∀ group actions, e ≠ .perform group actions)
    (w : World) :
    let v := ((reply player e).run w).2
    v.hooks = w.hooks ∧ v.failing = w.failing ∧ v.registry = w.registry ∧
      v.settings = w.settings ∧ v.clock = w.clock ∧ v.queue.closed = w.queue.closed := by
  rw [reply_eq_idle he]
  cases e with
  | perform group actions => exact absurd rfl (he group actions)
  | enqueue task =>
    obtain ⟨tasks, e⟩ := exists_tasks idle task w
    rw [e]
    exact ⟨rfl, rfl, rfl, rfl, rfl, rfl⟩
  | _ => exact ⟨rfl, rfl, rfl, rfl, rfl, rfl⟩

theorem motion_frame (m : Motion) (w : World) :
    (m.apply w).settings = w.settings ∧ (m.apply w).queue.closed = w.queue.closed := by
  cases m with
  | reply e =>
    by_cases performs : ∃ group actions, e = .perform group actions
    · obtain ⟨group, actions, rfl⟩ := performs
      exact ⟨rfl, rfl⟩
    · obtain ⟨-, -, -, settings, -, closed⟩ :=
        reply_frame idle (fun group actions h => performs ⟨group, actions, h⟩) w
      exact ⟨settings, closed⟩
  | _ => exact ⟨rfl, rfl⟩

theorem Quiet.handle (hw : w.Quiet) (he : ∀ group actions, e ≠ .perform group actions) :
    (handle player e).run w = (reply idle e).run w := by
  have still : ((reply player e).run w).2.hooks = [] := (reply_frame player he w).1.trans hw.hooks
  rw [← reply_eq_idle he]
  cases call_handle player e w with
  | sure safe replied => exact replied
  | down risky before fails failed =>
    rw [before, runHook_unhooked _ _ hw.hooks, hw.failing] at fails
    cases fails
  | up risky before works replied =>
    rw [runHook_unhooked _ _ hw.hooks] at before
    subst before
    rw [replied, runHook_unhooked _ _ still]
    rfl

theorem Quiet.run (hw : w.Quiet) {α : Type} {E : Effect → Prop} {p : Proc α} (hp : p.Within E)
    (hE : ∀ e, E e → ∀ group actions, e ≠ .perform group actions) :
    (p.run (World.handle player)).run w = (p.run (reply idle)).run w := by
  induction p generalizing w with
  | done a => rfl
  | call e next ih =>
    have he := hE e hp.1
    have frame := reply_frame idle he w
    have still : ((reply idle e).run w).2.Quiet :=
      ⟨frame.1.trans hw.hooks, frame.2.1.trans hw.failing⟩
    change ((next ((World.handle player e).run w).1).run (World.handle player)).run
      ((World.handle player e).run w).2 = _
    rw [hw.handle he]
    exact ih _ still (hp.2 _)

def Motion.Plain : Motion → Prop
  | .reply e => e.Merging
  | .registry groups => ∀ g ∈ groups, g.plain = true
  | .hooks _ | .failing _ => False
  | _ => True

theorem not_perform_of_merging (he : e.Merging) (group : GroupId)
    (actions : List Operation) : e ≠ .perform group actions := by
  rintro rfl
  obtain he | ⟨entry, he⟩ := he
  · exact he
  · cases he

theorem not_perform_of_calm {e : Effect} (he : e.Calm) : ∀ group actions,
    e ≠ .perform group actions :=
  not_perform_of_merging (.inl he)

theorem Undisturbed.apply {m : Motion} (hm : m.Plain) (hw : w.Undisturbed) :
    (m.apply w).Undisturbed := by
  cases m with
  | reply e =>
    obtain ⟨hooks, failing, registry, -⟩ := reply_frame idle (not_perform_of_merging hm) w
    exact ⟨⟨hooks.trans hw.hooks, failing.trans hw.failing⟩,
      fun g hg => hw.plain g (registry ▸ hg)⟩
  | registry groups => exact ⟨⟨hw.hooks, hw.failing⟩, hm⟩
  | hooks | failing => exact hm.elim
  | _ => exact ⟨⟨hw.hooks, hw.failing⟩, hw.plain⟩

theorem Undisturbed.motion (hw : w.Undisturbed) {op : Operation} (hop : op.plain = true)
    {m : Motion} (hm : op.motion? w = some m) : m.Plain := by
  cases op with
  | register group =>
    cases hm
    intro g hg
    obtain hg | hg := List.mem_append.1 hg
    · exact hw.plain g hg
    · rw [List.mem_singleton.1 hg]
      exact Group.plain_resolve hw.plain group hop
  | unregister id =>
    cases hm
    exact fun g hg => hw.plain g (List.mem_filter.1 hg).1
  | fail | hook => cases hop
  | acquire | release => cases hm; exact .inl trivial
  | _ => first | exact (Option.some_ne_none _ hm.symm).elim | (cases hm; trivial)

def Steady (w : World) : Prop := w.Running ∧ w.Undisturbed

theorem inert_steady (player : Player) :
    Inert Steady (fun m => m.Plain ∧ m.Tame) (handle player) Effect.Merging where
  keeps _ _ hm hw := ⟨Running.apply hm.2 hw.1, hw.2.apply hm.1⟩
  asks e he w hw := by
    rw [hw.2.handle (not_perform_of_merging he)]
    exact .one (m := .reply e) ⟨he, he.tame⟩

theorem Steady.perform (hw : w.Steady) {op : Operation} (hop : op.plain = true) :
    ((op.perform (handle player)).run w).2.Steady := by
  have H : Inert Steady (fun m => m.Plain ∧ m.Tame) (handle player) op.Asks :=
    (inert_steady player).mono fun _ he => he.elim .inl (·.2)
  exact (Operation.moves_perform H (fun _ _ hw => reply_enter player hw.1)
    (fun m hm => ⟨hw.2.motion hop hm, (ordinary_motion hm).tame⟩) hw).keeps
    H.keeps hw

theorem Steady.next (hw : w.Steady) {op : Operation} (hop : op.plain = true) (label : String) :
    (next (handle player) label op w).Steady :=
  have kept : Steady ((op.perform (handle player)).run w).2 := hw.perform hop
  ⟨kept.1, ⟨⟨kept.2.hooks, kept.2.failing⟩, kept.2.plain⟩⟩

end World

end ClaimIndex
