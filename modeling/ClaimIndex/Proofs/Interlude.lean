import ClaimIndex.Proofs.Transcript

namespace ClaimIndex

namespace Operation

mutual

/-- Operations that neither rebuild nor change the registry nor take or give back the lock, now or
at a moment that they prepare. -/
def minor : Operation → Bool
  | rebuild _ | rebuildSnapshot _ | executeAll | execute _ | register _ | unregister _ | acquire
  | release => false
  | hook _ operations => minorAll operations
  | _ => true

def minorAll : List Operation → Bool
  | [] => true
  | op :: ops => op.minor && minorAll ops

end

end Operation

def Effect.Minor : Effect → Prop
  | now | cached _ | generation | cache .. | clearCache | readStore _ | readKey _ | readOverlay
  | writeOverlay _ | groups | report _ => True
  | record event => event.Passing
  | _ => False

def Effect.Standing (e : Effect) : Prop :=
  ∀ group actions, e = .perform group actions → Operation.minorAll actions = true

namespace Effect

variable {e : Effect}

theorem Looking.minor (he : e.Looking) : e.Minor := by
  cases e with
  | record event =>
    cases event with
    | lookup => trivial
    | _ => exact he.elim
  | cached | generation | cache | readKey | readOverlay | report => trivial
  | _ => exact he.elim

theorem Adding.minor (he : e.Adding) : e.Minor := by
  cases e with
  | now | readOverlay | writeOverlay => trivial
  | _ => exact he.elim

theorem Minor.merging (he : e.Minor) : e.Merging := by
  cases e with
  | writeOverlay entry => exact .inr ⟨entry, rfl⟩
  | now | cached | generation | cache | clearCache | readStore | readKey | readOverlay | groups
  | report | record => exact .inl he
  | _ => exact he.elim

end Effect

namespace Operation

variable {op : Operation} {w : World} {p : Proc Answer}

theorem within_body (minor : op.minor = true) (hp : op.body? w = some p) :
    p.Within Effect.Minor := by
  have looking {α : Type} {q : Proc α} (hq : q.Within Effect.Looking) : q.Within Effect.Minor :=
    hq.mono fun _ => Effect.Looking.minor
  have adding (g : Group) (raws : List String) :
      (Answer.outcome <$> Overlay.add g raws).Within Effect.Minor := by
    refine .map _ ((Overlay.adding_add g raws).mono fun e he => ?_)
    obtain he | rfl := he
    · exact he.minor
    · trivial
  cases op with
  | rebuild | rebuildSnapshot | execute => cases minor
  | lookup space key => cases hp; exact .map _ (looking (Lookup.within_groups ..))
  | primary space key => cases hp; exact .map _ (.map _ (looking (Lookup.within_groups ..)))
  | lookupKey key => cases hp; exact .map _ (looking (Lookup.within_ofKey key))
  | store group raws => cases hp; exact adding _ raws
  | storeFor id raws =>
    cases hp
    refine .bind (.ask trivial) fun groups => ?_
    cases groups.find? (·.id = id) with
    | none => exact .pure
    | some g => exact adding g raws
  | overlay => cases hp; exact .map _ (.ask (e := .readOverlay) trivial)
  | snapshot latest => cases hp; exact .map _ (.ask trivial)
  | keys => cases hp; exact .map _ (.ask trivial)
  | clearCache => cases hp; exact .bind (.ask trivial) fun _ => .pure
  | _ => cases hp

end Operation

namespace World

variable {w v : World} {m : Motion} {groups : List Group} {player : Player} {e : Effect}
  {op : Operation}

def Motion.Minor : Motion → Prop
  | .reply e => e.Minor
  | .registry _ => False
  | .hooks waiting => ∀ hook ∈ waiting, Operation.minorAll hook.2 = true
  | _ => True

theorem Motion.Minor.ordinary (hm : m.Minor) : m.Ordinary := by
  cases m with
  | reply e => exact Effect.Minor.merging hm
  | _ => trivial

structure Stands (w : World) (groups : List Group) : Prop where
  registry : w.registry = groups
  waiting : ∀ hook ∈ w.hooks, Operation.minorAll hook.2 = true

theorem Stands.reply (h : w.Stands groups)
    (performs : ∀ group actions, e ≠ .perform group actions) :
    ((reply player e).run w).2.Stands groups := by
  obtain ⟨hooks, -, registry, -⟩ := reply_frame player performs w
  exact ⟨registry.trans h.registry, fun hook there => h.waiting hook (hooks ▸ there)⟩

theorem Stands.apply (hm : m.Minor) (h : w.Stands groups) : (m.apply w).Stands groups := by
  cases m with
  | reply e => exact h.reply (not_perform_of_merging (Effect.Minor.merging hm))
  | registry => exact hm.elim
  | hooks waiting => exact ⟨h.registry, hm⟩
  | _ => exact ⟨h.registry, h.waiting⟩

theorem Motion.Minor.tame (hm : m.Minor) : m.Tame := hm.ordinary.tame

theorem Stands.moves (h : w.Stands groups) (hm : Moves Motion.Minor w v) : v.Stands groups :=
  hm.keeps (I := fun w => w.Stands groups) (fun _ _ hm h => h.apply hm) h

theorem files_minor (hm : m.Minor) (w : World) : (m.apply w).files = w.files := by
  cases m with
  | reply e =>
    cases e with
    | now | cached | generation | cache | clearCache | readStore | readKey | readOverlay
    | writeOverlay | groups | report | record => rfl
    | _ => exact hm.elim
  | _ => rfl

theorem Moves.files (h : Moves Motion.Minor w v) : v.files = w.files :=
  h.same fun _ w hm => files_minor hm w

def Player.Minor (player : Player) : Prop :=
  ∀ label operations w groups, Operation.minorAll operations = true → w.Stands groups →
    Moves Motion.Minor w ((player label operations).run w).2

theorem minor_runHook (hp : player.Minor) (moment : Moment) (h : w.Stands groups) :
    Moves Motion.Minor w ((runHook player moment).run w).2 := by
  rw [runHook_run]
  split
  · exact .refl
  · rename_i operations found
    have taken : Moves Motion.Minor w ((Motion.hooks (w.hooks.eraseP (·.1 = moment))).apply w) :=
      .one fun hook there => h.waiting hook (List.mem_of_mem_eraseP there)
    exact taken.trans (hp _ _ _ _ (h.waiting _ (List.mem_of_find?_eq_some found)) (h.moves taken))

theorem Stands.amid (hp : player.Minor) (h : w.Stands groups)
    (replies : ∀ x, x.Stands groups → ((World.reply player e).run x).2.Stands groups) :
    ∃ x, Moves Motion.Minor w x ∧
      ((∃ point down, e.outage? = some (point, down) ∧ (handle player e).run w = (down, x)) ∨
        ((handle player e).run w).1 = ((World.reply player e).run x).1 ∧
          Moves Motion.Minor ((World.reply player e).run x).2 ((handle player e).run w).2) := by
  cases call_handle player e w with
  | sure safe replied => exact ⟨w, .refl, .inr ⟨congrArg Prod.fst replied, replied ▸ .refl⟩⟩
  | down risky before fails failed =>
    rename_i point down x
    have moved := minor_runHook hp (.before point) h
    rw [← before] at moved
    exact ⟨x, moved, .inl ⟨point, down, risky, failed⟩⟩
  | up risky before works replied =>
    rename_i point down x
    have moved := minor_runHook hp (.before point) h
    rw [← before] at moved
    rw [replied]
    refine ⟨x, moved, .inr ⟨rfl, ?_⟩⟩
    exact minor_runHook hp _ (replies x (h.moves moved))

theorem minor_handle (hp : player.Minor) (he : e.Minor) (h : w.Stands groups) :
    Moves Motion.Minor w ((handle player e).run w).2 := by
  have performs := not_perform_of_merging he.merging
  obtain ⟨x, before, ⟨_, _, -, failed⟩ | ⟨-, after⟩⟩ :=
    h.amid hp fun x hx => hx.reply performs
  · rw [failed]
    exact before
  · have answered : Moves Motion.Minor x ((reply player e).run x).2 := by
      rw [reply_eq_idle performs]
      exact .one (m := .reply e) he
    exact before.trans (answered.trans after)

theorem inert_minor (hp : player.Minor) (groups : List Group) :
    Inert (fun w => w.Stands groups) Motion.Minor (handle player) Effect.Minor where
  keeps _ _ hm h := h.apply hm
  asks _ he _ h := minor_handle hp he h

theorem minor_perform (hp : player.Minor) (minor : op.minor = true) (h : w.Stands groups) :
    Moves Motion.Minor w ((op.perform (handle player)).run w).2 := by
  cases body : op.body? w with
  | some p =>
    rw [Operation.perform_body body]
    exact (inert_minor hp groups).run (Operation.within_body minor body) h
  | none =>
    rw [Operation.perform_direct body (by rintro rfl; cases minor)]
    cases direct : op.motion? w with
    | none => exact .refl
    | some m =>
      refine .one (?_ : m.Minor)
      cases op with
      | hook moment operations =>
        cases direct
        intro hook there
        obtain there | there := List.mem_append.1 there
        · exact h.waiting hook there
        · rw [List.mem_singleton.1 there]
          exact minor
      | register | unregister | acquire | release | executeAll => cases minor
      | advance | setClock | sync | drain | changes | fail => cases direct; trivial
      | _ => cases direct

theorem minor_play (depth : Nat) : (play depth).Minor := by
  induction depth with
  | zero => exact fun _ _ _ _ _ _ => .refl
  | succ depth ih =>
    intro label operations w groups minor h
    induction operations generalizing w with
    | nil => exact .refl
    | cons op ops rest =>
      rw [Operation.minorAll, Bool.and_eq_true] at minor
      have next : Moves Motion.Minor w (next (handle (play depth)) label op w) :=
        (minor_perform ih minor.1 h).trans (.one (m := .note label _) trivial)
      exact next.trans (rest _ minor.2 (h.moves next))

theorem minor_steps {ops : List Operation} (minor : Operation.minorAll ops = true)
    (h : w.Stands groups) : Moves Motion.Minor w ((steps ops).run w).2 := by
  induction ops generalizing w with
  | nil => exact .refl
  | cons op ops ih =>
    rw [Operation.minorAll, Bool.and_eq_true] at minor
    have first : Moves Motion.Minor w ((step op).run w).2 :=
      minor_perform (minor_play depth) minor.1 h
    exact first.trans (ih minor.2 (h.moves first))

theorem Stands.replied (hp : player.Minor) (h : w.Stands groups) {r : e.Reply}
    (hr : (handle player e).run w = (r, v))
    (performs : ∀ group actions, e ≠ .perform group actions)
    (up : ∀ point down, e.outage? = some (point, down) → r ≠ down) :
    ∃ x y, Moves Motion.Minor w x ∧ (World.reply player e).run x = (r, y) ∧
      Moves Motion.Minor y v := by
  obtain ⟨x, before, ⟨point, down, risky, failed⟩ | ⟨answer, after⟩⟩ :=
    h.amid hp fun x hx => hx.reply performs
  · rw [hr] at failed
    exact absurd (Prod.mk.inj failed).1 (up point down risky)
  · rw [hr] at answer after
    exact ⟨x, ((World.reply player e).run x).2, before, Prod.ext answer.symm rfl, after⟩

theorem Stands.handle (hp : player.Minor) (he : e.Standing) (h : w.Stands groups) :
    ((handle player e).run w).2.Stands groups := by
  have replies (x : World) (hx : x.Stands groups) :
      ((World.reply player e).run x).2.Stands groups := by
    by_cases performs : ∃ group actions, e = .perform group actions
    · obtain ⟨group, actions, rfl⟩ := performs
      exact hx.moves (hp _ _ _ _ (he group actions rfl) hx)
    · exact hx.reply fun group actions same => performs ⟨group, actions, same⟩
  obtain ⟨x, before, ⟨_, _, -, failed⟩ | ⟨-, after⟩⟩ := h.amid hp replies
  · rw [failed]
    exact h.moves before
  · exact (replies x (h.moves before)).moves after

theorem standing_aside (he : Rebuild.Aside e) : e.Standing := by
  rintro group actions rfl
  simp [Rebuild.Aside, Rebuild.Guarding] at he

section

open Proc (Yields)

variable {α : Type} {p : Proc α} {a : α} {s : Settings} {purge : Option Instant} {report : Report}

theorem Stands.asked (hp : player.Minor) (h : w.Stands groups) {r : e.Reply}
    (hr : (World.handle player e).run w = (r, v)) (he : e.Standing) : v.Stands groups := by
  have kept := h.handle hp he
  rwa [hr] at kept

theorem Stands.yields (hp : player.Minor) (within : p.Within Effect.Standing)
    (h : w.Stands groups) (hy : p.Yields (World.handle player) w a v) : v.Stands groups :=
  within.keeps_yields (I := fun w => w.Stands groups) (fun _ he _ h => h.handle hp he) hy h

theorem Stands.publish (hp : player.Minor) (h : w.Stands groups)
    (scripts : ∀ g ∈ groups, ∀ actions ∈ g.scripts, Operation.minorAll actions = true)
    {commit : Rebuild.Commit}
    (hy : Rebuild.publish.run.Yields (World.handle player) w (.ok commit) v) :
    v.Stands groups ∧ commit.build = Build.outcome groups := by
  obtain ⟨old, listing, read, listed, built, hread, hlist, hbuild, hwrite, -⟩ :=
    Rebuild.yields_publish hy
  have reading := h.asked hp hread nofun
  obtain ⟨rfl, rfl⟩ := Prod.mk.inj hlist
  obtain rfl : read.registry = groups := reading.registry
  have building := Build.within_ofGroups (A := (Operation.minorAll · = true)) scripts
  have filled := reading.yields hp (building.mono fun e he => by
    rintro group actions rfl
    exact he) hbuild
  exact ⟨filled.asked hp hwrite nofun, Build.eq_outcome hbuild⟩

theorem Stands.course (hp : player.Minor) (h : w.Stands groups)
    (scripts : ∀ g ∈ groups, ∀ actions ∈ g.scripts, Operation.minorAll actions = true)
    (hc : Rebuild.Course (World.handle player) s purge w v report) :
    v.Stands groups ∧ report.built = Build.outcome groups := by
  have aside {α : Type} {p : Proc α} (within : p.Within Rebuild.Aside) :
      p.Within Effect.Standing := within.mono fun _ => standing_aside
  obtain ⟨enter, -, lock, publish, unlock, settle, leave⟩ := hc
  have entered := h.asked hp enter nofun
  have locked := entered.yields hp (aside (Rebuild.within_lock.mono fun _ => .inl)) lock
  obtain ⟨published, built⟩ := locked.publish hp scripts publish
  have released := published.yields hp (aside (Rebuild.within_unlock.mono fun _ => .inl)) unlock
  have settled := released.yields hp (aside Rebuild.within_settle) settle
  obtain ⟨_, rfl⟩ := Rebuild.report_of_settle settle
  exact ⟨settled.asked hp leave nofun, built⟩

end

end World

end ClaimIndex
