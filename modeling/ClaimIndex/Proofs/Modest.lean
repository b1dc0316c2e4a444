import ClaimIndex.Proofs.Course

namespace ClaimIndex

def Operation.modest : Operation → List Operation
  | rebuild _ | rebuildSnapshot _ | execute (.rebuild _) => []
  | executeAll => [drain]
  | op => [op]

namespace Group

mutual

def modest : Group → Group
  | fixed id space keys present => fixed id space keys present
  | aggregate id space members => aggregate id space (modestAll members)
  | scripted id space keys derived present failure actions =>
    scripted id space keys derived present failure (actions.flatMap Operation.modest)
  | registered id => registered id

def modestAll : List Group → List Group
  | [] => []
  | g :: gs => g.modest :: modestAll gs

end

@[simp] theorem id_modest (g : Group) : g.modest.id = g.id := by
  cases g <;> rfl

@[simp] theorem space_modest (g : Group) : g.modest.space = g.space := by
  cases g <;> rfl

@[simp] theorem isPresent_modest (g : Group) : g.modest.isPresent = g.isPresent := by
  cases g <;> rfl

@[simp] theorem isDerived_modest (g : Group) : g.modest.isDerived = g.isDerived := by
  cases g <;> rfl

theorem modest_flatMap (ops : List Operation) :
    (ops.flatMap Operation.modest).flatMap Operation.modest = ops.flatMap Operation.modest := by
  rw [List.flatMap_assoc]
  congr 1
  funext op
  cases op with
  | execute task => cases task <;> rfl
  | _ => rfl

mutual

theorem modest_modest : ∀ g : Group, g.modest.modest = g.modest
  | fixed .. | registered _ => rfl
  | aggregate id space members => congrArg (aggregate id space) (modestAll_modestAll members)
  | scripted id space keys derived present failure actions =>
    congrArg (scripted id space keys derived present failure) (modest_flatMap actions)

theorem modestAll_modestAll : ∀ gs : List Group, modestAll (modestAll gs) = modestAll gs
  | [] => rfl
  | g :: gs => congrArg₂ List.cons (modest_modest g) (modestAll_modestAll gs)

end

mutual

theorem modest_resolve (l : List Group) :
    ∀ g : Group, (g.resolve l).modest = g.modest.resolve (l.map modest)
  | fixed .. | scripted .. => rfl
  | aggregate id space members => congrArg (aggregate id space) (modestAll_resolveAll l members)
  | registered id => by
    have found : (l.map modest).find? (·.id = id) = (l.find? (·.id = id)).map modest := by
      rw [List.find?_map]
      congr 1
      congr 1
      funext g
      exact congrArg (fun known : GroupId => decide (known = id)) (id_modest g)
    rw [modest, resolve, resolve, found]
    cases l.find? (·.id = id) <;> rfl

theorem modestAll_resolveAll (l : List Group) :
    ∀ gs : List Group, modestAll (resolveAll l gs) = resolveAll (l.map modest) (modestAll gs)
  | [] => rfl
  | g :: gs => congrArg₂ List.cons (modest_resolve l g) (modestAll_resolveAll l gs)

end

mutual

theorem scripts_modest : ∀ g : Group, ∀ actions ∈ g.modest.scripts,
    ∃ ops : List Operation, actions = ops.flatMap Operation.modest
  | fixed .., _, h | registered _, _, h => (List.not_mem_nil h).elim
  | aggregate _ _ members, actions, h => scriptsAll_modestAll members actions h
  | scripted _ _ _ _ _ _ ops, _, h => ⟨ops, List.mem_singleton.1 h⟩

theorem scriptsAll_modestAll : ∀ gs : List Group, ∀ actions ∈ scriptsAll (modestAll gs),
    ∃ ops : List Operation, actions = ops.flatMap Operation.modest
  | [], _, h => (List.not_mem_nil h).elim
  | g :: gs, actions, h =>
    (List.mem_append.1 h).elim (scripts_modest g actions) (scriptsAll_modestAll gs actions)

end

end Group

def Effect.Plain : Effect → Prop
  | groups | perform .. | leave => False
  | _ => True

namespace Proc

variable {α β : Type}

/-- Two procedures that ask for the same, whatever the replies, but for rebuilds within. -/
inductive Mirror {α : Type} : Proc α → Proc α → Prop
  | done (a : α) : Mirror (done a) (done a)
  | call {e : Effect} {next next' : e.Reply → Proc α} (plain : e.Plain)
    (rest : ∀ r, Mirror (next r) (next' r)) : Mirror (call e next) (call e next')
  | groups {next next' : List Group → Proc α} (rest : ∀ l l' : List Group,
      l.map Group.modest = l'.map Group.modest → Mirror (next l) (next' l')) :
    Mirror (call .groups next) (call .groups next')
  | perform {id : GroupId} {ops ops' : List Operation} {next next' : Unit → Proc α}
    (same : ops.flatMap Operation.modest = ops'.flatMap Operation.modest)
    (rest : ∀ r, Mirror (next r) (next' r)) :
    Mirror (call (.perform id ops) next) (call (.perform id ops') next')

namespace Mirror

theorem pure (a : α) : Mirror (pure a) (Pure.pure a) := done a

theorem ask {e : Effect} (he : e.Plain) : Mirror (ask e) (Proc.ask e) :=
  call he fun r => done r

theorem of_within {E : Effect → Prop} (hE : ∀ e, E e → e.Plain) {p : Proc α}
    (hp : p.Within E) : Mirror p p := by
  induction p with
  | done a => exact done a
  | call e next ih => exact call (hE e hp.1) fun r => ih r (hp.2 r)

theorem within {p q : Proc α} (h : Mirror p q) : p.Within (· ≠ .leave) := by
  induction h with
  | done a => exact .pure
  | call plain rest ih =>
    refine ⟨?_, ih⟩
    rintro rfl
    exact plain
  | groups rest ih => exact ⟨nofun, fun l => ih l l rfl⟩
  | perform same rest ih => exact ⟨nofun, ih⟩

theorem bind {p q : Proc α} {f g : α → Proc β} (h : Mirror p q)
    (hf : ∀ a, Mirror (f a) (g a)) : Mirror (p >>= f) (q >>= g) := by
  change Mirror (p.bind f) (q.bind g)
  induction h with
  | done a => exact hf a
  | call plain rest ih => exact call plain ih
  | groups rest ih => exact groups ih
  | perform same rest ih => exact perform same ih

theorem bindAttempt {x y : Attempt α} {f g : α → Attempt β} (h : Mirror x.run y.run)
    (hf : ∀ a, Mirror (f a).run (g a).run) : Mirror (x >>= f).run (y >>= g).run := by
  rw [ExceptT.run_bind, ExceptT.run_bind]
  refine bind h fun r => ?_
  cases r with
  | error fault => exact pure _
  | ok a => exact hf a

end Mirror

end Proc

section Enumeration

open Proc (Mirror)

mutual

theorem Group.mirror_enumerate : ∀ g g' : Group, g.modest = g'.modest →
    Mirror g.enumerate.run g'.enumerate.run
  | .fixed .., g', h => by
    cases g' with
    | fixed => cases h; exact .pure _
    | _ => cases h
  | .aggregate id space members, g', h => by
    cases g' with
    | aggregate id' space' members' =>
      simp only [modest, aggregate.injEq] at h
      simp only [enumerate, map_eq_pure_bind]
      exact .bindAttempt (mirror_enumerateAll members members' h.2.2) fun _ => .pure _
    | _ => cases h
  | .scripted id space keys derived present failure actions, g', h => by
    cases g' with
    | scripted id' space' keys' derived' present' failure' actions' =>
      simp only [modest, scripted.injEq] at h
      obtain ⟨rfl, rfl, rfl, rfl, rfl, rfl, same⟩ := h
      refine .bindAttempt (x := (Proc.ask (.perform id actions) : Attempt Unit))
        (y := (Proc.ask (.perform id actions') : Attempt Unit)) ?_ fun _ => ?_
      · exact .perform same fun _ => .done _
      · cases failure <;> exact .pure _
    | _ => cases h
  | .registered id, g', h => by
    cases g' with
    | registered => exact .pure _
    | _ => cases h

theorem Group.mirror_enumerateAll : ∀ gs gs' : List Group, modestAll gs = modestAll gs' →
    Mirror (enumerateAll gs).run (enumerateAll gs').run
  | [], [], _ => .pure _
  | [], _ :: _, h => by cases h
  | _ :: _, [], h => by cases h
  | g :: gs, g' :: gs', h => by
    obtain ⟨first, rest⟩ := List.cons.inj h
    have present : g.isPresent = g'.isPresent := by
      rw [← isPresent_modest, first, isPresent_modest]
    rw [enumerateAll, enumerateAll, present]
    have others (front : List String) := Mirror.bindAttempt (mirror_enumerateAll gs gs' rest)
      fun back => .pure (Except.ok (front ++ back))
    split
    · exact .bindAttempt (mirror_enumerate g g' first) others
    · exact .bindAttempt (.pure _) others

end

namespace Build

theorem plain_of_report {e : Effect} (he : ∃ notice, e = .report notice) : e.Plain := by
  obtain ⟨notice, rfl⟩ := he
  trivial

theorem mirror_add (b : Build) {g g' : Group} (h : g.modest = g'.modest) :
    Mirror (b.add g).run (b.add g').run := by
  have id : g.id = g'.id := by rw [← Group.id_modest, h, Group.id_modest]
  have space : g.space = g'.space := by rw [← Group.space_modest, h, Group.space_modest]
  have present : g.isPresent = g'.isPresent := by
    rw [← Group.isPresent_modest, h, Group.isPresent_modest]
  have derived : g.isDerived = g'.isDerived := by
    rw [← Group.isDerived_modest, h, Group.isDerived_modest]
  unfold add
  rw [id, space, present, derived]
  split
  · refine .bindAttempt (g.mirror_enumerate g' h) fun raws => ?_
    split
    · exact .pure _
    · refine .bindAttempt (.of_within (fun e => plain_of_report) ?_) fun _ => .pure _
      exact Proc.within_forM _ fun _ => .map _ (.ask ⟨_, rfl⟩)
  · exact .bindAttempt (.of_within (fun e => plain_of_report) (.map _ (.ask ⟨_, rfl⟩)))
      fun _ => .pure _

theorem mirror_foldlM_add (b : Build) {l l' : List Group}
    (h : l.map Group.modest = l'.map Group.modest) :
    Mirror (l.foldlM add b).run (l'.foldlM add b).run := by
  induction l generalizing l' b with
  | nil =>
    obtain rfl := List.map_eq_nil_iff.1 h.symm
    exact .pure _
  | cons g gs ih =>
    cases l' with
    | nil => cases h
    | cons g' gs' =>
      obtain ⟨first, rest⟩ := List.cons.inj h
      rw [List.foldlM_cons, List.foldlM_cons]
      exact .bindAttempt (mirror_add b first) fun c => ih c rest

theorem map_modest_order (l : List Group) :
    (order l).map Group.modest = order (l.map Group.modest) := by
  simp only [order, List.map_append, List.filter_map, Function.comp_def, Group.isDerived_modest]

theorem mirror_ofGroups {l l' : List Group} (h : l.map Group.modest = l'.map Group.modest) :
    Mirror (ofGroups l).run (ofGroups l').run :=
  mirror_foldlM_add {} (by rw [map_modest_order, map_modest_order, h])

end Build

namespace Rebuild

theorem plain_of_aside {e : Effect} (he : Aside e) : e.Plain := by
  cases e with
  | groups | perform | leave => simp [Aside, Guarding] at he
  | _ => trivial

theorem mirror_aside {α : Type} {p : Proc α} (hp : p.Within Aside) : Mirror p p :=
  .of_within (fun _ => plain_of_aside) hp

theorem mirror_publish : Mirror publish.run publish.run := by
  refine .bindAttempt (.ask (e := .readStore true) trivial) fun old => ?_
  exact .groups fun l l' h => .bindAttempt (Build.mirror_ofGroups h) fun build =>
    .bindAttempt (.ask (e := .writeStore build.snapshot (old.changes build.snapshot)) trivial)
      fun _ => .pure _

theorem mirror_attempt (s : Settings) (purge : Option Instant) :
    Mirror (attempt s purge) (attempt s purge) := by
  have running : Mirror (run s purge) (run s purge) := by
    rw [run_eq]
    refine .bind (mirror_aside (within_lock.mono fun _ => .inl)) fun times => ?_
    match times with
    | .error fault => exact .pure _
    | .ok (asked, entered, begun) =>
      refine .bind mirror_publish fun published => ?_
      cases published with
      | error fault =>
        exact .bind (mirror_aside (within_abandon.mono fun _ => .inl)) fun _ => .pure _
      | ok commit =>
        exact .bind (mirror_aside (within_unlock.mono fun _ => .inl)) fun left =>
          .bind (mirror_aside within_settle) fun _ => .pure _
  exact .bind running fun result => mirror_aside ((within_conclude result).mono fun _ => .inl)

end Rebuild

end Enumeration

end ClaimIndex
