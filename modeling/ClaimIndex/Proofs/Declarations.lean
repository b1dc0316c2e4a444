import ClaimIndex.Group.Definitions
import ClaimIndex.Proofs.Built
import Mathlib.Data.List.Basic
import Mathlib.Data.List.Forall2
import Mathlib.Logic.Relation

namespace ClaimIndex

section Throughout

variable {α β : Type} {P : List α → α → Prop} {as bs : List α} {a : α}

def Throughout (P : List α → α → Prop) (as : List α) : Prop :=
  ∀ front a back, as = front ++ a :: back → P front a

theorem throughout_nil : Throughout P [] := fun front a back split => by
  simp at split

theorem throughout_append :
    Throughout P (as ++ bs) ↔ Throughout P as ∧ Throughout (fun front => P (as ++ front)) bs := by
  constructor
  · intro h
    refine ⟨fun front a back split => h front a (back ++ bs) ?_,
      fun front a back split => h (as ++ front) a back ?_⟩
    · rw [split, List.append_assoc, List.cons_append]
    · rw [split, List.append_assoc]
  · rintro ⟨first, second⟩ front a back split
    obtain ⟨more, rfl, rest⟩ | ⟨more, rfl, rest⟩ := List.append_eq_append_iff.1 split
    · exact second more a back rest
    · cases more with
      | nil => simpa using second [] a back rest.symm
      | cons b more =>
        obtain ⟨rfl, -⟩ := List.cons.inj rest
        exact first front a more rfl

theorem throughout_singleton : Throughout P [a] ↔ P [] a := by
  constructor
  · exact fun h => h [] a [] rfl
  · intro h front b back split
    cases front with
    | nil =>
      obtain ⟨rfl, -⟩ := List.cons.inj split
      exact h
    | cons c front => simp at split

theorem throughout_concat : Throughout P (as ++ [a]) ↔ Throughout P as ∧ P as a := by
  rw [throughout_append, throughout_singleton, List.append_nil]

theorem throughout_map {f : β → α} {bs : List β} :
    Throughout P (bs.map f) ↔ Throughout (fun front b => P (front.map f) (f b)) bs := by
  induction bs using List.reverseRecOn with
  | nil => exact iff_of_true throughout_nil throughout_nil
  | append_singleton bs b ih =>
    rw [List.map_append, List.map_singleton, throughout_concat, throughout_concat, ih]

theorem throughout_and {Q : List α → α → Prop} :
    Throughout (fun front a => P front a ∧ Q front a) as ↔ Throughout P as ∧ Throughout Q as :=
  ⟨fun h => ⟨fun _ _ _ split => (h _ _ _ split).1, fun _ _ _ split => (h _ _ _ split).2⟩,
    fun ⟨h, h'⟩ _ _ _ split => ⟨h _ _ _ split, h' _ _ _ split⟩⟩

theorem nodup_iff_throughout {f : α → β} :
    (as.map f).Nodup ↔ Throughout (fun front a => f a ∉ front.map f) as := by
  induction as using List.reverseRecOn with
  | nil => exact iff_of_true List.nodup_nil throughout_nil
  | append_singleton as a ih =>
    rw [List.map_append, List.map_singleton, throughout_concat, ← ih,
      (List.perm_append_singleton _ _).nodup_iff, List.nodup_cons, and_comm]

end Throughout

namespace Definitions

inductive Declaration
  | plain (p : Plain)
  | aggregate (a : Aggregate)

namespace Declaration

def id : Declaration → GroupId
  | plain p => p.id
  | aggregate a => a.id

def space : Declaration → Namespace
  | plain p => p.space
  | aggregate a => a.space

def members : Declaration → List GroupId
  | plain _ => []
  | aggregate a => a.members

def isPresent : Declaration → Bool
  | plain p => p.present
  | aggregate _ => true

def isDerived : Declaration → Bool
  | plain _ => false
  | aggregate _ => true

/-- What is wrong with a declaration behind those of some ids.  That its own is among them comes
before its members, and the members come from left to right. -/
def fault? (earlier : List GroupId) (c : Declaration) : Option Fault :=
  if c.id ∈ earlier then some (.declaredTwice c.id)
  else (c.members.find? (· ∉ earlier)).map (.unknownMember c.id)

theorem fault?_eq_none {earlier : List GroupId} {c : Declaration} :
    c.fault? earlier = none ↔ c.id ∉ earlier ∧ ∀ m ∈ c.members, m ∈ earlier := by
  unfold fault?
  by_cases twice : c.id ∈ earlier <;> simp [twice]

def make (groups : List Group) : Declaration → Group
  | plain p => p.group
  | aggregate a => .aggregate a.id a.space (a.members.filterMap (find? groups))

def add (groups : List Group) : Declaration → Except Fault (List Group)
  | plain p => addPlain groups p
  | aggregate a => addAggregate groups a

end Declaration

def declarations (d : Definitions) : List Declaration :=
  d.plain.map .plain ++ d.aggregates.map .aggregate

def Sound (cs : List Declaration) : Prop :=
  Throughout (fun earlier c => c.fault? (earlier.map Declaration.id) = none) cs

def made (cs : List Declaration) : List Group :=
  cs.foldl (fun groups c => groups ++ [c.make groups]) []

section Acceptance

variable {cs : List Declaration} {c : Declaration} {groups : List Group} {id : GroupId}
  {fault : Fault} {d : Definitions}

theorem find?_eq_none : find? groups id = none ↔ id ∉ groups.map Group.id := by
  simp [find?]

theorem members_eq (aggregate : GroupId) (ids : List GroupId) :
    ids.mapM (member groups aggregate) =
      match ids.find? (· ∉ groups.map Group.id) with
      | some m => .error (.unknownMember aggregate m)
      | none => .ok (ids.filterMap (find? groups)) := by
  induction ids with
  | nil => rfl
  | cons m ids ih =>
    rw [List.mapM_cons, ih, member]
    cases there : find? groups m with
    | none =>
      rw [List.find?_cons_of_pos (by simpa using find?_eq_none.1 there)]
      rfl
    | some g =>
      have known : m ∈ groups.map Group.id := by
        by_contra absent
        rw [find?_eq_none.2 absent] at there
        cases there
      rw [List.find?_cons_of_neg (by simpa using known), List.filterMap_cons_some there]
      cases ids.find? (· ∉ groups.map Group.id) <;> rfl

theorem add_eq : c.add groups =
    match c.fault? (groups.map Group.id) with
    | some fault => .error fault
    | none => .ok (groups ++ [c.make groups]) := by
  unfold Declaration.add Declaration.fault?
  have known (id : GroupId) : (find? groups id).isSome = true ↔ id ∈ groups.map Group.id := by
    rw [← not_iff_not, Option.not_isSome_iff_eq_none, find?_eq_none]
  cases c with
  | plain p =>
    by_cases twice : p.id ∈ groups.map Group.id
    · simp only [addPlain, (known p.id).2 twice, Declaration.id, twice, if_true]
    · simp only [addPlain, mt (known p.id).1 twice, Declaration.id, twice, if_false]
      rfl
  | aggregate a =>
    by_cases twice : a.id ∈ groups.map Group.id
    · simp only [addAggregate, (known a.id).2 twice, Declaration.id, twice, if_true]
    · simp only [addAggregate, mt (known a.id).1 twice, Declaration.id, twice, if_false, members_eq,
        Declaration.members]
      cases a.members.find? (· ∉ groups.map Group.id) <;> rfl

theorem Plain.id_group (p : Plain) : p.group.id = p.id := by
  unfold Plain.group
  split <;> rfl

theorem groups_eq : d.groups = d.declarations.foldlM Declaration.add [] := by
  rw [declarations, List.foldlM_append, List.foldlM_map]
  simp only [List.foldlM_map]
  rfl

theorem sound_concat :
    Sound (cs ++ [c]) ↔ Sound cs ∧ c.fault? (cs.map Declaration.id) = none := throughout_concat

theorem made_concat : made (cs ++ [c]) = made cs ++ [c.make (made cs)] := by
  simp [made]

theorem ids_made : (made cs).map Group.id = cs.map Declaration.id := by
  induction cs using List.reverseRecOn with
  | nil => rfl
  | append_singleton cs c ih =>
    have same : (c.make (made cs)).id = c.id := by
      cases c with
      | plain p =>
        unfold Declaration.make
        exact p.id_group
      | aggregate a => rfl
    simp [made_concat, ih, same]

theorem foldlM_add_append {front back : List Declaration}
    (ok : front.foldlM Declaration.add [] = .ok groups) :
    (front ++ c :: back).foldlM Declaration.add [] =
      match c.fault? (groups.map Group.id) with
      | some fault => .error fault
      | none => back.foldlM Declaration.add (groups ++ [c.make groups]) := by
  rw [List.foldlM_append, ok]
  change (c :: back).foldlM Declaration.add groups = _
  rw [List.foldlM_cons, add_eq]
  cases c.fault? (groups.map Group.id) <;> rfl

theorem foldlM_add_of_sound (sound : Sound cs) : cs.foldlM Declaration.add [] = .ok (made cs) := by
  induction cs using List.reverseRecOn with
  | nil => rfl
  | append_singleton cs c ih =>
    obtain ⟨before, faultless⟩ := sound_concat.1 sound
    rw [foldlM_add_append (ih before), ids_made, faultless, made_concat]
    rfl

theorem sound_or (cs : List Declaration) : Sound cs ∨ ∃ front c back fault,
    cs = front ++ c :: back ∧ Sound front ∧ c.fault? (front.map Declaration.id) = some fault := by
  induction cs using List.reverseRecOn with
  | nil => exact .inl throughout_nil
  | append_singleton cs c ih =>
    obtain sound | ⟨front, c', back, fault, rfl, sound, first⟩ := ih
    · cases faulty : c.fault? (cs.map Declaration.id) with
      | none => exact .inl (sound_concat.2 ⟨sound, faulty⟩)
      | some fault => exact .inr ⟨cs, c, [], fault, rfl, sound, faulty⟩
    · exact .inr ⟨front, c', back ++ [c], fault, by simp, sound, first⟩

theorem foldlM_add_of_fault {front back : List Declaration} (sound : Sound front)
    (first : c.fault? (front.map Declaration.id) = some fault) :
    (front ++ c :: back).foldlM Declaration.add [] = .error fault := by
  rw [foldlM_add_append (foldlM_add_of_sound sound), ids_made, first]

theorem groups_eq_ok : d.groups = .ok groups ↔
    Sound d.declarations ∧ groups = made d.declarations := by
  rw [groups_eq]
  constructor
  · intro ok
    obtain sound | ⟨front, c, back, fault, split, sound, first⟩ := sound_or d.declarations
    · rw [foldlM_add_of_sound sound] at ok
      exact ⟨sound, (Except.ok.inj ok).symm⟩
    · rw [split, foldlM_add_of_fault sound first] at ok
      cases ok
  · rintro ⟨sound, rfl⟩
    exact foldlM_add_of_sound sound

theorem groups_eq_error : d.groups = .error fault ↔ ∃ front c back,
    d.declarations = front ++ c :: back ∧ Sound front ∧
      c.fault? (front.map Declaration.id) = some fault := by
  rw [groups_eq]
  constructor
  · intro error
    obtain sound | ⟨front, c, back, fault', split, sound, first⟩ := sound_or d.declarations
    · rw [foldlM_add_of_sound sound] at error
      cases error
    · rw [split, foldlM_add_of_fault sound first] at error
      exact ⟨front, c, back, split, sound, Except.error.inj error ▸ first⟩
  · rintro ⟨front, c, back, split, sound, first⟩
    rw [split, foldlM_add_of_fault sound first]

theorem ids_declarations : d.declarations.map Declaration.id =
    d.plain.map Plain.id ++ d.aggregates.map Aggregate.id := by
  simp [declarations, Function.comp_def, Declaration.id]

theorem sound_iff : Sound d.declarations ↔
    (d.plain.map Plain.id ++ d.aggregates.map Aggregate.id).Nodup ∧
    ∀ front a back, d.aggregates = front ++ a :: back → ∀ m ∈ a.members,
      m ∈ d.plain.map Plain.id ∨ m ∈ front.map Aggregate.id := by
  have split : Sound d.declarations ↔
      Throughout (fun earlier c => c.id ∉ earlier.map Declaration.id) d.declarations ∧
      Throughout (fun earlier c => ∀ m ∈ c.members, m ∈ earlier.map Declaration.id)
        d.declarations := by
    rw [← throughout_and]
    simp only [Sound, Declaration.fault?_eq_none]
  rw [split, ← nodup_iff_throughout, ids_declarations]
  refine and_congr_right fun _ => ?_
  rw [declarations, throughout_append, throughout_map, throughout_map]
  have vacuous : Throughout (fun front p => ∀ m ∈ (Declaration.plain p).members,
      m ∈ (front.map Declaration.plain).map Declaration.id) d.plain :=
    fun _ _ _ _ m hm => (List.not_mem_nil hm).elim
  rw [and_iff_right vacuous]
  simp [Throughout, Declaration.id, Declaration.members, Function.comp_def]

end Acceptance

section Leaves

variable {cs : List Declaration} {c : Declaration} {d : Definitions} {id m : GroupId}
  {p : Plain}

def Declaration.expand (leads : GroupId → List Plain) : Declaration → List Plain
  | plain p => [p]
  | aggregate a => a.members.flatMap leads

/-- The plain groups that an id leads to, depth first and member by member.  The latest declaration
is at the head. -/
def leadsTo : List Declaration → GroupId → List Plain
  | [], _ => []
  | c :: earlier, id => if c.id = id then c.expand (leadsTo earlier) else leadsTo earlier id

def leaves (d : Definitions) : GroupId → List Plain := leadsTo d.declarations.reverse

def Lists (d : Definitions) (x y : GroupId) : Prop := ∃ a ∈ d.aggregates, a.id = x ∧ y ∈ a.members

theorem Declaration.expand_congr {leads leads' : GroupId → List Plain}
    (same : ∀ m ∈ c.members, leads m = leads' m) : c.expand leads = c.expand leads' := by
  cases c with
  | plain p => rfl
  | aggregate a => exact List.flatMap_congr same

theorem mem_ids_of_sound (sound : Sound cs) (hc : c ∈ cs) (hm : m ∈ c.members) :
    m ∈ cs.map Declaration.id := by
  obtain ⟨front, back, rfl⟩ := List.append_of_mem hc
  have known := (Declaration.fault?_eq_none.1 (sound front c back rfl)).2 m hm
  rw [List.map_append]
  exact List.mem_append_left _ known

theorem leadsTo_eq_expand (sound : Sound cs) :
    ∀ c ∈ cs, leadsTo cs.reverse c.id = c.expand (leadsTo cs.reverse) := by
  induction cs using List.reverseRecOn with
  | nil => exact fun _ h => (List.not_mem_nil h).elim
  | append_singleton cs c ih =>
    obtain ⟨before, faultless⟩ := sound_concat.1 sound
    obtain ⟨fresh, known⟩ := Declaration.fault?_eq_none.1 faultless
    -- What was declared before leads where it led.
    have stays {id : GroupId} (h : id ∈ cs.map Declaration.id) :
        leadsTo (c :: cs.reverse) id = leadsTo cs.reverse id :=
      if_neg (ne_of_mem_of_not_mem h fresh).symm
    intro c' hc'
    rw [List.reverse_concat]
    obtain earlier | latest := List.mem_append.1 hc'
    · rw [stays (List.mem_map_of_mem earlier), ih before c' earlier]
      exact Declaration.expand_congr fun m hm => (stays (mem_ids_of_sound before earlier hm)).symm
    · obtain rfl := List.mem_singleton.1 latest
      rw [leadsTo, if_pos rfl]
      exact Declaration.expand_congr fun m hm => (stays (known m hm)).symm

theorem plain_mem_declarations : .plain p ∈ d.declarations ↔ p ∈ d.plain := by
  simp [declarations]

theorem aggregate_mem_declarations {a : Aggregate} :
    .aggregate a ∈ d.declarations ↔ a ∈ d.aggregates := by
  simp [declarations]

theorem reaches_of_mem_leadsTo {earlier : List Declaration}
    (within : ∀ c ∈ earlier, c ∈ d.declarations) (h : p ∈ leadsTo earlier id) :
    p ∈ d.plain ∧ Relation.ReflTransGen d.Lists id p.id := by
  induction earlier generalizing id with
  | nil => exact (List.not_mem_nil h).elim
  | cons c earlier ih =>
    have ih {id : GroupId} (h : p ∈ leadsTo earlier id) :=
      ih (fun c hc => within c (.tail _ hc)) h
    rw [leadsTo] at h
    split at h
    · rename_i named
      subst named
      cases c with
      | plain q =>
        obtain rfl := List.mem_singleton.1 h
        exact ⟨plain_mem_declarations.1 (within _ (.head _)), .refl⟩
      | aggregate a =>
        obtain ⟨m, hm, hp⟩ := List.mem_flatMap.1 h
        obtain ⟨plain, reach⟩ := ih hp
        have declared := aggregate_mem_declarations.1 (within _ (.head _))
        exact ⟨plain, .head ⟨a, declared, rfl, hm⟩ reach⟩
    · exact ih h

variable (sound : Sound d.declarations)

include sound

theorem leaves_plain (hp : p ∈ d.plain) : d.leaves p.id = [p] :=
  leadsTo_eq_expand sound _ (plain_mem_declarations.2 hp)

theorem leaves_aggregate {a : Aggregate} (ha : a ∈ d.aggregates) :
    d.leaves a.id = a.members.flatMap d.leaves :=
  leadsTo_eq_expand sound _ (aggregate_mem_declarations.2 ha)

theorem mem_leaves : p ∈ d.leaves id ↔ p ∈ d.plain ∧ Relation.ReflTransGen d.Lists id p.id := by
  constructor
  · exact reaches_of_mem_leadsTo fun c hc => List.mem_reverse.1 hc
  · rintro ⟨hp, reach⟩
    induction reach using Relation.ReflTransGen.head_induction_on with
    | refl => rw [leaves_plain sound hp]; exact List.mem_singleton_self p
    | head lists reach ih =>
      obtain ⟨a, ha, rfl, hm⟩ := lists
      rw [leaves_aggregate sound ha]
      exact List.mem_flatMap.2 ⟨_, hm, ih⟩

end Leaves

section Keys

variable {cs : List Declaration} {c : Declaration} {d : Definitions} {groups : List Group}
  {m : GroupId} {leads : GroupId → List Plain}

def keysOf (leads : GroupId → List Plain) (id : GroupId) : List String :=
  ((leads id).filter Plain.present).flatMap Plain.keys

def Declaration.keys (leads : GroupId → List Plain) : Declaration → List String
  | plain p => if p.present then p.keys else []
  | aggregate a => distinct (keysOf leads a.id)

structure Makes (leads : GroupId → List Plain) (c : Declaration) (g : Group) : Prop where
  id : g.id = c.id
  space : g.space = c.space
  isPresent : g.isPresent = c.isPresent
  isDerived : g.isDerived = c.isDerived
  answers : g.answers = c.keys leads
  enumerate : g.enumerate = return g.answers

def offers (g : Group) : List String := if g.isPresent then g.answers else []

theorem answersAll_eq (gs : List Group) : Group.answersAll gs = gs.flatMap offers := by
  induction gs with
  | nil => rfl
  | cons g gs ih => rw [Group.answersAll, ih, List.flatMap_cons, offers]

theorem enumerateAll_eq {gs : List Group}
    (pure' : ∀ g ∈ gs, g.enumerate = return g.answers) :
    Group.enumerateAll gs = return Group.answersAll gs := by
  induction gs with
  | nil => rfl
  | cons g gs ih =>
    rw [Group.enumerateAll, ih fun g' h => pure' g' (.tail _ h), pure' g (.head _),
      Group.answersAll]
    split <;> rfl

theorem Makes.offers_eq {g : Group} (makes : Makes leads c g)
    (expands : leads c.id = c.expand leads) :
    distinct (offers g) = distinct (keysOf leads c.id) := by
  unfold offers
  rw [makes.isPresent, makes.answers]
  cases c with
  | plain p =>
    have single : leads p.id = [p] := expands
    by_cases there : p.present = true <;>
      simp [Declaration.isPresent, Declaration.keys, keysOf, Declaration.id, single, there]
  | aggregate a => exact distinct_of_nodup (nodup_distinct _)

theorem find?_of_makes (all : List.Forall₂ (Makes leads) cs groups)
    (h : m ∈ cs.map Declaration.id) :
    ∃ c ∈ cs, ∃ g, find? groups m = some g ∧ c.id = m ∧ Makes leads c g := by
  induction all with
  | nil => exact (List.not_mem_nil h).elim
  | @cons c g cs groups makes rest ih =>
    by_cases named : g.id = m
    · exact ⟨c, .head _, g, List.find?_cons_of_pos (by simpa using named), makes.id ▸ named, makes⟩
    · have later := (List.mem_cons.1 h).resolve_left fun same => named (makes.id.trans same.symm)
      obtain ⟨c', hc', g', found, named', makes'⟩ := ih later
      refine ⟨c', .tail _ hc', g', ?_, named', makes'⟩
      rw [find?, List.find?_cons_of_neg (by simpa using named)]
      exact found

theorem map_of_makes {γ : Type} {f : Group → γ} {f' : Declaration → γ}
    (all : List.Forall₂ (Makes leads) cs groups) (same : ∀ c g, Makes leads c g → f g = f' c) :
    groups.map f = cs.map f' := by
  induction all with
  | nil => rfl
  | cons makes rest ih => rw [List.map_cons, List.map_cons, ih, same _ _ makes]

theorem exists_group_of_makes (all : List.Forall₂ (Makes leads) cs groups) (hc : c ∈ cs) :
    ∃ g ∈ groups, Makes leads c g := by
  induction all with
  | nil => exact (List.not_mem_nil hc).elim
  | @cons c g cs groups makes rest ih =>
    obtain rfl | later := List.mem_cons.1 hc
    · exact ⟨g, .head _, makes⟩
    · obtain ⟨g', hg', makes'⟩ := ih later
      exact ⟨g', .tail _ hg', makes'⟩

theorem exists_declaration_of_makes {g : Group} (all : List.Forall₂ (Makes leads) cs groups)
    (hg : g ∈ groups) : ∃ c, Makes leads c g := by
  induction all with
  | nil => exact (List.not_mem_nil hg).elim
  | @cons c g' cs groups makes rest ih =>
    obtain rfl | later := List.mem_cons.1 hg
    · exact ⟨c, makes⟩
    · exact ih later

theorem makes_plain (p : Plain) : Makes leads (.plain p) p.group := by
  unfold Plain.group
  by_cases there : p.present = true
  · rw [if_pos there]
    exact ⟨rfl, rfl, there.symm, rfl, (if_pos there).symm, rfl⟩
  · rw [if_neg there]
    exact ⟨rfl, rfl, (Bool.not_eq_true _ ▸ there).symm, rfl, (if_neg there).symm, rfl⟩

theorem makes_aggregate {a : Aggregate} (all : List.Forall₂ (Makes leads) cs groups)
    (expands : ∀ c ∈ cs, leads c.id = c.expand leads)
    (known : ∀ m ∈ a.members, m ∈ cs.map Declaration.id)
    (own : leads a.id = a.members.flatMap leads) :
    Makes leads (.aggregate a) (.aggregate a.id a.space (a.members.filterMap (find? groups))) := by
  have member {m : GroupId} (hm : m ∈ a.members) : ∃ g, find? groups m = some g ∧
      distinct (offers g) = distinct (keysOf leads m) ∧ g.enumerate = return g.answers := by
    obtain ⟨c, hc, g, found, rfl, makes⟩ := find?_of_makes all (known m hm)
    exact ⟨g, found, makes.offers_eq (expands c hc), makes.enumerate⟩
  have answers : distinct (Group.answersAll (a.members.filterMap (find? groups))) =
      distinct (keysOf leads a.id) := calc
    _ = distinct ((a.members.filterMap (find? groups)).flatMap fun g => distinct (offers g)) := by
      rw [distinct_flatMap_distinct, answersAll_eq]
    _ = distinct (a.members.flatMap fun m => distinct (keysOf leads m)) := by
      rw [List.filterMap_eq_flatMap_toList, List.flatMap_assoc]
      congr 1
      refine List.flatMap_congr fun m hm => ?_
      obtain ⟨g, found, same, -⟩ := member hm
      rw [found, Option.toList_some, List.flatMap_singleton, same]
    _ = distinct (keysOf leads a.id) := by
      rw [distinct_flatMap_distinct, keysOf, own, List.filter_flatMap, List.flatMap_assoc]
      rfl
  have enumerates : ∀ g ∈ a.members.filterMap (find? groups),
      g.enumerate = return g.answers := by
    intro g hg
    obtain ⟨m, hm, found⟩ := List.mem_filterMap.1 hg
    obtain ⟨g', found', -, enumerates⟩ := member hm
    obtain rfl := Option.some.inj (found.symm.trans found')
    exact enumerates
  exact ⟨rfl, rfl, rfl, rfl, answers, by rw [Group.enumerate, enumerateAll_eq enumerates]; rfl⟩

theorem forall₂_made (sound : Sound cs) (expands : ∀ c ∈ cs, leads c.id = c.expand leads) :
    List.Forall₂ (Makes leads) cs (made cs) := by
  induction cs using List.reverseRecOn with
  | nil => exact .nil
  | append_singleton cs c ih =>
    obtain ⟨before, faultless⟩ := sound_concat.1 sound
    have known := (Declaration.fault?_eq_none.1 faultless).2
    have earlier := fun c hc => expands c (List.mem_append_left _ hc)
    have all := ih before earlier
    have own := expands c (by simp)
    rw [made_concat]
    refine List.rel_append all (.cons ?_ .nil)
    cases c with
    | plain p => exact makes_plain p
    | aggregate a => exact makes_aggregate all earlier known own

end Keys

/-- Declarations resolve exactly.  They are accepted just if no id comes twice and each aggregate
names plain groups and earlier aggregates; else the fault is that of the first declaration that has
one.  Accepted ones make groups in their order, whose keys can be had without fail: those of an
aggregate are the keys of the plain groups with a source that it leads to, depth first and member
by member, each where it first occurs. -/
theorem groups_exact (d : Definitions) :
    ((∃ groups, d.groups = .ok groups) ↔
      (d.plain.map Plain.id ++ d.aggregates.map Aggregate.id).Nodup ∧
      ∀ front a back, d.aggregates = front ++ a :: back → ∀ m ∈ a.members,
        m ∈ d.plain.map Plain.id ∨ m ∈ front.map Aggregate.id) ∧
    (∀ fault, d.groups = .error fault ↔ ∃ front c back, d.declarations = front ++ c :: back ∧
      Sound front ∧ c.fault? (front.map Declaration.id) = some fault) ∧
    ∀ groups, d.groups = .ok groups →
      List.Forall₂ (Makes d.leaves) d.declarations groups ∧
      (∀ p ∈ d.plain, d.leaves p.id = [p]) ∧
      (∀ a ∈ d.aggregates, d.leaves a.id = a.members.flatMap d.leaves) ∧
      ∀ id p, p ∈ d.leaves id ↔ p ∈ d.plain ∧ Relation.ReflTransGen d.Lists id p.id := by
  refine ⟨?_, fun fault => groups_eq_error, fun groups ok => ?_⟩
  · rw [← sound_iff]
    exact ⟨fun ⟨groups, ok⟩ => (groups_eq_ok.1 ok).1,
      fun sound => ⟨_, groups_eq_ok.2 ⟨sound, rfl⟩⟩⟩
  · obtain ⟨sound, rfl⟩ := groups_eq_ok.1 ok
    exact ⟨forall₂_made sound (leadsTo_eq_expand sound), fun p => leaves_plain sound,
      fun a => leaves_aggregate sound, fun id p => mem_leaves sound⟩

def layered : Definitions where
  plain := [⟨"core", 8, ["Mainpage", "Edit"], true⟩, ⟨"retired", 8, ["Old"], false⟩,
    ⟨"foo", 8, ["Foo-desc", "Edit"], true⟩]
  aggregates := [⟨"base", 8, ["foo", "retired"]⟩, ⟨"all", 9, ["base", "core", "foo"]⟩]

theorem groups_exact_layered : ∃ groups, layered.groups = .ok groups ∧
    groups.map Group.id = ["core", "retired", "foo", "base", "all"] ∧
    groups.map Group.answers = [["Mainpage", "Edit"], [], ["Foo-desc", "Edit"],
      ["Foo-desc", "Edit"], ["Foo-desc", "Edit", "Mainpage"]] := by
  obtain ⟨accepted, -, exact⟩ := groups_exact layered
  have ok : layered.groups.toBool = true := by decide +kernel
  obtain ⟨groups, ok⟩ : ∃ groups, layered.groups = .ok groups := by
    cases h : layered.groups with
    | ok groups => exact ⟨groups, rfl⟩
    | error fault => rw [h] at ok; cases ok
  obtain ⟨makes, -⟩ := exact groups ok
  have ids : layered.declarations.map Declaration.id = ["core", "retired", "foo", "base", "all"] :=
    rfl
  have keys : layered.declarations.map (Declaration.keys layered.leaves) =
      [["Mainpage", "Edit"], [], ["Foo-desc", "Edit"], ["Foo-desc", "Edit"],
        ["Foo-desc", "Edit", "Mainpage"]] := by decide +kernel
  exact ⟨groups, ok, ids ▸ map_of_makes makes fun _ _ => Makes.id,
    keys ▸ map_of_makes makes fun _ _ => Makes.answers⟩

end Definitions

end ClaimIndex
