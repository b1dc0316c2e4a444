import ClaimIndex.Proofs.Procedure
import ClaimIndex.Rebuild.Build
import Mathlib.Data.List.Induction

/-! The snapshot that a registry builds.  Enumeration may fail and may do anything to the world,
but a build that succeeds is a function of the groups alone, and lists under each key the groups
that claim it. -/

namespace ClaimIndex

def appendNew {α : Type} [DecidableEq α] (as : List α) (a : α) : List α :=
  if a ∈ as then as else as ++ [a]

theorem appendNew_idem {α : Type} [DecidableEq α] (as : List α) (a : α) :
    appendNew (appendNew as a) a = appendNew as a := by
  by_cases h : a ∈ as <;> simp [appendNew, h]

theorem distinct_concat {α : Type} [DecidableEq α] (as : List α) (a : α) :
    distinct (as ++ [a]) = appendNew (distinct as) a := by
  rw [distinct_append]
  by_cases there : a ∈ as <;> simp [appendNew, distinct, there]

namespace Claimants

@[simp] theorem ids_single (id : GroupId) : (single id).ids = [id] := rfl

@[simp] theorem ids_multi (ids : List GroupId) : (multi ids).ids = ids := rfl

theorem ids_push (c : Claimants) (id : GroupId) : (c.push id).ids = appendNew c.ids id := by
  by_cases h : id ∈ c.ids <;> simp [push, appendNew, contains, h]

theorem WellFormed.ids_ne_nil {c : Claimants} (hc : c.WellFormed) : c.ids ≠ [] := by
  cases c with
  | single id => simp
  | multi ids => exact List.ne_nil_of_length_pos (Nat.lt_of_lt_of_le (by decide) hc.1)

theorem WellFormed.nodup {c : Claimants} (hc : c.WellFormed) : c.ids.Nodup := by
  cases c with
  | single id => simp
  | multi ids => exact hc.2

theorem WellFormed.push {c : Claimants} (hc : c.WellFormed) (id : GroupId) :
    (c.push id).WellFormed := by
  unfold Claimants.push
  split
  · exact hc
  · rename_i absent
    have absent : id ∉ c.ids := by simpa [contains] using absent
    refine ⟨?_, ?_⟩
    · have := List.length_pos_iff.2 hc.ids_ne_nil
      simp only [List.length_append, List.length_singleton]
      omega
    · rw [List.nodup_append]
      refine ⟨hc.nodup, by simp, ?_⟩
      rintro a ha b hb rfl
      exact absent (List.mem_singleton.1 hb ▸ ha)

theorem ofList_ids {c : Claimants} (hc : c.WellFormed) : ofList c.ids = .ok c := by
  cases c with
  | single id => rfl
  | multi ids =>
    obtain ⟨hlen, hnodup⟩ := hc
    match ids, hlen with
    | a :: b :: rest, _ =>
      simp [ofList, distinct_of_nodup hnodup]

end Claimants

namespace Snapshot

variable {s : Snapshot} {k k' : Key} {id : GroupId}

@[simp] theorem idsOf_empty : (∅ : Snapshot).idsOf k = [] := by
  simp [idsOf]

theorem wellFormed_empty : (∅ : Snapshot).WellFormed := by
  intro k c hc
  simp at hc

theorem WellFormed.getElem? (hs : s.WellFormed) (k : Key) :
    s[k]? = (Claimants.ofList (s.idsOf k)).toOption := by
  cases hk : s[k]? with
  | none => simp [idsOf, hk, Claimants.ofList, distinct, Except.toOption]
  | some c => simp [idsOf, hk, Claimants.ofList_ids (hs k c hk), Except.toOption]

theorem getElem?_claim : (s.claim k id).2[k']? =
    if k' = k then some ((s[k]?.map (·.push id)).getD (.single id)) else s[k']? := by
  unfold claim
  by_cases hk : k' = k
  · subst hk
    cases hc : s[k']? with
    | none => simp
    | some c =>
      by_cases hid : c.contains id <;> simp [hid, hc, Claimants.push]
  · cases hc : s[k]? with
    | none => simp [hk, Std.ExtTreeMap.getElem?_insert, Ne.symm hk]
    | some c =>
      by_cases hid : c.contains id <;>
        simp [hid, hk, Std.ExtTreeMap.getElem?_insert, Ne.symm hk]

theorem idsOf_claim : (s.claim k id).2.idsOf k' =
    if k' = k then appendNew (s.idsOf k) id else s.idsOf k' := by
  by_cases hk : k' = k
  · subst hk
    cases hc : s[k']? with
    | none => simp [idsOf, getElem?_claim, hc, appendNew]
    | some c => simp [idsOf, getElem?_claim, hc, Claimants.ids_push]
  · simp [idsOf, getElem?_claim, hk]

theorem WellFormed.claim (hs : s.WellFormed) : (s.claim k id).2.WellFormed := by
  intro k' c hc
  rw [getElem?_claim] at hc
  split at hc
  · cases hk : s[k]? with
    | none =>
      simp only [hk, Option.map_none, Option.getD_none, Option.some.injEq] at hc
      subst hc
      trivial
    | some d =>
      simp only [hk, Option.map_some, Option.getD_some, Option.some.injEq] at hc
      subst hc
      exact (hs k d hk).push id
  · exact hs k' c hc

end Snapshot

namespace Group

mutual

def answers : Group → List String
  | fixed _ _ keys _ | scripted _ _ keys .. => keys
  | aggregate _ _ members => distinct (answersAll members)
  | registered _ => []

def answersAll : List Group → List String
  | [] => []
  | g :: gs => (if g.isPresent then g.answers else []) ++ answersAll gs

end

/-- Whether the group is there and its enumeration answers a raw key that is folded to `k`. -/
def claims (g : Group) (k : Key) : Bool :=
  g.isPresent && g.answers.any fun raw => Key.ofRaw g.space raw = k

end Group

/-- The ids of the groups that claim a key, each where it first stands: first those of the groups
with keys of their own, then those of the groups that derive their keys. -/
def claimantsOf (groups : List Group) (k : Key) : List GroupId :=
  distinct ((groups.filter fun g => !g.isDerived && g.claims k).map Group.id ++
    (groups.filter fun g => g.isDerived && g.claims k).map Group.id)

namespace Build

variable {b : Build} {k : Key}

@[simp] theorem snapshot_claim (id : GroupId) (ignored : Bool) :
    (b.claim id ignored k).snapshot = (b.snapshot.claim k id).2 := by
  unfold claim
  split <;> rename_i h <;> simp [h]

theorem wellFormed_claimAll (id : GroupId) (space : Namespace) (ignored : Bool)
    (raws : List String) (hb : b.snapshot.WellFormed) :
    (b.claimAll id space ignored raws).snapshot.WellFormed := by
  induction raws generalizing b with
  | nil => exact hb
  | cons raw raws ih => exact ih (by simpa using hb.claim)

theorem idsOf_claimAll (id : GroupId) (space : Namespace) (ignored : Bool) (raws : List String) :
    (b.claimAll id space ignored raws).snapshot.idsOf k =
      if raws.any (fun raw => Key.ofRaw space raw = k) then appendNew (b.snapshot.idsOf k) id
      else b.snapshot.idsOf k := by
  induction raws generalizing b with
  | nil => rfl
  | cons raw raws ih =>
    let claimed := b.claim id ignored (.ofRaw space raw)
    change (claimAll id space ignored raws claimed).snapshot.idsOf k = _
    rw [ih, snapshot_claim, Snapshot.idsOf_claim]
    by_cases hraw : Key.ofRaw space raw = k
    · subst hraw
      simp [appendNew_idem]
    · simp [hraw, Ne.symm hraw]

def absorb (b : Build) (g : Group) : Build :=
  if g.isPresent then b.claimAll g.id g.space g.isDerived g.answers else b

def outcome (groups : List Group) : Build := (order groups).foldl absorb {}

theorem wellFormed_absorb (g : Group) (hb : b.snapshot.WellFormed) :
    (b.absorb g).snapshot.WellFormed := by
  unfold absorb
  split
  · exact wellFormed_claimAll _ _ _ _ hb
  · exact hb

theorem idsOf_absorb (g : Group) : (b.absorb g).snapshot.idsOf k =
    if g.claims k then appendNew (b.snapshot.idsOf k) g.id else b.snapshot.idsOf k := by
  unfold absorb Group.claims
  by_cases hg : g.isPresent <;> simp [hg, idsOf_claimAll]

theorem wellFormed_foldl_absorb (groups : List Group) (hb : b.snapshot.WellFormed) :
    (groups.foldl absorb b).snapshot.WellFormed := by
  induction groups generalizing b with
  | nil => exact hb
  | cons g gs ih => exact ih (wellFormed_absorb g hb)

theorem wellFormed_outcome (groups : List Group) : (outcome groups).snapshot.WellFormed :=
  wellFormed_foldl_absorb _ Snapshot.wellFormed_empty

theorem idsOf_foldl_absorb (groups : List Group) : (groups.foldl absorb {}).snapshot.idsOf k =
    distinct ((groups.filter (·.claims k)).map Group.id) := by
  induction groups using List.reverseRecOn with
  | nil => simp [distinct]
  | append_singleton gs g ih =>
    rw [List.foldl_append, List.foldl_cons, List.foldl_nil, idsOf_absorb, ih]
    by_cases hg : g.claims k <;> simp [hg, distinct_concat]

theorem idsOf_outcome (groups : List Group) (k : Key) :
    (outcome groups).snapshot.idsOf k = claimantsOf groups k := by
  rw [outcome, idsOf_foldl_absorb, claimantsOf, order, List.filter_append, List.map_append,
    List.filter_filter, List.filter_filter]
  simp only [Bool.and_comm]

theorem mem_outcome (groups : List Group) (k : Key) :
    k ∈ (outcome groups).snapshot ↔ claimantsOf groups k ≠ [] := by
  rw [← idsOf_outcome, Snapshot.idsOf]
  cases hk : (outcome groups).snapshot[k]? with
  | none => simpa using hk
  | some c =>
    have absent : k ∈ (outcome groups).snapshot := by
      simp [Std.ExtTreeMap.mem_iff_isSome_getElem?, hk]
    simpa [absent] using (wellFormed_outcome groups k c hk).ids_ne_nil

theorem single_outcome (groups : List Group) (k : Key) (id : GroupId) :
    (outcome groups).snapshot[k]? = some (.single id) ↔ claimantsOf groups k = [id] := by
  rw [(wellFormed_outcome groups).getElem? k, idsOf_outcome]
  have ids : distinct (claimantsOf groups k) = claimantsOf groups k :=
    distinct_of_nodup (nodup_distinct _)
  unfold Claimants.ofList
  rw [ids]
  match claimantsOf groups k with
  | [] => simp [Except.toOption]
  | [id'] => simp [Except.toOption]
  | a :: b :: rest => simp [Except.toOption]

end Build

section Enumeration

open Proc (Yields yields_bind_ok yields_pure_ok not_yields_throw)

variable {σ : Type} {h : Handler σ} {w w' : σ}

mutual

theorem Group.eq_answers : ∀ (g : Group) {w w' : σ} {raws : List String},
    Yields h g.enumerate.run w (.ok raws) w' → raws = g.answers
  | .fixed .., _, _, _, hy => (yields_pure_ok.1 hy).1.symm
  | .aggregate id space members, _, _, _, hy => by
    simp only [enumerate, map_eq_pure_bind, yields_bind_ok] at hy
    obtain ⟨front, v, hfront, hy⟩ := hy
    rw [answers, ← eq_answersAll members hfront, (yields_pure_ok.1 hy).1]
  | .scripted id space keys derived present failure actions, _, _, _, hy => by
    simp only [enumerate, yields_bind_ok] at hy
    obtain ⟨_, v, _, hy⟩ := hy
    cases failure with
    | none => exact (yields_pure_ok.1 hy).1.symm
    | some message => exact (not_yields_throw hy).elim
  | .registered id, _, _, _, hy => (yields_pure_ok.1 hy).1.symm

theorem Group.eq_answersAll : ∀ (gs : List Group) {w w' : σ} {raws : List String},
    Yields h (enumerateAll gs).run w (.ok raws) w' → raws = answersAll gs
  | [], _, _, _, hy => (yields_pure_ok.1 hy).1.symm
  | g :: gs, _, _, _, hy => by
    rw [enumerateAll] at hy
    rw [answersAll]
    split at hy
    · obtain ⟨front, v, hfront, hy⟩ := yields_bind_ok.1 hy
      obtain ⟨rest, u, hrest, hy⟩ := yields_bind_ok.1 hy
      rw [if_pos ‹_›, ← eq_answers g hfront, ← eq_answersAll gs hrest, (yields_pure_ok.1 hy).1]
    · obtain ⟨front, v, hfront, hy⟩ := yields_bind_ok.1 hy
      obtain ⟨rest, u, hrest, hy⟩ := yields_bind_ok.1 hy
      rw [if_neg ‹_›, (yields_pure_ok.1 hfront).1, ← eq_answersAll gs hrest,
        (yields_pure_ok.1 hy).1]

end

mutual

def Group.scripts : Group → List (List Operation)
  | .fixed .. | .registered _ => []
  | .aggregate _ _ members => Group.scriptsAll members
  | .scripted _ _ _ _ _ _ actions => [actions]

def Group.scriptsAll : List Group → List (List Operation)
  | [] => []
  | g :: gs => g.scripts ++ Group.scriptsAll gs

end

def Build.Listing (A : List Operation → Prop) : Effect → Prop
  | .perform _ actions => A actions
  | .report _ => True
  | _ => False

variable {A : List Operation → Prop}

mutual

theorem Group.within_enumerate : ∀ g : Group, (∀ actions ∈ g.scripts, A actions) →
    g.enumerate.run.Within (Build.Listing A)
  | .fixed .., _ => .pure
  | .aggregate id space members, hg => by
    simp only [enumerate, map_eq_pure_bind]
    exact Proc.within_bindAttempt (within_enumerateAll members hg) fun _ => .pure
  | .scripted id space keys derived present failure actions, hg => by
    have performs : A actions := hg actions List.mem_cons_self
    refine Proc.within_bindAttempt (.map _ (.ask performs)) fun _ => ?_
    cases failure with
    | none => exact .pure
    | some message => exact .pure
  | .registered id, _ => .pure

theorem Group.within_enumerateAll :
    ∀ gs : List Group, (∀ actions ∈ scriptsAll gs, A actions) →
      (enumerateAll gs).run.Within (Build.Listing A)
  | [], _ => .pure
  | g :: gs, hgs => by
    have first := within_enumerate g fun actions h => hgs actions (List.mem_append_left _ h)
    have rest := within_enumerateAll gs fun actions h => hgs actions (List.mem_append_right _ h)
    rw [enumerateAll]
    split
    · exact Proc.within_bindAttempt first fun _ => Proc.within_bindAttempt rest fun _ => .pure
    · exact Proc.within_bindAttempt .pure fun _ => Proc.within_bindAttempt rest fun _ => .pure

end

namespace Build

theorem eq_absorb {b b' : Build} {g : Group} (hy : Yields h (b.add g).run w (.ok b') w') :
    b' = b.absorb g := by
  unfold add at hy
  unfold absorb
  split at hy
  · rw [if_pos ‹_›]
    obtain ⟨raws, v, hraws, hy⟩ := yields_bind_ok.1 hy
    rw [Group.eq_answers g hraws] at hy
    split at hy
    · exact (yields_pure_ok.1 hy).1.symm
    · obtain ⟨_, u, _, hy⟩ := yields_bind_ok.1 hy
      exact (yields_pure_ok.1 hy).1.symm
  · rw [if_neg ‹_›]
    obtain ⟨_, u, _, hy⟩ := yields_bind_ok.1 hy
    exact (yields_pure_ok.1 hy).1.symm

theorem eq_foldl_absorb {groups : List Group} {b b' : Build}
    (hy : Yields h (groups.foldlM add b).run w (.ok b') w') : b' = groups.foldl absorb b := by
  induction groups generalizing b w with
  | nil => exact (yields_pure_ok.1 hy).1.symm
  | cons g gs ih =>
    rw [List.foldlM_cons] at hy
    obtain ⟨c, v, hc, hy⟩ := yields_bind_ok.1 hy
    rw [List.foldl_cons, ← eq_absorb hc]
    exact ih hy

theorem within_add (b : Build) (g : Group) (hg : ∀ actions ∈ g.scripts, A actions) :
    (b.add g).run.Within (Listing A) := by
  unfold add
  split
  · refine Proc.within_bindAttempt (g.within_enumerate hg) fun raws => ?_
    split
    · exact .pure
    · exact Proc.within_bindAttempt (Proc.within_forM _ fun _ => .map _ (.ask trivial))
        fun _ => .pure
  · exact Proc.within_bindAttempt (.map _ (.ask trivial)) fun _ => .pure

theorem within_foldlM_add (b : Build) {groups : List Group}
    (hgs : ∀ g ∈ groups, ∀ actions ∈ g.scripts, A actions) :
    (groups.foldlM add b).run.Within (Listing A) := by
  induction groups generalizing b with
  | nil => exact .pure
  | cons g gs ih =>
    rw [List.foldlM_cons]
    exact Proc.within_bindAttempt (within_add b g (hgs g List.mem_cons_self))
      fun c => ih c fun g' hg' => hgs g' (List.mem_cons_of_mem g hg')

theorem mem_order {groups : List Group} {g : Group} (hg : g ∈ order groups) : g ∈ groups :=
  (List.mem_append.1 hg).elim (fun h => (List.mem_filter.1 h).1) fun h => (List.mem_filter.1 h).1

theorem within_ofGroups {groups : List Group}
    (hgs : ∀ g ∈ groups, ∀ actions ∈ g.scripts, A actions) :
    (ofGroups groups).run.Within (Listing A) :=
  within_foldlM_add {} fun g hg => hgs g (mem_order hg)

theorem eq_outcome {groups : List Group} {b : Build}
    (hy : Yields h (ofGroups groups).run w (.ok b) w') : b = outcome groups :=
  eq_foldl_absorb hy

end Build

end Enumeration

end ClaimIndex
