import ClaimIndex.Proofs.Membership
import ClaimIndex.Proofs.Publication

namespace ClaimIndex

section Order

variable {α : Type} {as bs : List α} {a b : α}

def Precedes (as : List α) (a b : α) : Prop := [a, b].Sublist as

theorem Precedes.idxOf_lt [DecidableEq α] (nodup : as.Nodup) (h : Precedes as a b) :
    as.idxOf a < as.idxOf b := by
  have ascending : as.Pairwise fun x y => as.idxOf x < as.idxOf y := by
    rw [List.pairwise_iff_getElem]
    intro i j hi hj hij
    rwa [nodup.idxOf_getElem i hi, nodup.idxOf_getElem j hj]
  simpa using ascending.sublist h

theorem Precedes.asymm (nodup : as.Nodup) (h : Precedes as a b) : ¬ Precedes as b a := by
  classical
  exact fun h' => Nat.lt_asymm (h.idxOf_lt nodup) (h'.idxOf_lt nodup)

theorem precedes_total (ha : a ∈ as) (hb : b ∈ as) (differ : a ≠ b) :
    Precedes as a b ∨ Precedes as b a := by
  induction as with
  | nil => exact (List.not_mem_nil ha).elim
  | cons c as ih =>
    obtain rfl | later := List.mem_cons.1 ha
    · have later := (List.mem_cons.1 hb).resolve_left (Ne.symm differ)
      exact .inl ((List.singleton_sublist.2 later).cons_cons a)
    obtain rfl | later' := List.mem_cons.1 hb
    · exact .inr ((List.singleton_sublist.2 later).cons_cons b)
    exact (ih later later').imp (.cons c) (.cons c)

theorem Precedes.filter {p : α → Bool} (h : Precedes as a b) (ha : p a = true) (hb : p b = true) :
    Precedes (as.filter p) a b := by
  have kept := List.Sublist.filter p h
  rwa [List.filter_eq_self.2 (by simp [ha, hb])] at kept

theorem Precedes.map {β : Type} (f : α → β) (h : Precedes as a b) :
    Precedes (as.map f) (f a) (f b) := List.Sublist.map f h

theorem distinct_perm [DecidableEq α] (h : as.Perm bs) : (distinct as).Perm (distinct bs) := by
  rw [List.perm_ext_iff_of_nodup (nodup_distinct as) (nodup_distinct bs)]
  intro a
  rw [mem_distinct, mem_distinct, h.mem_iff]

end Order

namespace Build

variable {b : Build} {gs gs' groups groups' : List Group}

theorem conflicts_claim (id : GroupId) (ignored : Bool) (k : Key) :
    (b.claim id ignored k).conflicts = b.conflicts ++
      if b.snapshot[k]?.any (!·.contains id) then [⟨k, b.snapshot.idsOf k, id, ignored⟩]
      else [] := by
  unfold claim Snapshot.claim Snapshot.idsOf
  cases b.snapshot[k]? with
  | none => simp
  | some c => cases there : c.contains id <;> simp [there]

/-- Each claimant of a key but the first one has caused one conflict. -/
def Tallied (b : Build) : Prop :=
  ∀ k, (b.conflicts.map Conflict.key).count k = (b.snapshot.idsOf k).length - 1

theorem Tallied.claim (sound : b.snapshot.WellFormed) (h : b.Tallied) (id : GroupId)
    (ignored : Bool) (k : Key) : (b.claim id ignored k).Tallied := by
  intro k'
  rw [conflicts_claim, snapshot_claim, Snapshot.idsOf_claim, List.map_append, List.count_append,
    h k']
  by_cases same : k' = k
  swap
  · split <;> simp [Ne.symm same]
  subst same
  cases hk : b.snapshot[k']? with
  | none => simp [Snapshot.idsOf, hk, appendNew]
  | some c =>
    have claimed : b.snapshot.idsOf k' = c.ids := by simp [Snapshot.idsOf, hk]
    have := List.length_pos_iff.2 (sound k' c hk).ids_ne_nil
    by_cases there : id ∈ c.ids
    · simp [claimed, appendNew, Claimants.contains, there]
    · simp only [claimed, appendNew, Claimants.contains, there, Option.any_some, if_true, if_false,
        List.contains_eq_mem, decide_false, Bool.not_false, List.map_cons, List.map_nil,
        List.count_singleton_self, List.length_append, List.length_singleton]
      omega

theorem Tallied.claimAll (id : GroupId) (space : Namespace) (ignored : Bool)
    (raws : List String) (sound : b.snapshot.WellFormed) (h : b.Tallied) :
    (b.claimAll id space ignored raws).Tallied := by
  induction raws generalizing b with
  | nil => exact h
  | cons raw raws ih => exact ih (by simpa using sound.claim) (h.claim sound id ignored _)

theorem Tallied.foldl (sound : b.snapshot.WellFormed) (h : b.Tallied) :
    (gs.foldl absorb b).Tallied := by
  induction gs generalizing b with
  | nil => exact h
  | cons g gs ih =>
    refine ih (wellFormed_absorb g sound) ?_
    unfold absorb
    split
    · exact h.claimAll _ _ _ _ sound
    · exact h

theorem tallied_foldl (gs : List Group) : (gs.foldl absorb {}).Tallied :=
  Tallied.foldl Snapshot.wellFormed_empty fun k => by simp

theorem idsOf_foldl_perm (perm : gs.Perm gs') (k : Key) :
    ((gs.foldl absorb {}).snapshot.idsOf k).Perm ((gs'.foldl absorb {}).snapshot.idsOf k) := by
  rw [idsOf_foldl_absorb, idsOf_foldl_absorb]
  exact distinct_perm ((perm.filter _).map _)

theorem conflicts_foldl_perm (perm : gs.Perm gs') :
    ((gs.foldl absorb {}).conflicts.map Conflict.key).Perm
      ((gs'.foldl absorb {}).conflicts.map Conflict.key) := by
  rw [List.perm_iff_count]
  intro k
  rw [tallied_foldl gs k, tallied_foldl gs' k, (idsOf_foldl_perm perm k).length_eq]

theorem conflicts_claimAll (id : GroupId) (space : Namespace) (ignored : Bool)
    (raws : List String) : ∃ more, (b.claimAll id space ignored raws).conflicts =
      b.conflicts ++ more ∧ ∀ c ∈ more, c.ignored = ignored := by
  induction raws generalizing b with
  | nil => exact ⟨[], (List.append_nil _).symm, nofun⟩
  | cons raw raws ih =>
    obtain ⟨more, added, all⟩ := ih (b := b.claim id ignored (.ofRaw space raw))
    rw [conflicts_claim, List.append_assoc] at added
    refine ⟨_, added, fun c hc => (List.mem_append.1 hc).elim (fun hc => ?_) (all c)⟩
    split at hc
    · rw [List.mem_singleton.1 hc]
    · exact (List.not_mem_nil hc).elim

theorem conflicts_absorb (g : Group) : ∃ more, (b.absorb g).conflicts = b.conflicts ++ more ∧
    ∀ c ∈ more, c.ignored = g.isDerived := by
  unfold absorb
  split
  · exact conflicts_claimAll _ _ _ _
  · exact ⟨[], (List.append_nil _).symm, nofun⟩

theorem conflicts_foldl {derived : Bool} (sort : ∀ g ∈ gs, g.isDerived = derived) :
    ∃ more, (gs.foldl absorb b).conflicts = b.conflicts ++ more ∧
      ∀ c ∈ more, c.ignored = derived := by
  induction gs generalizing b with
  | nil => exact ⟨[], (List.append_nil _).symm, nofun⟩
  | cons g gs ih =>
    obtain ⟨one, first, only⟩ := conflicts_absorb (b := b) g
    obtain ⟨more, rest, all⟩ := ih (b := b.absorb g) fun g' h => sort g' (.tail _ h)
    refine ⟨one ++ more, ?_, fun c hc => (List.mem_append.1 hc).elim ?_ (all c)⟩
    · rw [List.foldl_cons, rest, first, List.append_assoc]
    · exact fun hc => (only c hc).trans (sort g (.head _))

theorem reported_outcome (groups : List Group) :
    (outcome groups).conflicts.filter (!·.ignored) =
      ((groups.filter (!·.isDerived)).foldl absorb {}).conflicts := by
  let own := groups.filter (!·.isDerived)
  have normal : ∀ g ∈ own, g.isDerived = false := fun g hg => by
    simpa using (List.mem_filter.1 hg).2
  have derived : ∀ g ∈ groups.filter Group.isDerived, g.isDerived = true := fun g hg =>
    (List.mem_filter.1 hg).2
  obtain ⟨first, begun, warned⟩ := conflicts_foldl (b := {}) normal
  obtain ⟨more, whole, ignored⟩ := conflicts_foldl (b := own.foldl absorb {}) derived
  rw [outcome, order, List.foldl_append, whole, List.filter_append, begun, List.nil_append,
    List.filter_eq_self.2 fun c hc => by simp [warned c hc],
    List.filter_eq_nil_iff.2 fun c hc => by simp [ignored c hc], List.append_nil]

theorem order_perm (perm : groups.Perm groups') : (order groups).Perm (order groups') :=
  (perm.filter _).append (perm.filter _)

theorem order_self (groups : List Group) : (order groups).Perm groups := by
  have split := List.filter_append_perm (fun g : Group => !g.isDerived) groups
  simpa [order] using split

structure Agree (b b' : Build) : Prop where
  keys : ∀ k, k ∈ b.snapshot ↔ k ∈ b'.snapshot
  claimants : ∀ k, (b.snapshot.idsOf k).Perm (b'.snapshot.idsOf k)
  forth : (b.snapshot.diff b'.snapshot).isEmpty = true ∧
    (b.snapshot.diff b'.snapshot).touched = ∅
  back : (b'.snapshot.diff b.snapshot).isEmpty = true ∧
    (b'.snapshot.diff b.snapshot).touched = ∅
  conflicts : b.conflicts.length = b'.conflicts.length
  reported : (b.conflicts.filter (!·.ignored)).length = (b'.conflicts.filter (!·.ignored)).length

theorem agree_of_perm (perm : groups.Perm groups') : Agree (outcome groups) (outcome groups') := by
  have sound := wellFormed_outcome groups
  have sound' := wellFormed_outcome groups'
  have same (k : Key) : ((outcome groups).snapshot.idsOf k).Perm
      ((outcome groups').snapshot.idsOf k) := idsOf_foldl_perm (order_perm perm) k
  have reported (groups : List Group) : ((outcome groups).conflicts.filter (!·.ignored)).length =
      (((groups.filter (!·.isDerived)).foldl absorb {}).conflicts.map Conflict.key).length := by
    rw [reported_outcome, List.length_map]
  have forth := Snapshot.diff_of_perm sound sound' same
  have back := Snapshot.diff_of_perm sound' sound fun k => (same k).symm
  refine ⟨fun k => ?_, same, ⟨by rw [forth]; rfl, by rw [forth]⟩,
    ⟨by rw [back]; rfl, by rw [back]⟩, ?_, ?_⟩
  · rw [Snapshot.mem_iff_idsOf sound, Snapshot.mem_iff_idsOf sound', ne_eq, ne_eq,
      ← List.length_eq_zero_iff, ← List.length_eq_zero_iff]
    rw [(same k).length_eq]
  · simpa [outcome] using (conflicts_foldl_perm (order_perm perm)).length_eq
  · rw [reported, reported, (conflicts_foldl_perm (perm.filter _)).length_eq]

theorem claims_of_mem (nodup : (groups.map Group.id).Nodup) {g : Group} (hg : g ∈ groups)
    {k : Key} (h : g.id ∈ (outcome groups).snapshot.idsOf k) : g.claims k = true := by
  rw [outcome, idsOf_foldl_absorb, mem_distinct, List.mem_map] at h
  obtain ⟨g', claims, same⟩ := h
  obtain ⟨hg', claims⟩ := List.mem_filter.1 claims
  rwa [← List.inj_on_of_nodup_map nodup (mem_order hg') hg same]

theorem precedes_outcome (nodup : (groups.map Group.id).Nodup) {g g' : Group} {k : Key}
    (claims : g.claims k = true) (claims' : g'.claims k = true) (h : Precedes (order groups) g g') :
    Precedes ((outcome groups).snapshot.idsOf k) g.id g'.id := by
  have ids : ((order groups).map Group.id).Nodup := ((order_self groups).map _).nodup_iff.2 nodup
  have listed : (((order groups).filter (·.claims k)).map Group.id).Nodup :=
    ids.sublist (List.filter_sublist.map _)
  rw [outcome, idsOf_foldl_absorb, distinct_of_nodup listed]
  exact (h.filter claims claims').map Group.id

theorem precedes_iff (nodup : (groups.map Group.id).Nodup) {g g' : Group} (hg : g ∈ groups)
    (hg' : g' ∈ groups) (sort : g.isDerived = g'.isDerived) {k : Key} (claims : g.claims k = true)
    (claims' : g'.claims k = true) :
    Precedes ((outcome groups).snapshot.idsOf k) g.id g'.id ↔ Precedes groups g g' := by
  have forward {g g' : Group} (sort : g.isDerived = g'.isDerived) (claims : g.claims k = true)
      (claims' : g'.claims k = true) (h : Precedes groups g g') :
      Precedes ((outcome groups).snapshot.idsOf k) g.id g'.id := by
    refine precedes_outcome nodup claims claims' ?_
    cases derived : g.isDerived with
    | false =>
      have kept := h.filter (p := (!·.isDerived)) (by simp [derived]) (by simp [← sort, derived])
      exact kept.trans (List.sublist_append_left _ _)
    | true =>
      have kept := h.filter (p := Group.isDerived) derived (sort ▸ derived)
      exact kept.trans (List.sublist_append_right _ _)
  refine ⟨fun h => ?_, forward sort claims claims'⟩
  have claimants := Snapshot.nodup_idsOf (wellFormed_outcome groups) k
  have differ : g ≠ g' := by
    rintro rfl
    exact h.asymm claimants h
  refine (precedes_total hg hg' differ).resolve_right fun h' => h.asymm claimants ?_
  exact forward sort.symm claims' claims h'

end Build

section Success

open Proc (Yields yields_bind_ok yields_pure_ok)

variable {σ : Type} {h : Handler σ}

namespace Group

def Harmless (h : Handler σ) (g : Group) : Prop :=
  ∀ w, ∃ raws, Yields h g.enumerate.run w (.ok raws) w

mutual

def passive : Group → Bool
  | fixed .. | registered _ => true
  | aggregate _ _ members => passiveAll members
  | scripted _ _ _ _ _ failure actions => failure.isNone && actions.isEmpty

def passiveAll : List Group → Bool
  | [] => true
  | g :: gs => (!g.isPresent || g.passive) && passiveAll gs

end

mutual

theorem harmless_of_passive (still : ∀ group w, (h (.perform group [])).run w = ((), w)) :
    ∀ g : Group, g.passive = true → g.Harmless h
  | .fixed _ _ keys _, _, w => ⟨keys, yields_pure_ok.2 ⟨rfl, rfl⟩⟩
  | .registered _, _, w => ⟨[], yields_pure_ok.2 ⟨rfl, rfl⟩⟩
  | .aggregate _ _ members, passive, w => by
    obtain ⟨raws, all⟩ := harmlessAll_of_passive still members passive w
    refine ⟨distinct raws, ?_⟩
    rw [enumerate, map_eq_pure_bind]
    exact yields_bind_ok.2 ⟨raws, w, all, yields_pure_ok.2 ⟨rfl, rfl⟩⟩
  | .scripted id _ keys _ _ none [], _, w =>
    ⟨keys, yields_bind_ok.2
      ⟨(), w, Proc.yields_lift.2 (still id w), yields_pure_ok.2 ⟨rfl, rfl⟩⟩⟩
  | .scripted _ _ _ _ _ none (_ :: _), passive, _ => Bool.noConfusion passive
  | .scripted _ _ _ _ _ (some _) _, passive, _ => Bool.noConfusion passive

theorem harmlessAll_of_passive (still : ∀ group w, (h (.perform group [])).run w = ((), w)) :
    ∀ gs : List Group, passiveAll gs = true → ∀ w, ∃ raws,
      Yields h (enumerateAll gs).run w (.ok raws) w
  | [], _, w => ⟨[], yields_pure_ok.2 ⟨rfl, rfl⟩⟩
  | g :: gs, passive, w => by
    rw [passiveAll, Bool.and_eq_true, Bool.or_eq_true, Bool.not_eq_true'] at passive
    obtain ⟨rest, all⟩ := harmlessAll_of_passive still gs passive.2 w
    rw [enumerateAll]
    split
    · obtain ⟨front, first⟩ := harmless_of_passive still g (passive.1.resolve_left (by simp [*])) w
      exact ⟨front ++ rest, yields_bind_ok.2 ⟨front, w, first,
        yields_bind_ok.2 ⟨rest, w, all, yields_pure_ok.2 ⟨rfl, rfl⟩⟩⟩⟩
    · exact ⟨[] ++ rest, yields_bind_ok.2 ⟨[], w, yields_pure_ok.2 ⟨rfl, rfl⟩,
        yields_bind_ok.2 ⟨rest, w, all, yields_pure_ok.2 ⟨rfl, rfl⟩⟩⟩⟩

end

end Group

namespace Build

theorem exists_reports (cs : List Conflict) (w : σ) : ∃ w', Yields h (cs.forM fun c =>
    (Proc.ask (.report (.conflict c.key c.claimant)) : Attempt PUnit)).run w (.ok ⟨⟩) w' := by
  induction cs generalizing w with
  | nil => exact ⟨w, yields_pure_ok.2 ⟨rfl, rfl⟩⟩
  | cons c cs ih =>
    obtain ⟨w', rest⟩ := ih ((h (.report (.conflict c.key c.claimant))).run w).2
    exact ⟨w', yields_bind_ok.2 ⟨(), _, Proc.yields_lift.2 rfl, rest⟩⟩

theorem exists_add (b : Build) {g : Group} (harmless : g.isPresent = true → g.Harmless h)
    (w : σ) : ∃ b' w', Yields h (b.add g).run w (.ok b') w' := by
  unfold add
  split
  · obtain ⟨raws, listed⟩ := harmless ‹_› w
    let next := b.claimAll g.id g.space g.isDerived raws
    obtain ⟨w', told⟩ := exists_reports (h := h) (next.conflicts.drop b.conflicts.length) w
    by_cases derived : g.isDerived = true
    · refine ⟨next, w, yields_bind_ok.2 ⟨raws, w, listed, ?_⟩⟩
      simp only [derived, if_true]
      exact yields_pure_ok.2 ⟨by simp only [next, derived], rfl⟩
    · refine ⟨next, w', yields_bind_ok.2 ⟨raws, w, listed, ?_⟩⟩
      rw [if_neg derived]
      exact yields_bind_ok.2 ⟨⟨⟩, w', told, yields_pure_ok.2 ⟨rfl, rfl⟩⟩
  · exact ⟨b, _, yields_bind_ok.2
      ⟨(), _, Proc.yields_lift.2 rfl, yields_pure_ok.2 ⟨rfl, rfl⟩⟩⟩

theorem exists_foldlM_add (b : Build) {gs : List Group}
    (harmless : ∀ g ∈ gs, g.isPresent = true → g.Harmless h) (w : σ) :
    ∃ b' w', Yields h (gs.foldlM add b).run w (.ok b') w' := by
  induction gs generalizing b w with
  | nil => exact ⟨b, w, yields_pure_ok.2 ⟨rfl, rfl⟩⟩
  | cons g gs ih =>
    obtain ⟨c, v, added⟩ := exists_add b (harmless g (.head _)) w
    obtain ⟨b', w', rest⟩ := ih c (fun g' h => harmless g' (.tail _ h)) v
    exact ⟨b', w', by rw [List.foldlM_cons]; exact yields_bind_ok.2 ⟨c, v, added, rest⟩⟩

theorem exists_ofGroups {groups : List Group}
    (harmless : ∀ g ∈ groups, g.isPresent = true → g.Harmless h) (w : σ) :
    ∃ w', Yields h (ofGroups groups).run w (.ok (outcome groups)) w' := by
  obtain ⟨b, w', built⟩ := exists_foldlM_add {} (fun g hg => harmless g (mem_order hg)) w
  exact ⟨w', eq_outcome built ▸ built⟩

end Build

end Success

namespace World

variable {w w' : World} {purge purge' : Option Instant} {report report' : Report}
  {groups groups' : List Group}

theorem still_play (group : GroupId) (w : World) :
    (handle (play depth) (.perform group [])).run w = ((), w) := rfl

theorem built_of_listed (committed : ((step (.rebuild purge)).run w).1.committed? = some report)
    (listed : (Rebuild.start w.settings purge).listings (handle (play depth)) w = [groups]) :
    report.built = Build.outcome groups := by
  obtain ⟨v, -, once, built⟩ :=
    (course_of_committed committed).builds (I := fun _ => True) (fun _ _ _ _ => trivial) trivial
  rw [once] at listed
  rw [built, List.singleton_inj.1 listed]

theorem listed_registry (committed : ((step (.rebuild purge)).run w).1.committed? = some report)
    (still : w.hooks = []) :
    (Rebuild.start w.settings purge).listings (handle (play depth)) w = [w.registry] := by
  obtain ⟨v, kept, once, -⟩ := (course_of_committed committed).builds
    (I := fun v => v.hooks = [] ∧ v.registry = w.registry) (fun e he v hv => opening_keeps he hv)
    ⟨still, rfl⟩
  rw [once, show ((handle (play depth) .groups).run v).1 = v.registry from rfl, kept.2]

/-- The order of the groups only decides precedence.  Whatever the worlds of two rebuilds are
like, if the groups that they list are the same ones in whatever order, then they build them
without fail, with the same keys, the same claimants and as many conflicts and warnings, so that
from one to the other nothing changes; and two groups of one sort change places under a key only
where they change places in the registry. -/
theorem order_decides_precedence (perm : groups.Perm groups')
    (harmless : ∀ g ∈ groups, g.isPresent = true → g.Harmless (handle (play depth))) :
    (∀ v, ∃ b v',
      (Build.ofGroups groups).run.Yields (handle (play depth)) v (.ok b) v') ∧
    (∀ v, ∃ b v',
      (Build.ofGroups groups').run.Yields (handle (play depth)) v (.ok b) v') ∧
    ∀ w purge report, ((step (.rebuild purge)).run w).1.committed? = some report →
      (Rebuild.start w.settings purge).listings (handle (play depth)) w = [groups] →
    ∀ w' purge' report', ((step (.rebuild purge')).run w').1.committed? = some report' →
      (Rebuild.start w'.settings purge').listings (handle (play depth)) w' = [groups'] →
      report.built.Agree report'.built ∧
      ((groups.map Group.id).Nodup → ∀ g ∈ groups, ∀ g' ∈ groups, g.isDerived = g'.isDerived →
        ∀ k, g.id ∈ report.snapshot.idsOf k → g'.id ∈ report.snapshot.idsOf k →
          (Precedes (report.snapshot.idsOf k) g.id g'.id ↔ Precedes groups g g') ∧
          (Precedes (report'.snapshot.idsOf k) g.id g'.id ↔ Precedes groups' g g')) := by
  have harmless' : ∀ g ∈ groups', g.isPresent = true → g.Harmless (handle (play depth)) :=
    fun g hg => harmless g (perm.mem_iff.2 hg)
  refine ⟨fun v => ⟨_, Build.exists_ofGroups harmless v⟩,
    fun v => ⟨_, Build.exists_ofGroups harmless' v⟩, ?_⟩
  intro w purge report committed listed w' purge' report' committed' listed'
  have built := built_of_listed committed listed
  have built' := built_of_listed committed' listed'
  have snapshot : report.snapshot = (Build.outcome groups).snapshot :=
    congrArg Build.snapshot built
  have snapshot' : report'.snapshot = (Build.outcome groups').snapshot :=
    congrArg Build.snapshot built'
  rw [built, built', snapshot, snapshot']
  refine ⟨Build.agree_of_perm perm, fun nodup g hg g' hg' sort k claims claims' => ?_⟩
  have claimed {g : Group} (hg : g ∈ groups)
      (claims : g.id ∈ (Build.outcome groups).snapshot.idsOf k) : g.claims k = true :=
    Build.claims_of_mem nodup hg claims
  have first := claimed hg claims
  have second := claimed hg' claims'
  exact ⟨Build.precedes_iff nodup hg hg' sort first second,
    Build.precedes_iff ((perm.map _).nodup_iff.1 nodup) (perm.mem_iff.1 hg) (perm.mem_iff.1 hg')
      sort first second⟩

def rivals : List Group := [
  .aggregate "all" 8 [.fixed "c" 8 ["Foo bar", "Other"] true, .fixed "gone" 8 ["Lost"] false],
  .fixed "a" 8 ["Foo bar", "foo_bar"] true,
  .scripted "late" 8 ["foo bar"] true true none [],
  .scripted "b" 8 ["foo bar", "Other"] false true none []]

theorem order_decides_precedence_rivals : ∃ report report',
    ((step (.rebuild none)).run { registry := rivals }).1.committed? = some report ∧
    ((step (.rebuild none)).run { registry := rivals.reverse }).1.committed? = some report' ∧
    report.snapshot.idsOf ⟨"8:foo_bar"⟩ = ["a", "b", "all", "late"] ∧
    report'.snapshot.idsOf ⟨"8:foo_bar"⟩ = ["b", "a", "late", "all"] ∧
    report.built.Agree report'.built := by
  have ran : ((step (.rebuild none)).run { registry := rivals }).1.committed?.map
      (·.snapshot.idsOf ⟨"8:foo_bar"⟩) = some ["a", "b", "all", "late"] := by decide +kernel
  have ran' : ((step (.rebuild none)).run { registry := rivals.reverse }).1.committed?.map
      (·.snapshot.idsOf ⟨"8:foo_bar"⟩) = some ["b", "a", "late", "all"] := by decide +kernel
  obtain ⟨report, committed, ids⟩ := Option.map_eq_some_iff.1 ran
  obtain ⟨report', committed', ids'⟩ := Option.map_eq_some_iff.1 ran'
  have passive : ∀ g ∈ rivals, g.passive = true := by decide +kernel
  obtain ⟨-, -, agree⟩ := order_decides_precedence rivals.reverse_perm.symm
    fun g hg _ => Group.harmless_of_passive still_play g (passive g hg)
  exact ⟨report, report', committed, committed', ids, ids',
    (agree _ _ _ committed (listed_registry committed rfl) _ _ _ committed'
      (listed_registry committed' rfl)).1⟩

end World

end ClaimIndex
