import ClaimIndex.Proofs.Precedence
import Mathlib.Algebra.BigOperators.Group.Finset.Basic

namespace ClaimIndex

structure Bid where
  key : Key
  claimant : GroupId
  derived : Bool

def Group.bids (g : Group) : List Bid :=
  if g.isPresent then g.answers.map fun raw => ⟨.ofRaw g.space raw, g.id, g.isDerived⟩ else []

def bidsOf (groups : List Group) : List Bid := (Build.order groups).flatMap Group.bids

def bidders (bids : List Bid) (k : Key) : List GroupId :=
  distinct ((bids.filter (·.key = k)).map Bid.claimant)

/-- The conflict that a bid comes to behind others. -/
def Bid.conflict? (bid : Bid) (earlier : List Bid) : Option Conflict :=
  let existing := bidders earlier bid.key
  if existing = [] ∨ bid.claimant ∈ existing then none
  else some ⟨bid.key, existing, bid.claimant, bid.derived⟩

def conflictsOf (bids : List Bid) : List Conflict :=
  bids.zipIdx.filterMap fun (bid, i) => bid.conflict? (bids.take i)

section Bids

variable {bids : List Bid} {bid : Bid} {k : Key} {c : Conflict}

theorem bidders_concat : bidders (bids ++ [bid]) k =
    if bid.key = k then appendNew (bidders bids k) bid.claimant else bidders bids k := by
  unfold bidders
  by_cases here : bid.key = k <;> simp [here, distinct_concat]

theorem conflictsOf_concat :
    conflictsOf (bids ++ [bid]) = conflictsOf bids ++ (bid.conflict? bids).toList := by
  unfold conflictsOf
  rw [List.zipIdx_append, List.filterMap_append]
  congr 1
  · refine List.filterMap_congr ?_
    rintro ⟨other, i⟩ there
    have before := (List.mem_zipIdx there).2.1
    dsimp only
    rw [List.take_append_of_le_length (by omega)]
  · rw [List.zipIdx_singleton, Nat.zero_add, List.filterMap_cons, List.filterMap_nil]
    dsimp only
    rw [List.take_left]
    cases bid.conflict? bids <;> rfl

theorem conflict?_eq_some : bid.conflict? bids = some c ↔ bidders bids bid.key ≠ [] ∧
    bid.claimant ∉ bidders bids bid.key ∧
    c = ⟨bid.key, bidders bids bid.key, bid.claimant, bid.derived⟩ := by
  unfold Bid.conflict?
  by_cases none : bidders bids bid.key = [] ∨ bid.claimant ∈ bidders bids bid.key
  · simp only [none, if_true, reduceCtorEq, false_iff]
    tauto
  · simp only [none, if_false, Option.some.injEq]
    tauto

/-- The steps in which a list of claimants has grown from its first one on, each with what stood
there before and after. -/
def growth (ids : List GroupId) : List (List GroupId × List GroupId) :=
  (List.range (ids.length - 1)).map fun i => (ids.take (i + 1), ids.take (i + 2))

theorem growth_concat {ids : List GroupId} (some : ids ≠ []) (id : GroupId) :
    growth (ids ++ [id]) = growth ids ++ [(ids, ids ++ [id])] := by
  obtain ⟨n, length⟩ := Nat.exists_eq_succ_of_ne_zero (mt List.length_eq_zero_iff.1 some)
  unfold growth
  rw [List.length_append, List.length_singleton, length, Nat.add_sub_cancel, Nat.succ_sub_one,
    List.range_succ, List.map_append, List.map_singleton]
  congr 1
  · refine List.map_congr_left fun i hi => ?_
    have := List.mem_range.1 hi
    rw [List.take_append_of_le_length (by omega), List.take_append_of_le_length (by omega)]
  · rw [List.take_append_of_le_length (by omega), List.take_of_length_le (by omega),
      List.take_of_length_le (by simp only [List.length_append, List.length_singleton]; omega)]

theorem retrace (bids : List Bid) (k : Key) :
    ((conflictsOf bids).filter (·.key = k)).map
        (fun c => (c.existing, c.existing ++ [c.claimant])) =
      growth (bidders bids k) := by
  induction bids using List.reverseRecOn with
  | nil => rfl
  | append_singleton bids bid ih =>
    rw [conflictsOf_concat, List.filter_append, List.map_append, ih, bidders_concat]
    by_cases here : bid.key = k
    swap
    · rw [if_neg here]
      cases conflict : bid.conflict? bids with
      | none => simp
      | some c => simp [(conflict?_eq_some.1 conflict).2.2, here]
    subst here
    rw [if_pos rfl]
    by_cases first : bidders bids bid.key = []
    · simp [Bid.conflict?, first, appendNew, growth]
    by_cases there : bid.claimant ∈ bidders bids bid.key
    · simp [Bid.conflict?, there, appendNew]
    have conflict := conflict?_eq_some.2 ⟨first, there, rfl⟩
    rw [conflict, appendNew, if_neg there, growth_concat first]
    simp

theorem claims_of_mem_bidsOf {groups : List Group} (h : bid ∈ bidsOf groups) :
    ∃ g ∈ groups, g.claims bid.key = true ∧ bid.claimant = g.id ∧ bid.derived = g.isDerived := by
  obtain ⟨g, hg, h⟩ := List.mem_flatMap.1 h
  unfold Group.bids at h
  split at h
  · obtain ⟨raw, listed, rfl⟩ := List.mem_map.1 h
    refine ⟨g, Build.mem_order hg, ?_, rfl, rfl⟩
    rw [Group.claims, Bool.and_eq_true, List.any_eq_true]
    exact ⟨‹_›, raw, listed, decide_eq_true rfl⟩
  · exact (List.not_mem_nil h).elim

theorem mem_conflictsOf (h : c ∈ conflictsOf bids) : ∃ bid ∈ bids, c.key = bid.key ∧
    c.claimant = bid.claimant ∧ c.ignored = bid.derived ∧ c.existing ≠ [] ∧
    c.claimant ∉ c.existing := by
  obtain ⟨⟨bid, i⟩, there, comes⟩ := List.mem_filterMap.1 h
  obtain ⟨some, absent, rfl⟩ := conflict?_eq_some.1 comes
  exact ⟨bid, (List.mem_zipIdx' there).2 ▸ List.getElem_mem _, rfl, rfl, rfl, some, absent⟩

end Bids

namespace Build

variable {b : Build}

def hear (b : Build) (bid : Bid) : Build := b.claim bid.claimant bid.derived bid.key

theorem absorb_eq_foldl (b : Build) (g : Group) : b.absorb g = g.bids.foldl hear b := by
  unfold absorb Group.bids
  split
  · rw [List.foldl_map]
    rfl
  · rfl

theorem outcome_eq_foldl (groups : List Group) :
    outcome groups = (bidsOf groups).foldl hear {} := by
  rw [outcome, bidsOf, List.foldl_flatMap]
  congr 1
  funext b g
  exact absorb_eq_foldl b g

theorem wellFormed_hear (bids : List Bid) : (bids.foldl hear {}).snapshot.WellFormed := by
  induction bids using List.reverseRecOn with
  | nil => exact Snapshot.wellFormed_empty
  | append_singleton bids bid ih =>
    rw [List.foldl_append, List.foldl_cons, List.foldl_nil, hear, snapshot_claim]
    exact ih.claim

theorem idsOf_hear (bids : List Bid) (k : Key) :
    (bids.foldl hear {}).snapshot.idsOf k = bidders bids k := by
  induction bids using List.reverseRecOn with
  | nil => simp [bidders, distinct]
  | append_singleton bids bid ih =>
    rw [List.foldl_append, List.foldl_cons, List.foldl_nil, hear, snapshot_claim,
      Snapshot.idsOf_claim, bidders_concat, ← ih]
    by_cases here : bid.key = k
    · subst here
      simp
    · simp [here, Ne.symm here]

theorem conflicts_hear (bids : List Bid) : (bids.foldl hear {}).conflicts = conflictsOf bids := by
  induction bids using List.reverseRecOn with
  | nil => rfl
  | append_singleton bids bid ih =>
    have ids := idsOf_hear bids bid.key
    rw [List.foldl_append, List.foldl_cons, List.foldl_nil, hear, conflicts_claim,
      conflictsOf_concat, ih, ids]
    congr 1
    -- an entry of a sound snapshot has claimants, so none means that nobody has asked yet
    cases entry : (bids.foldl hear {}).snapshot[bid.key]? with
    | none =>
      have nobody : bidders bids bid.key = [] := by rw [← ids, Snapshot.idsOf, entry]; rfl
      simp [Bid.conflict?, nobody]
    | some c =>
      have claimed : bidders bids bid.key = c.ids := by rw [← ids, Snapshot.idsOf, entry]; rfl
      have some := (wellFormed_hear bids bid.key c entry).ids_ne_nil
      by_cases there : bid.claimant ∈ c.ids <;>
        simp [Bid.conflict?, claimed, some, there, Claimants.contains]

theorem Tallied.multi_iff (sound : b.snapshot.WellFormed) (h : b.Tallied) (k : Key) :
    (∃ c ∈ b.conflicts, c.key = k) ↔ ∃ ids, b.snapshot[k]? = some (.multi ids) := by
  rw [← List.mem_map (f := Conflict.key), ← List.count_pos_iff, h k]
  unfold Snapshot.idsOf
  cases entry : b.snapshot[k]? with
  | none => simp
  | some c =>
    cases c with
    | single id => simp
    | multi ids =>
      have several : 2 ≤ ids.length := (sound k _ entry).1
      simp only [Option.map_some, Option.getD_some, Claimants.ids_multi, Option.some.injEq,
        Claimants.multi.injEq, exists_eq', iff_true]
      omega

theorem Tallied.length_conflicts (h : b.Tallied) :
    b.conflicts.length = (b.snapshot.toList.map fun e => e.2.size - 1).sum := by
  let keys := b.conflicts.map Conflict.key
  have claimed (k : Key) : keys.count k = (b.snapshot.idsOf k).length - 1 := h k
  have nodup : (b.snapshot.toList.map Prod.fst).Nodup := by
    rw [Std.ExtTreeMap.map_fst_toList_eq_keys]
    exact Std.ExtTreeMap.nodup_keys
  have covered : ∀ k ∈ (keys : Multiset Key), k ∈ (b.snapshot.toList.map Prod.fst).toFinset := by
    intro k hk
    have counted := List.count_pos_iff.2 (Multiset.mem_coe.1 hk)
    rw [List.mem_toFinset, Std.ExtTreeMap.map_fst_toList_eq_keys, Std.ExtTreeMap.mem_keys]
    by_contra absent
    rw [claimed, Snapshot.idsOf_eq_nil absent] at counted
    exact absurd counted (Nat.lt_irrefl 0)
  have total := Multiset.sum_count_eq_card covered
  rw [List.sum_toFinset _ nodup, Multiset.coe_card, List.length_map, List.map_map] at total
  rw [← total]
  congr 1
  refine List.map_congr_left fun e he => ?_
  have entry := Std.ExtTreeMap.mem_toList_iff_getElem?_eq_some.1 he
  rw [Function.comp_apply, Multiset.coe_count, claimed, Snapshot.idsOf, entry]
  rfl

end Build

namespace World

/-- The conflicts that a rebuild reports are exactly those that the claims of its groups come to:
one for each claim of a group that is not among the claimants which the key already has.  Under
each key they retrace how its list of claimants has grown, they are ignored if the group derives
its keys, and there is one under a key for each of its claimants but the first. -/
theorem conflicts_exact (w : World) (purge : Option Instant) (report : Report)
    (committed : ((step (.rebuild purge)).run w).1.committed? = some report) :
    ∃ groups,
      (Rebuild.start w.settings purge).listings (handle (play depth)) w = [groups] ∧
      (w.hooks = [] → groups = w.registry) ∧
      report.conflicts = conflictsOf (bidsOf groups) ∧
      (∀ k, (report.conflicts.filter (·.key = k)).map
          (fun c => (c.existing, c.existing ++ [c.claimant])) =
        growth (report.snapshot.idsOf k)) ∧
      (∀ c ∈ report.conflicts, c.existing ≠ [] ∧ c.claimant ∉ c.existing ∧
        ∃ g ∈ groups, g.claims c.key = true ∧ c.claimant = g.id ∧ c.ignored = g.isDerived) ∧
      (∀ k, (∃ c ∈ report.conflicts, c.key = k) ↔
        ∃ ids, report.snapshot[k]? = some (.multi ids)) ∧
      report.conflicts.length = (report.snapshot.toList.map fun e => e.2.size - 1).sum := by
  obtain ⟨v, unhooked, listed, built⟩ := (course_of_committed committed).builds
    (I := fun v => w.hooks = [] → v.hooks = [] ∧ v.registry = w.registry)
    (fun e he v hv hooks => opening_keeps he (hv hooks)) (fun hooks => ⟨hooks, rfl⟩)
  have snapshot : report.snapshot = (Build.outcome v.registry).snapshot :=
    congrArg Build.snapshot built
  have conflicts : report.conflicts = (Build.outcome v.registry).conflicts :=
    congrArg Build.conflicts built
  have sound := Build.wellFormed_outcome v.registry
  have tallied : (Build.outcome v.registry).Tallied := Build.tallied_foldl _
  have recorded : report.conflicts = conflictsOf (bidsOf v.registry) := by
    rw [conflicts, Build.outcome_eq_foldl, Build.conflicts_hear]
  refine ⟨v.registry, listed, fun hooks => (unhooked hooks).2, recorded, fun k => ?_,
    fun c hc => ?_, fun k => ?_, ?_⟩
  · rw [recorded, snapshot, Build.outcome_eq_foldl, Build.idsOf_hear, retrace]
  · obtain ⟨bid, asked, key, claimant, ignored, some, absent⟩ := mem_conflictsOf (recorded ▸ hc)
    obtain ⟨g, hg, claims, id, derived⟩ := claims_of_mem_bidsOf asked
    exact ⟨some, absent, g, hg, key ▸ claims, claimant.trans id, ignored.trans derived⟩
  · rw [conflicts, snapshot]
    exact tallied.multi_iff sound k
  · rw [conflicts, snapshot]
    exact tallied.length_conflicts

def contested : World where
  registry := [
    .aggregate "all" 8 [.fixed "c" 8 ["Foo bar", "Other"] true, .fixed "lost" 8 ["Sole"] false],
    .fixed "a" 8 ["Foo bar", "foo_bar", "Sole"] true,
    .fixed "gone" 8 ["Foo bar"] false,
    .scripted "b" 8 ["foo bar", "Other"] false true none [.lookup 8 "Other"],
    .fixed "a" 8 ["Other", "Foo bar"] true]

theorem conflicts_exact_contested : ∃ report,
    ((step (.rebuild none)).run contested).1.committed? = some report ∧
    report.conflicts = [
      ⟨⟨"8:foo_bar"⟩, ["a"], "b", false⟩,
      ⟨⟨"8:other"⟩, ["b"], "a", false⟩,
      ⟨⟨"8:foo_bar"⟩, ["a", "b"], "all", true⟩,
      ⟨⟨"8:other"⟩, ["b", "a"], "all", true⟩] ∧
    growth (report.snapshot.idsOf ⟨"8:foo_bar"⟩) =
      [(["a"], ["a", "b"]), (["a", "b"], ["a", "b", "all"])] ∧
    (report.snapshot.toList.map fun e => e.2.size - 1).sum = 4 := by
  have ran : ((step (.rebuild none)).run contested).1.committed?.isSome = true := by decide +kernel
  obtain ⟨report, committed⟩ := Option.isSome_iff_exists.1 ran
  obtain ⟨groups, -, registered, conflicts, growth, -, -, length⟩ :=
    conflicts_exact contested none report committed
  obtain rfl := registered rfl
  have recorded : conflictsOf (bidsOf contested.registry) = [
      ⟨⟨"8:foo_bar"⟩, ["a"], "b", false⟩,
      ⟨⟨"8:other"⟩, ["b"], "a", false⟩,
      ⟨⟨"8:foo_bar"⟩, ["a", "b"], "all", true⟩,
      ⟨⟨"8:other"⟩, ["b", "a"], "all", true⟩] := by decide +kernel
  rw [recorded] at conflicts
  refine ⟨report, committed, conflicts, (growth _).symm.trans ?_, length.symm.trans ?_⟩
  · rw [conflicts]
    decide +kernel
  · rw [conflicts]
    rfl

end World

end ClaimIndex
