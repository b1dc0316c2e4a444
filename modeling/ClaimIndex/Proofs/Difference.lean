import ClaimIndex.Proofs.Entries
import ClaimIndex.Proofs.Members
import Mathlib.Data.List.Nodup
import Mathlib.Data.Set.Basic

namespace ClaimIndex

namespace Change

def swap (c : Change) : Change := ⟨c.new, c.old⟩

theorem mem_touched {c : Change} {id : GroupId} :
    id ∈ c.touched ↔ ¬ (id ∈ c.old ↔ id ∈ c.new) := by
  simp only [touched, List.mem_append, List.mem_filter, decide_eq_true_iff]
  tauto

end Change

namespace Changes

def swap (c : Changes) : Changes where
  added := c.removed.map fun _ => Change.swap
  removed := c.added.map fun _ => Change.swap
  modified := c.modified.map fun _ => Change.swap

def of (c : Changes) : ChangeKind → Std.ExtTreeMap Key Change
  | .added => c.added
  | .removed => c.removed
  | .modified => c.modified

theorem mem_toList {c : Changes} {kind : ChangeKind} {k : Key} {change : Change} :
    (kind, k, change) ∈ c.toList ↔ (c.of kind)[k]? = some change := by
  have listed {m : Std.ExtTreeMap Key Change} {tag : ChangeKind} :
      (kind, k, change) ∈ m.toList.map (tag, ·) ↔ kind = tag ∧ m[k]? = some change := by
    rw [← Std.ExtTreeMap.mem_toList_iff_getElem?_eq_some, List.mem_map]
    constructor
    · rintro ⟨_, found, same⟩
      cases same
      exact ⟨rfl, found⟩
    · rintro ⟨rfl, found⟩
      exact ⟨_, found, rfl⟩
  rw [toList, List.mem_append, List.mem_append, listed, listed, listed]
  cases kind <;> simp [of]

theorem length_toList (c : Changes) : c.toList.length = c.size := by
  simp [toList, size, Nat.add_assoc]

theorem isEmpty_iff {c : Changes} : c.isEmpty = true ↔ c.toList = [] := by
  rw [isEmpty, decide_eq_true_iff, ← length_toList, List.length_eq_zero_iff]

theorem eq_of_isEmpty {c : Changes} (h : c.isEmpty = true) : c = {} := by
  obtain ⟨added, removed, modified⟩ := c
  simp only [isEmpty, size, decide_eq_true_iff, Nat.add_eq_zero_iff] at h
  rw [mk.injEq]
  simpa [← Std.ExtTreeMap.isEmpty_iff, Std.ExtTreeMap.isEmpty_eq_size_beq_zero, and_assoc] using h

end Changes

def Difference.swap (d : Difference) : Difference := ⟨d.changes.swap, d.touched⟩

namespace Snapshot

variable {a b old new : Snapshot} {kind : ChangeKind} {k : Key} {id : GroupId} {c : Change}

theorem mem_iff_idsOf (hs : old.WellFormed) : k ∈ old ↔ old.idsOf k ≠ [] := by
  rw [idsOf, Std.ExtTreeMap.mem_iff_isSome_getElem?]
  cases hk : old[k]? with
  | none => simp
  | some c => simpa using (hs k c hk).ids_ne_nil

theorem idsOf_eq_nil (absent : k ∉ old) : old.idsOf k = [] := by
  rw [idsOf, Std.ExtTreeMap.getElem?_eq_none absent]
  rfl

theorem nodup_idsOf (hs : old.WellFormed) (k : Key) : (old.idsOf k).Nodup := by
  unfold idsOf
  cases hk : old[k]? with
  | none => exact List.nodup_nil
  | some c => exact (hs k c hk).nodup

def Changed (old new : Snapshot) (kind : ChangeKind) (k : Key) (c : Change) : Prop :=
  match old[k]?, new[k]? with
  | none, none => False
  | none, some d => kind = .added ∧ ⟨[], d.ids⟩ = c
  | some o, none => kind = .removed ∧ ⟨o.ids, []⟩ = c
  | some o, some d => kind = .modified ∧ o.sameMembers d = false ∧ ⟨o.ids, d.ids⟩ = c

theorem getElem?_changes :
    ((old.changes new).of kind)[k]? = some c ↔ Changed old new kind k c := by
  unfold Changed
  cases kind <;>
    simp only [changes, Changes.of, Std.ExtTreeMap.getElem?_filterMap',
      Std.ExtTreeMap.mem_iff_isSome_getElem?] <;>
    cases old[k]? <;> cases new[k]? <;> simp

theorem mem_changes :
    (kind, k, c) ∈ (old.changes new).toList ↔ Changed old new kind k c := by
  rw [Changes.mem_toList, getElem?_changes]

theorem Changed.sides (h : Changed old new kind k c) : ⟨old.idsOf k, new.idsOf k⟩ = c := by
  unfold Changed at h
  unfold idsOf
  cases ho : old[k]? <;> cases hn : new[k]? <;> rw [ho, hn] at h
  · exact h.elim
  · exact h.2
  · exact h.2
  · exact h.2.2

theorem Changed.mem (h : Changed old new kind k c) : k ∈ old ∨ k ∈ new := by
  unfold Changed at h
  rw [Std.ExtTreeMap.mem_iff_isSome_getElem?, Std.ExtTreeMap.mem_iff_isSome_getElem?]
  cases ho : old[k]? <;> cases hn : new[k]? <;> rw [ho, hn] at h
  · exact h.elim
  all_goals simp

theorem same_of_unchanged (hold : old.WellFormed) (h : ∀ kind c, ¬ Changed old new kind k c)
    (id : GroupId) : id ∈ old.idsOf k ↔ id ∈ new.idsOf k := by
  unfold Changed at h
  unfold idsOf
  cases ho : old[k]? with
  | none =>
    cases hn : new[k]? with
    | none => exact Iff.rfl
    | some d => exact (h .added ⟨[], d.ids⟩ (by rw [ho, hn]; exact ⟨rfl, rfl⟩)).elim
  | some o =>
    cases hn : new[k]? with
    | none => exact (h .removed ⟨o.ids, []⟩ (by rw [ho, hn]; exact ⟨rfl, rfl⟩)).elim
    | some d =>
      refine ((Claimants.sameMembers_iff_perm (hold k o ho).nodup).1 ?_).mem_iff
      by_contra differ
      rw [Bool.not_eq_true] at differ
      exact h .modified ⟨o.ids, d.ids⟩ (by rw [ho, hn]; exact ⟨rfl, differ, rfl⟩)

theorem Changed.unique {kind' : ChangeKind} {c' : Change} (h : Changed old new kind k c)
    (h' : Changed old new kind' k c') : kind = kind' ∧ c = c' := by
  refine ⟨?_, h.sides.symm.trans h'.sides⟩
  unfold Changed at h h'
  cases ho : old[k]? <;> cases hn : new[k]? <;> rw [ho, hn] at h h'
  · exact h.elim
  all_goals exact h.1.trans h'.1.symm

theorem nodup_changes : ((old.changes new).toList.map fun change => change.2.1).Nodup := by
  have listed (m : Std.ExtTreeMap Key Change) (tag : ChangeKind) :
      (m.toList.map (tag, ·)).Nodup := by
    have keys : (m.toList.map Prod.fst).Nodup := by
      rw [Std.ExtTreeMap.map_fst_toList_eq_keys]
      exact Std.ExtTreeMap.nodup_keys
    exact keys.of_map.map fun _ _ same => (Prod.mk.inj same).2
  have tagged {m m' : Std.ExtTreeMap Key Change} {tag tag' : ChangeKind} (differ : tag ≠ tag')
      {x y} (hx : x ∈ m.toList.map (tag, ·)) (hy : y ∈ m'.toList.map (tag', ·)) : x ≠ y := by
    obtain ⟨_, -, rfl⟩ := List.mem_map.1 hx
    obtain ⟨_, -, rfl⟩ := List.mem_map.1 hy
    exact fun same => differ (Prod.mk.inj same).1
  refine List.Nodup.map_on ?_ ?_
  · rintro ⟨kind, k, c⟩ h ⟨kind', _, c'⟩ h' rfl
    obtain ⟨rfl, rfl⟩ := (mem_changes.1 h).unique (mem_changes.1 h')
    rfl
  · rw [Changes.toList, List.nodup_append, List.nodup_append]
    refine ⟨⟨listed _ _, listed _ _, fun x hx y hy => tagged (by decide) hx hy⟩, listed _ _, ?_⟩
    intro x hx y hy
    obtain hx | hx := List.mem_append.1 hx
    · exact tagged (by decide) hx hy
    · exact tagged (by decide) hx hy

theorem mem_added : k ∈ (old.changes new).added ↔ k ∉ old ∧ k ∈ new := by
  simp [changes, Std.ExtTreeMap.mem_filterMap, and_comm]

theorem mem_removed : k ∈ (old.changes new).removed ↔ k ∈ old ∧ k ∉ new := by
  simp [changes, Std.ExtTreeMap.mem_filterMap]

theorem mem_modified (hold : old.WellFormed) (hnew : new.WellFormed) :
    k ∈ (old.changes new).modified ↔
      k ∈ old ∧ k ∈ new ∧ ¬ ∀ id, id ∈ old.idsOf k ↔ id ∈ new.idsOf k := by
  rw [Std.ExtTreeMap.mem_iff_isSome_getElem?, Std.ExtTreeMap.mem_iff_isSome_getElem?,
    Std.ExtTreeMap.mem_iff_isSome_getElem?]
  simp only [changes, Std.ExtTreeMap.getElem?_filterMap', idsOf]
  cases ho : old[k]? <;> cases hn : new[k]?
  · simp
  · simp
  · simp
  · rename_i o d
    have same := Claimants.sameMembers_iff (hold k o ho).nodup (hnew k d hn).nodup
    simp [← same]

theorem unlisted_iff (hold : old.WellFormed) (hnew : new.WellFormed) :
    (∀ kind, k ∉ (old.changes new).of kind) ↔
      (k ∈ old ↔ k ∈ new) ∧ ∀ id, id ∈ old.idsOf k ↔ id ∈ new.idsOf k := by
  have kinds : (∀ kind, k ∉ (old.changes new).of kind) ↔ k ∉ (old.changes new).added ∧
      k ∉ (old.changes new).removed ∧ k ∉ (old.changes new).modified :=
    ⟨fun h => ⟨h .added, h .removed, h .modified⟩, fun ⟨added, removed, modified⟩ kind => by
      cases kind with
      | added => exact added
      | removed => exact removed
      | modified => exact modified⟩
  rw [kinds, mem_added, mem_removed, mem_modified hold hnew]
  by_cases ho : k ∈ old <;> by_cases hn : k ∈ new <;> simp [ho, hn, idsOf_eq_nil]

theorem isEmpty_changes (hold : old.WellFormed) (hnew : new.WellFormed) :
    (old.changes new).isEmpty = true ↔
      (∀ k, k ∈ old ↔ k ∈ new) ∧ ∀ k, (old.idsOf k).Perm (new.idsOf k) := by
  have unlisted : (old.changes new).isEmpty = true ↔ ∀ k kind, k ∉ (old.changes new).of kind := by
    rw [Changes.isEmpty_iff, List.eq_nil_iff_forall_not_mem]
    simp only [Prod.forall, Changes.mem_toList, Std.ExtTreeMap.mem_iff_isSome_getElem?,
      Option.isSome_iff_exists, not_exists]
    exact ⟨fun h k kind c => h kind k c, fun h kind k c => h k kind c⟩
  rw [unlisted, ← forall_and]
  refine forall_congr' fun k => ?_
  rw [unlisted_iff hold hnew, List.perm_ext_iff_of_nodup (nodup_idsOf hold k) (nodup_idsOf hnew k)]

theorem diff_of_perm (hold : old.WellFormed) (hnew : new.WellFormed)
    (same : ∀ k, (old.idsOf k).Perm (new.idsOf k)) : old.diff new = {} := by
  have keys (k : Key) : k ∈ old ↔ k ∈ new := by
    rw [mem_iff_idsOf hold, mem_iff_idsOf hnew, ne_eq, ne_eq, ← List.length_eq_zero_iff,
      (same k).length_eq, List.length_eq_zero_iff]
  have nothing := Changes.eq_of_isEmpty ((isEmpty_changes hold hnew).2 ⟨keys, same⟩)
  rw [diff, nothing]
  rfl

theorem changes_swap (hold : old.WellFormed) (hnew : new.WellFormed) :
    new.changes old = (old.changes new).swap := by
  rw [changes, changes, Changes.swap, Changes.mk.injEq]
  refine ⟨?_, ?_, ?_⟩ <;> apply Std.ExtTreeMap.ext_getElem? <;> intro k <;>
    simp only [Std.ExtTreeMap.getElem?_map, Std.ExtTreeMap.getElem?_filterMap',
      Std.ExtTreeMap.mem_iff_isSome_getElem?]
  · cases old[k]? <;> cases new[k]? <;> rfl
  · cases old[k]? <;> cases new[k]? <;> rfl
  · cases ho : old[k]? with
    | none => cases new[k]? <;> rfl
    | some o =>
      cases hn : new[k]? with
      | none => rfl
      | some d =>
        simp only [Option.bind_some,
          Claimants.sameMembers_comm (hnew k d hn).nodup (hold k o ho).nodup]
        cases o.sameMembers d <;> rfl

def keysOf (s : Snapshot) (id : GroupId) : Set Key := {k | id ∈ s.idsOf k}

theorem mem_touched (hold : old.WellFormed) :
    id ∈ (old.diff new).touched ↔ old.keysOf id ≠ new.keysOf id := by
  have differ : old.keysOf id ≠ new.keysOf id ↔
      ∃ k, ¬ (id ∈ old.idsOf k ↔ id ∈ new.idsOf k) := by
    rw [ne_eq, Set.ext_iff, not_forall]
    rfl
  rw [differ, diff, Std.ExtTreeSet.mem_ofList, List.contains_iff_mem, List.mem_flatMap]
  constructor
  · rintro ⟨⟨kind, k, c⟩, listed, touched⟩
    rw [Change.mem_touched, ← (mem_changes.1 listed).sides] at touched
    exact ⟨k, touched⟩
  · rintro ⟨k, other⟩
    by_contra untouched
    refine other (same_of_unchanged hold (fun kind c changed => untouched ?_) id)
    refine ⟨(kind, k, c), mem_changes.2 changed, Change.mem_touched.2 ?_⟩
    rwa [← changed.sides]

theorem touched_comm (hold : old.WellFormed) (hnew : new.WellFormed) :
    (old.diff new).touched = (new.diff old).touched := by
  apply Std.ExtTreeSet.ext_mem
  intro id
  rw [mem_touched hold, mem_touched hnew, ne_comm]

/-- The touched groups are exact.  Between well formed snapshots a group is touched if and only if
the keys that it claims in the one are not those that it claims in the other, so that they are the
same in either direction, and whoever is touched at once is touched on one of two legs. -/
theorem touched_exact (ha : a.WellFormed) (hb : b.WellFormed) :
    (∀ id, id ∈ (a.diff b).touched ↔ a.keysOf id ≠ b.keysOf id) ∧
    (a.diff b).touched = (b.diff a).touched ∧
    ∀ (c : Snapshot), ∀ id ∈ (a.diff c).touched,
      id ∈ (a.diff b).touched ∨ id ∈ (b.diff c).touched := by
  refine ⟨fun id => mem_touched ha, touched_comm ha hb, fun c id h => ?_⟩
  rw [mem_touched ha] at h ⊢
  rw [mem_touched hb]
  by_contra untouched
  rw [not_or, not_not, not_not] at untouched
  exact h (untouched.1.trans untouched.2)

def ofClaims (claims : List (Key × GroupId)) : Snapshot :=
  claims.foldl (fun s claim => (s.claim claim.1 claim.2).2) ∅

theorem wellFormed_ofClaims (claims : List (Key × GroupId)) : (ofClaims claims).WellFormed := by
  have grown (s : Snapshot) (hs : s.WellFormed) :
      (claims.foldl (fun s claim => (s.claim claim.1 claim.2).2) s).WellFormed := by
    induction claims generalizing s with
    | nil => exact hs
    | cons claim claims ih => exact ih _ hs.claim
  exact grown ∅ wellFormed_empty

def before : Snapshot :=
  ofClaims [(⟨"8:hut"⟩, "a"), (⟨"8:hut"⟩, "b"), (⟨"8:inn"⟩, "b"), (⟨"8:den"⟩, "c")]

def after : Snapshot :=
  ofClaims [(⟨"8:hut"⟩, "b"), (⟨"8:hut"⟩, "a"), (⟨"8:inn"⟩, "c"), (⟨"8:inn"⟩, "b"),
    (⟨"8:pub"⟩, "d")]

theorem touched_exact_after : (before.diff after).touched.toList = ["c", "d"] ∧
    before.keysOf "a" = after.keysOf "a" ∧ before.keysOf "c" ≠ after.keysOf "c" := by
  have touched : (before.diff after).touched.toList = ["c", "d"] := by decide +kernel
  obtain ⟨exact, -, -⟩ := touched_exact (wellFormed_ofClaims _ : before.WellFormed)
    (wellFormed_ofClaims _ : after.WellFormed)
  have listed (id : GroupId) : id ∈ (before.diff after).touched ↔ id ∈ ["c", "d"] := by
    rw [← touched, Std.ExtTreeSet.mem_toList]
  refine ⟨touched, ?_, ?_⟩
  · by_contra other
    exact absurd ((listed "a").1 ((exact "a").2 other)) (by decide)
  · exact (exact "c").1 ((listed "c").2 (by decide))

def setAll (s : Snapshot) (entries : List (Key × Change)) : Except Fault Snapshot :=
  entries.foldlM (fun s e => (Claimants.ofList e.2.new).map (s.insert e.1)) s

def patch (s : Snapshot) (cs : Changes) : Except Fault Snapshot :=
  setAll (s.eraseMany cs.removed.keys) (cs.added.toList ++ cs.modified.toList)

theorem exists_setAll {entries : List (Key × Change)}
    (recorded : ∀ e ∈ entries, ∃ d, new[e.1]? = some d ∧ Claimants.ofList e.2.new = .ok d)
    (s : Snapshot) : ∃ t, s.setAll entries = .ok t ∧
      ∀ k, (k ∈ entries.map Prod.fst → t[k]? = new[k]?) ∧
        (k ∉ entries.map Prod.fst → t[k]? = s[k]?) := by
  induction entries generalizing s with
  | nil => exact ⟨s, rfl, fun k => ⟨fun h => (List.not_mem_nil h).elim, fun _ => rfl⟩⟩
  | cons e entries ih =>
    obtain ⟨d, there, made⟩ := recorded e (.head _)
    obtain ⟨t, set, held⟩ := ih (fun e he => recorded e (.tail _ he)) (s.insert e.1 d)
    refine ⟨t, ?_, fun k => ?_⟩
    · rw [setAll, List.foldlM_cons, made]
      exact set
    · obtain ⟨later, never⟩ := held k
      rw [List.map_cons, List.mem_cons, not_or]
      by_cases again : k ∈ entries.map Prod.fst
      · exact ⟨fun _ => later again, fun h => (h.2 again).elim⟩
      · rw [never again, Std.ExtTreeMap.getElem?_insert]
        constructor
        · intro h
          obtain rfl := h.resolve_right again
          simp [there]
        · intro h
          simp [Ne.symm h.1]

theorem ofList_recorded (hnew : new.WellFormed) (h : Changed old new kind k c) (there : k ∈ new) :
    ∃ d, new[k]? = some d ∧ Claimants.ofList c.new = .ok d := by
  obtain ⟨d, hd⟩ := Option.isSome_iff_exists.1 (Std.ExtTreeMap.mem_iff_isSome_getElem?.1 there)
  have sides : new.idsOf k = c.new := congrArg Change.new h.sides
  refine ⟨d, hd, ?_⟩
  rw [← sides, idsOf, hd]
  exact Claimants.ofList_ids (hnew k d hd)

theorem exists_patch (hold : old.WellFormed) (hnew : new.WellFormed) :
    ∃ t, old.patch (old.changes new) = .ok t ∧
      ∀ k, t[k]? = new[k]? ∨ t[k]? = old[k]? ∧ ∀ kind, k ∉ (old.changes new).of kind := by
  let set := (old.changes new).added.toList ++ (old.changes new).modified.toList
  have listed {k : Key} : k ∈ set.map Prod.fst ↔
      k ∈ (old.changes new).added ∨ k ∈ (old.changes new).modified := by
    rw [List.map_append, List.mem_append, Std.ExtTreeMap.map_fst_toList_eq_keys,
      Std.ExtTreeMap.map_fst_toList_eq_keys, Std.ExtTreeMap.mem_keys, Std.ExtTreeMap.mem_keys]
  have recorded : ∀ e ∈ set, ∃ d, new[e.1]? = some d ∧ Claimants.ofList e.2.new = .ok d := by
    rintro ⟨k, c⟩ he
    have there : k ∈ new := by
      have added := listed.1 (List.mem_map_of_mem he)
      rw [mem_added, mem_modified hold hnew] at added
      exact added.elim And.right fun h => h.2.1
    rw [List.mem_append, Std.ExtTreeMap.mem_toList_iff_getElem?_eq_some,
      Std.ExtTreeMap.mem_toList_iff_getElem?_eq_some] at he
    obtain he | he := he
    · have added : Changed old new .added k c := getElem?_changes.1 he
      exact ofList_recorded hnew added there
    · have modified : Changed old new .modified k c := getElem?_changes.1 he
      exact ofList_recorded hnew modified there
  obtain ⟨t, done, held⟩ := exists_setAll recorded (old.eraseMany (old.changes new).removed.keys)
  refine ⟨t, done, fun k => ?_⟩
  obtain ⟨given, kept⟩ := held k
  rw [listed] at given kept
  by_cases h : k ∈ (old.changes new).added ∨ k ∈ (old.changes new).modified
  · exact .inl (given h)
  rw [kept h, getElem?_eraseMany]
  by_cases removed : k ∈ (old.changes new).removed
  · rw [if_pos (Std.ExtTreeMap.mem_keys.2 removed)]
    exact .inl (Std.ExtTreeMap.getElem?_eq_none (mem_removed.1 removed).2).symm
  · rw [if_neg (mt Std.ExtTreeMap.mem_keys.1 removed)]
    refine .inr ⟨rfl, fun kind => ?_⟩
    cases kind with
    | added => exact fun added => h (.inl added)
    | removed => exact removed
    | modified => exact fun modified => h (.inr modified)

end Snapshot

structure Changes.Sorts (cs : Changes) (old new : Snapshot) : Prop where
  added : ∀ k, k ∈ cs.added ↔ k ∉ old ∧ k ∈ new
  removed : ∀ k, k ∈ cs.removed ↔ k ∈ old ∧ k ∉ new
  modified : ∀ k, k ∈ cs.modified ↔
    k ∈ old ∧ k ∈ new ∧ ¬ ∀ id, id ∈ old.idsOf k ↔ id ∈ new.idsOf k
  unlisted : ∀ k, (∀ kind, k ∉ cs.of kind) ↔
    (k ∈ old ↔ k ∈ new) ∧ ∀ id, id ∈ old.idsOf k ↔ id ∈ new.idsOf k
  once : ∀ k kind kind', k ∈ cs.of kind → k ∈ cs.of kind' → kind = kind'
  sides : ∀ (k : Key) kind (c : Change), (cs.of kind)[k]? = some c →
    c = ⟨old.idsOf k, new.idsOf k⟩
  none_before : ∀ (k : Key) (c : Change), cs.added[k]? = some c → c.old = []
  none_after : ∀ (k : Key) (c : Change), cs.removed[k]? = some c → c.new = []

namespace Snapshot

variable {old new : Snapshot}

theorem sorts_changes (hold : old.WellFormed) (hnew : new.WellFormed) :
    (old.changes new).Sorts old new where
  added _ := mem_added
  removed _ := mem_removed
  modified _ := mem_modified hold hnew
  unlisted _ := unlisted_iff hold hnew
  once k kind kind' h h' := by
    rw [Std.ExtTreeMap.mem_iff_isSome_getElem?, Option.isSome_iff_exists] at h h'
    obtain ⟨c, h⟩ := h
    obtain ⟨c', h'⟩ := h'
    exact ((getElem?_changes.1 h).unique (getElem?_changes.1 h')).1
  sides _ _ _ h := (getElem?_changes.1 h).sides.symm
  none_before k c h := by
    have added : Changed old new .added k c := getElem?_changes.1 h
    rw [← added.sides]
    exact idsOf_eq_nil (mem_added.1 (Std.ExtTreeMap.getElem?_eq_some_iff.1 h).1).1
  none_after k c h := by
    have removed : Changed old new .removed k c := getElem?_changes.1 h
    rw [← removed.sides]
    exact idsOf_eq_nil (mem_removed.1 (Std.ExtTreeMap.getElem?_eq_some_iff.1 h).1).2

/-- The difference of well formed snapshots sorts their keys exactly.  Carried out on the old one
it makes a snapshot with the keys of the new one and the same claimants, seen from the other side
it has its kinds and its sides exchanged, and it has no changes exactly if the snapshots are the
same up to the order of claimants. -/
theorem diff_exact (hold : old.WellFormed) (hnew : new.WellFormed) :
    (old.diff new).changes.Sorts old new ∧
    (∃ t, old.patch (old.diff new).changes = .ok t ∧ (∀ k, k ∈ t ↔ k ∈ new) ∧
      ∀ k id, id ∈ t.idsOf k ↔ id ∈ new.idsOf k) ∧
    new.diff old = (old.diff new).swap ∧
    ((old.diff new).changes.isEmpty = true ↔
      (∀ k, k ∈ old ↔ k ∈ new) ∧ ∀ k, (old.idsOf k).Perm (new.idsOf k)) := by
  refine ⟨sorts_changes hold hnew, ?_, ?_, isEmpty_changes hold hnew⟩
  · obtain ⟨t, done, held⟩ := exists_patch hold hnew
    refine ⟨t, done, fun k => ?_, fun k => ?_⟩
    · rw [Std.ExtTreeMap.mem_iff_isSome_getElem?, Std.ExtTreeMap.mem_iff_isSome_getElem?]
      obtain given | ⟨kept, unlisted⟩ := held k
      · rw [given]
      · rw [kept, ← Std.ExtTreeMap.mem_iff_isSome_getElem?,
          ← Std.ExtTreeMap.mem_iff_isSome_getElem?]
        exact ((unlisted_iff hold hnew).1 unlisted).1
    · obtain given | ⟨kept, unlisted⟩ := held k
      · rw [idsOf, given, ← idsOf]
        exact fun _ => Iff.rfl
      · rw [idsOf, kept, ← idsOf]
        exact ((unlisted_iff hold hnew).1 unlisted).2
  · rw [Difference.swap, ← touched_comm hnew hold]
    exact congrArg (Difference.mk · _) (changes_swap hold hnew)

theorem diff_exact_after : (before.diff after).changes.toList = [
      (.added, ⟨"8:pub"⟩, ⟨[], ["d"]⟩), (.removed, ⟨"8:den"⟩, ⟨["c"], []⟩),
      (.modified, ⟨"8:inn"⟩, ⟨["b"], ["c", "b"]⟩)] ∧
    (∃ t, before.patch (before.diff after).changes = .ok t ∧ ∀ k, k ∈ t ↔ k ∈ after) ∧
    after.diff before = (before.diff after).swap := by
  obtain ⟨-, ⟨t, done, keys, -⟩, swapped, -⟩ := diff_exact
    (wellFormed_ofClaims _ : before.WellFormed) (wellFormed_ofClaims _ : after.WellFormed)
  exact ⟨by decide +kernel, ⟨t, done, keys⟩, swapped⟩

end Snapshot

end ClaimIndex
