import ClaimIndex.Store.Memory

namespace ClaimIndex

theorem getElem?_insertMany_toList {β : Type} (s t : Std.ExtTreeMap Key β) (k : Key) :
    (t.insertMany s.toList)[k]? = s[k]?.or t[k]? := by
  cases hk : s[k]? with
  | some c =>
    exact Std.ExtTreeMap.getElem?_insertMany_list_of_mem Std.ReflOrd.compare_self
      Std.ExtTreeMap.distinct_keys_toList (Std.ExtTreeMap.mem_toList_iff_getElem?_eq_some.2 hk)
  | none =>
    apply Std.ExtTreeMap.getElem?_insertMany_list_of_contains_eq_false
    simpa using hk

theorem values_eq_map_snd {α β : Type} [Ord α] [Std.TransOrd α] (s : Std.ExtTreeMap α β) :
    s.values = s.toList.map Prod.snd := by
  obtain ⟨⟨tree⟩⟩ := s
  induction tree using Quotient.ind with
  | _ tree =>
    open Std.DTreeMap.Internal in
    change tree.inner.values = (Impl.Const.toList tree.inner).map Prod.snd
    rw [Impl.values_eq_map_snd, Impl.Const.toList_eq_toListModel_map, List.map_map]
    rfl

namespace Snapshot

variable (s : Snapshot) (k : Key)

theorem ofList_of_perm {entries : List (Key × Claimants)} (order : entries.Perm s.toList) :
    Std.ExtTreeMap.ofList entries = s := by
  have distinct : entries.Pairwise fun a b => ¬ compare a.1 b.1 = .eq :=
    order.symm.pairwise Std.ExtTreeMap.distinct_keys_toList fun h same =>
      h (Std.OrientedCmp.eq_comm.1 same)
  apply Std.ExtTreeMap.ext_getElem?
  intro k
  cases hk : s[k]? with
  | some c =>
    have entry : (k, c) ∈ entries :=
      order.symm.subset (Std.ExtTreeMap.mem_toList_iff_getElem?_eq_some.2 hk)
    exact Std.ExtTreeMap.getElem?_ofList_of_mem Std.ReflOrd.compare_self distinct entry
  | none =>
    have absent : ∀ c, (k, c) ∉ entries := fun c entry => by
      have held := Std.ExtTreeMap.mem_toList_iff_getElem?_eq_some.1 (order.subset entry)
      rw [hk] at held
      cases held
    apply Std.ExtTreeMap.getElem?_ofList_of_contains_eq_false
    simpa using absent

theorem eraseMany_eq_foldl (keys : List Key) :
    s.eraseMany keys = keys.foldl (fun s k => s.erase k) s := by
  have inner : s.inner.eraseMany keys = keys.foldl (fun s k => s.erase k) s.inner := by
    simp only [Std.ExtDTreeMap.eraseMany, bind_pure_comp, map_pure,
      List.forIn_pure_yield_eq_foldl]
    exact (List.foldl_hom Subtype.val fun _ _ => rfl).symm
  change Std.ExtTreeMap.mk (s.inner.eraseMany keys) = _
  rw [inner]
  exact (List.foldl_hom Std.ExtTreeMap.mk fun _ _ => rfl).symm

theorem getElem?_eraseMany (keys : List Key) :
    (s.eraseMany keys)[k]? = if k ∈ keys then none else s[k]? := by
  rw [eraseMany_eq_foldl]
  induction keys generalizing s with
  | nil => simp
  | cons k' keys ih =>
    rw [List.foldl_cons, ih, Std.ExtTreeMap.getElem?_erase]
    by_cases hk : k' = k
    · simp [hk]
    · simp [hk, Ne.symm hk]

end Snapshot

namespace MemoryStore

theorem insert_changed (t : Snapshot) (k : Key) (c : Claimants) :
    (if t[k]? = some c then t else t.insert k c) = t.insert k c := by
  split
  · apply Std.ExtTreeMap.ext_getElem?
    intro k'
    by_cases hk : k = k'
    · subst hk
      simpa
    · simp [Std.ExtTreeMap.getElem?_insert, hk]
  · rfl

theorem getElem?_apply (primary s : Snapshot) (c : Changes) (k : Key) :
    (apply primary s c)[k]? = s[k]?.or (if k ∈ c.removed.keys then none else primary[k]?) := by
  simp only [apply, insert_changed]
  rw [Std.ExtTreeMap.foldl_eq_foldl_toList, ← Std.ExtTreeMap.insertMany_list_eq_foldl,
    getElem?_insertMany_toList, Snapshot.getElem?_eraseMany]

theorem apply_eq_iff {primary s : Snapshot} {c : Changes} :
    apply primary s c = s ↔ ∀ k ∈ primary, k ∉ s → k ∈ c.removed := by
  constructor
  · refine fun whole k there absent => Decidable.byContradiction fun kept => ?_
    have held := getElem?_apply primary s c k
    rw [whole, if_neg (mt Std.ExtTreeMap.mem_keys.1 kept), Std.ExtTreeMap.getElem?_eq_none absent,
      Option.none_or] at held
    rw [Std.ExtTreeMap.mem_iff_isSome_getElem?, ← held] at there
    exact Bool.noConfusion there
  · intro covered
    apply Std.ExtTreeMap.ext_getElem?
    intro k
    rw [getElem?_apply]
    cases hk : s[k]? with
    | some d => rfl
    | none =>
      have absent : k ∉ s := by simpa using hk
      rw [Option.none_or]
      split
      · rfl
      · rename_i kept
        exact Std.ExtTreeMap.getElem?_eq_none fun there =>
          kept (Std.ExtTreeMap.mem_keys.2 (covered k there absent))

theorem apply_changes (old new : Snapshot) : apply old new (old.changes new) = new :=
  apply_eq_iff.2 fun k there absent => by
    simp [Snapshot.changes, Std.ExtTreeMap.mem_filterMap, absent, there]

end MemoryStore

end ClaimIndex
