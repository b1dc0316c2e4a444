import ClaimIndex.Proofs.Built
import Mathlib.Data.List.Perm.Subperm

namespace ClaimIndex.Claimants

variable {c c' d d' : Claimants}

theorem sameMembers_eq_true : c.sameMembers d = true ↔ c.size = d.size ∧ c.ids ⊆ d.ids := by
  rw [sameMembers, Bool.and_eq_true, decide_eq_true_iff, List.all_eq_true]
  exact and_congr_right fun _ => forall₂_congr fun id _ => List.contains_iff_mem

theorem sameMembers_iff_perm (hc : c.ids.Nodup) : c.sameMembers d = true ↔ c.ids.Perm d.ids := by
  rw [sameMembers_eq_true]
  constructor
  · rintro ⟨size, sub⟩
    exact (hc.subperm sub).perm_of_length_le (Nat.le_of_eq size.symm)
  · intro perm
    exact ⟨perm.length_eq, perm.subset⟩

theorem sameMembers_iff (hc : c.ids.Nodup) (hd : d.ids.Nodup) :
    c.sameMembers d = true ↔ ∀ id, id ∈ c.ids ↔ id ∈ d.ids := by
  rw [sameMembers_iff_perm hc, List.perm_ext_iff_of_nodup hc hd]

theorem sameMembers_comm (hc : c.ids.Nodup) (hd : d.ids.Nodup) :
    c.sameMembers d = d.sameMembers c := by
  rw [Bool.eq_iff_iff, sameMembers_iff_perm hc, sameMembers_iff_perm hd, List.perm_comm]

theorem sameMembers_congr (hc : c.ids.Perm c'.ids) (hd : d.ids.Perm d'.ids) :
    c.sameMembers d = c'.sameMembers d' := by
  rw [Bool.eq_iff_iff, sameMembers_eq_true, sameMembers_eq_true, hc.subset_congr_left,
    hd.subset_congr_right]
  unfold size
  rw [hc.length_eq, hd.length_eq]

theorem sameMembers_equivalence :
    Equivalence fun c d : { c : Claimants // c.ids.Nodup } => c.1.sameMembers d.1 = true where
  refl c := (sameMembers_iff_perm c.2).2 (.refl _)
  symm {c d} h := by rwa [sameMembers_comm d.2 c.2]
  trans {c d e} h h' :=
    (sameMembers_iff_perm c.2).2 (((sameMembers_iff_perm c.2).1 h).trans
      ((sameMembers_iff_perm d.2).1 h'))

/-- Values without repetitions have the same members exactly if they have the same set of ids, so
that this is an equivalence among them and neither order nor shape counts.  Repetitions would leave
room for ids that the other side lacks, and then the answer depends on which side is asked. -/
theorem sameMembers_exact :
    (∀ c d : Claimants, c.ids.Nodup → d.ids.Nodup →
      (c.sameMembers d = true ↔ {id | id ∈ c.ids} = {id | id ∈ d.ids})) ∧
    (Equivalence fun c d : { c : Claimants // c.ids.Nodup } => c.1.sameMembers d.1 = true) ∧
    (∀ c c' d d' : Claimants, c.ids.Perm c'.ids → d.ids.Perm d'.ids →
      c.sameMembers d = c'.sameMembers d') ∧
    ∃ c d : Claimants, c.sameMembers d = true ∧ d.sameMembers c = false := by
  refine ⟨fun c d hc hd => ?_, sameMembers_equivalence, fun c c' d d' => sameMembers_congr,
    .multi ["a", "a"], .multi ["a", "b"], by decide, by decide⟩
  rw [sameMembers_iff hc hd, Set.ext_iff]
  rfl

theorem sameMembers_exact_listings :
    (multi ["a", "b", "c"]).sameMembers (.multi ["c", "a", "b"]) = true ∧
    (multi ["c", "a", "b"]).sameMembers (.multi ["a", "b", "d"]) = false ∧
    (multi ["a"]).sameMembers (.single "a") = true := by
  obtain ⟨sets, equivalence, shapes, -⟩ := sameMembers_exact
  have same : (multi ["a", "b", "c"]).ids.Perm (multi ["c", "a", "b"]).ids := by decide
  refine ⟨?_, ?_, ?_⟩
  · rw [shapes _ (.multi ["c", "a", "b"]) _ (.multi ["c", "a", "b"]) same (.refl _)]
    exact equivalence.refl ⟨.multi ["c", "a", "b"], by decide⟩
  · have there : "c" ∈ (multi ["c", "a", "b"]).ids := by decide
    have absent : "c" ∉ (multi ["a", "b", "d"]).ids := by decide
    rw [← Bool.not_eq_true, sets _ _ (by decide) (by decide), Set.ext_iff]
    exact fun same => absent ((same "c").1 there)
  · rw [shapes (.multi ["a"]) (.single "a") _ (.single "a") (.refl _) (.refl _)]
    exact equivalence.refl ⟨.single "a", by decide⟩

end ClaimIndex.Claimants
