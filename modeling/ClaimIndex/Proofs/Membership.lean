import ClaimIndex.Proofs.Difference
import ClaimIndex.Proofs.Pages
import ClaimIndex.World.Basic

namespace ClaimIndex

variable {log told : List Notification} {n : Notification} {page : Page} {old new : Snapshot}

/-- The claimants of a page after a log, read from its beginning. -/
def replay (log : List Notification) (page : Page) : List GroupId :=
  log.foldl (fun ids n => if n.page = page then n.change.new else ids) []

/-- Each notification of the log has as its old claimants those that its page has by then. -/
inductive Consistent : List Notification → Prop
  | nil : Consistent []
  | concat {log : List Notification} {n : Notification} (before : Consistent log)
    (old : ∀ id, id ∈ n.change.old ↔ id ∈ replay log n.page) : Consistent (log ++ [n])

theorem replay_concat :
    replay (log ++ [n]) page = if n.page = page then n.change.new else replay log page := by
  rw [replay, List.foldl_append]
  rfl

theorem replay_append_of_forall (h : ∀ n ∈ told, n.page ≠ page) :
    replay (log ++ told) page = replay log page := by
  induction told using List.reverseRecOn with
  | nil => rw [List.append_nil]
  | append_singleton told n ih =>
    rw [← List.append_assoc, replay_concat, if_neg (h n (by simp))]
    exact ih fun n hn => h n (List.mem_append_left _ hn)

theorem replay_append_of_mem (nodup : (told.map Notification.page).Nodup) (h : n ∈ told) :
    replay (log ++ told) n.page = n.change.new := by
  induction told using List.reverseRecOn with
  | nil => exact (List.not_mem_nil h).elim
  | append_singleton told last ih =>
    rw [List.map_append, List.nodup_append] at nodup
    obtain ⟨others, -, apart⟩ := nodup
    rw [← List.append_assoc, replay_concat]
    obtain h | h := List.mem_append.1 h
    · rw [if_neg fun same => apart n.page (List.mem_map_of_mem h) last.page (by simp) same.symm]
      exact ih others h
    · obtain rfl := List.mem_singleton.1 h
      exact if_pos rfl

theorem Consistent.append (h : Consistent log) (nodup : (told.map Notification.page).Nodup)
    (old : ∀ n ∈ told, ∀ id, id ∈ n.change.old ↔ id ∈ replay log n.page) :
    Consistent (log ++ told) := by
  induction told using List.reverseRecOn with
  | nil => rwa [List.append_nil]
  | append_singleton told last ih =>
    rw [List.map_append, List.nodup_append] at nodup
    obtain ⟨others, -, apart⟩ := nodup
    rw [← List.append_assoc]
    refine .concat (ih others fun n hn => old n (List.mem_append_left _ hn)) fun id => ?_
    rw [replay_append_of_forall fun n hn same =>
      apart n.page (List.mem_map_of_mem hn) last.page (by simp) same]
    exact old last (by simp) id

def Mirrors (log : List Notification) (s : Snapshot) : Prop :=
  ∀ page id, id ∈ replay log page ↔ ∃ k : Key, k.page? = some page ∧ id ∈ s.idsOf k

theorem mirrors_empty : Mirrors [] ∅ := by
  intro page id
  simp [replay]

namespace Snapshot

def notifications (old new : Snapshot) : List Notification :=
  (old.changes new).toList.filterMap fun (_, k, c) => k.page?.map (⟨·, c⟩)

theorem mem_notifications : n ∈ old.notifications new ↔
    ∃ kind k, Changed old new kind k n.change ∧ k.page? = some n.page := by
  simp only [notifications, List.mem_filterMap, Option.map_eq_some_iff, Prod.exists, mem_changes]
  constructor
  · rintro ⟨kind, k, c, changed, page, found, rfl⟩
    exact ⟨kind, k, changed, found⟩
  · rintro ⟨kind, k, changed, found⟩
    exact ⟨kind, k, _, changed, _, found, rfl⟩

theorem Changed.addressed {kind : ChangeKind} {k : Key} {c : Change}
    (h : Changed old new kind k c) (hold : old.Addressed) (hnew : new.Addressed) : k.Addressed :=
  h.mem.elim (hold k) (hnew k)

theorem nodup_notifications (hold : old.Addressed) (hnew : new.Addressed) :
    ((old.notifications new).map Notification.page).Nodup := by
  rw [List.Nodup, notifications, List.pairwise_map, List.pairwise_filterMap]
  refine (List.pairwise_map.1 nodup_changes).imp_of_mem ?_
  rintro ⟨kind, k, c⟩ ⟨kind', k', c'⟩ h h' differ n hn n' hn' same
  obtain ⟨page, found, rfl⟩ := Option.map_eq_some_iff.1 hn
  obtain ⟨page', found', rfl⟩ := Option.map_eq_some_iff.1 hn'
  obtain rfl : page = page' := same
  exact differ (((mem_changes.1 h).addressed hold hnew).inj
    ((mem_changes.1 h').addressed hold hnew) (found.trans found'.symm))

end Snapshot

theorem exists_key_iff {s : Snapshot} {k : Key} (hs : s.Addressed) (hk : k.Addressed)
    (found : k.page? = some page) {id : GroupId} :
    (∃ k' : Key, k'.page? = some page ∧ id ∈ s.idsOf k') ↔ id ∈ s.idsOf k := by
  refine ⟨fun ⟨k', found', h⟩ => ?_, fun h => ⟨k, found, h⟩⟩
  have there : k' ∈ s := by
    rw [Std.ExtTreeMap.mem_iff_isSome_getElem?]
    unfold Snapshot.idsOf at h
    cases hs : s[k']? with
    | none => simp [hs] at h
    | some c => rfl
  rwa [← (hs k' there).inj hk (found'.trans found.symm)]

theorem Mirrors.append (h : Mirrors log old) (consistent : Consistent log)
    (sound : old.WellFormed) (hold : old.Addressed) (hnew : new.Addressed) :
    Consistent (log ++ old.notifications new) ∧ Mirrors (log ++ old.notifications new) new := by
  have nodup := Snapshot.nodup_notifications hold hnew
  constructor
  · refine consistent.append nodup fun n hn id => ?_
    obtain ⟨kind, k, changed, found⟩ := Snapshot.mem_notifications.1 hn
    rw [h n.page id, exists_key_iff hold (changed.addressed hold hnew) found, ← changed.sides]
  · intro page id
    by_cases told : ∃ n ∈ old.notifications new, n.page = page
    · obtain ⟨n, hn, rfl⟩ := told
      obtain ⟨kind, k, changed, found⟩ := Snapshot.mem_notifications.1 hn
      rw [replay_append_of_mem nodup hn, exists_key_iff hnew (changed.addressed hold hnew) found,
        ← changed.sides]
    · rw [replay_append_of_forall fun n hn same => told ⟨n, hn, same⟩, h page id]
      refine exists_congr fun k => and_congr_right fun found => ?_
      refine Snapshot.same_of_unchanged sound (fun kind c changed => told ?_) id
      exact ⟨⟨page, c⟩, Snapshot.mem_notifications.2 ⟨kind, k, changed, found⟩, rfl⟩

end ClaimIndex
