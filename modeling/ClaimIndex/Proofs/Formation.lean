import ClaimIndex.Form.Snapshot
import ClaimIndex.Proofs.Codec

namespace ClaimIndex

theorem distinct_eq_eraseDups {α : Type} [DecidableEq α] (as : List α) :
    distinct as = as.eraseDups := by
  induction as using List.reverseRecOn with
  | nil => rfl
  | append_singleton as a ih =>
    rw [distinct_concat, ih, List.eraseDups_append, appendNew]
    by_cases there : a ∈ as <;> simp [List.removeAll, List.eraseDups_cons, there]

namespace Claimants

variable {c : Claimants} {ids : List GroupId} {id : GroupId}

theorem wellFormed_ofList (h : ofList ids = .ok c) : c.WellFormed := by
  have nodup := nodup_distinct ids
  unfold ofList at h
  split at h
  · cases h
  · cases h
    trivial
  · rename_i none one
    cases h
    refine ⟨?_, nodup⟩
    match distinct ids, none, one with
    | [], none, _ => exact absurd rfl none
    | [a], _, one => exact absurd rfl (one a)
    | a :: b :: rest, _, _ => exact Nat.le_add_left 2 rest.length

theorem ids_of_ofList (h : ofList ids = .ok c) : c.ids = ids.eraseDups := by
  rw [← distinct_eq_eraseDups]
  unfold ofList at h
  split at h
  · cases h
  · rename_i one
    cases h
    exact one.symm
  · cases h
    rfl

theorem exists_ofList (some : ids ≠ []) : ∃ c, ofList ids = .ok c := by
  unfold ofList
  split
  · rename_i none
    exact absurd (distinct_eq_nil.1 none) some
  · exact ⟨_, rfl⟩
  · exact ⟨_, rfl⟩

theorem WellFormed.isConflict_iff (h : c.WellFormed) : c.isConflict = true ↔ 2 ≤ c.size := by
  cases c with
  | single id => simp [isConflict, size]
  | multi ids => simp [isConflict, size, h.1]

theorem WellFormed.primary?_ne_none (h : c.WellFormed) : c.primary? ≠ none := by
  rw [primary?, Ne, List.head?_eq_none_iff]
  exact h.ids_ne_nil

theorem push_of_mem (h : id ∈ c.ids) : c.push id = c := by
  simp [push, contains, h]

theorem ids_push_of_notMem (h : id ∉ c.ids) : (c.push id).ids = c.ids ++ [id] := by
  rw [ids_push, appendNew, if_neg h]

end Claimants

namespace Snapshot

variable {s : Snapshot} {k : Key} {c : Claimants} {entries : List (Key × Claimants)}

theorem WellFormed.insert (hs : s.WellFormed) (hc : c.WellFormed) :
    Snapshot.WellFormed (s.insert k c) := by
  intro k' d hd
  rw [Std.ExtTreeMap.getElem?_insert] at hd
  split at hd
  · cases hd
    exact hc
  · exact hs k' d hd

theorem WellFormed.erase (hs : s.WellFormed) : Snapshot.WellFormed (s.erase k) := by
  intro k' d hd
  rw [Std.ExtTreeMap.getElem?_erase] at hd
  split at hd
  · cases hd
  · exact hs k' d hd

theorem wellFormed_ofList (h : ∀ e ∈ entries, e.2.WellFormed) :
    Snapshot.WellFormed (.ofList entries) := by
  rw [Std.ExtTreeMap.ofList_eq_insertMany_empty, Std.ExtTreeMap.insertMany_list_eq_foldl]
  have grown (s : Snapshot) (hs : s.WellFormed) :
      Snapshot.WellFormed (entries.foldl (fun s e => s.insert e.1 e.2) s) := by
    induction entries generalizing s with
    | nil => exact hs
    | cons e entries ih =>
      exact ih (fun e he => h e (.tail _ he)) _ (hs.insert (h e (.head _)))
  exact grown ∅ wellFormed_empty

theorem WellFormed.conflictCount (hs : s.WellFormed) :
    s.conflictCount = (s.keys.filter fun k => 2 ≤ (s.idsOf k).length).length := by
  rw [Snapshot.conflictCount, values_eq_map_snd, List.countP_map,
    ← Std.ExtTreeMap.map_fst_toList_eq_keys, ← List.countP_eq_length_filter, List.countP_map]
  refine List.countP_congr fun e he => ?_
  obtain ⟨k, c⟩ := e
  have there := Std.ExtTreeMap.mem_toList_iff_getElem?_eq_some.1 he
  have ids : s.idsOf k = c.ids := by
    rw [idsOf, there]
    rfl
  rw [Function.comp_apply, Function.comp_apply, ids, decide_eq_true_iff]
  exact (hs k c there).isConflict_iff

end Snapshot

namespace Codec

variable {α β : Type} {P : α → Prop} {Q : β → Prop}

def Takes (P : α → Prop) (r : Reader α) : Prop :=
  ∀ bytes a rest, r.run bytes = .ok (a, rest) → P a

theorem takes_pure {a : α} (h : P a) : Takes P (pure a) := by
  rintro bytes _ rest ⟨⟩
  exact h

theorem takes_bind {r : Reader α} {f : α → Reader β} (hr : Takes P r)
    (hf : ∀ a, P a → Takes Q (f a)) : Takes Q (r >>= f) := by
  intro bytes b rest read
  rw [StateT.run_bind] at read
  cases first : r.run bytes with
  | error detail =>
    rw [first] at read
    cases read
  | ok front =>
    rw [first] at read
    exact hf front.1 (hr bytes front.1 front.2 first) front.2 b rest read

theorem takes_items {item : Reader α} (h : Takes P item) (count : Nat) :
    Takes (fun as => ∀ a ∈ as, P a) (items? item count) := by
  induction count with
  | zero => exact takes_pure fun a ha => absurd ha List.not_mem_nil
  | succ count ih =>
    exact takes_bind h fun a ha => takes_bind ih fun as has =>
      takes_pure (List.forall_mem_cons.2 ⟨ha, has⟩)

theorem takes_any (r : Reader α) : Takes (fun _ => True) r := fun _ _ _ _ => trivial

theorem takes_entry : Takes (fun e => e.2.WellFormed) entry? := by
  rw [entry?_eq]
  refine takes_bind (takes_any _) fun key _ => takes_bind (takes_any _) fun ids _ => ?_
  intro bytes e rest read
  unfold entryOf? at read
  split at read
  · cases read
  · rename_i made
    cases read
    exact Claimants.wellFormed_ofList made

theorem wellFormed_of_decode {bytes : Bytes} {version : Nat} {s : Snapshot}
    (h : decode bytes = .ok (version, s)) : s.WellFormed := by
  have entries : Takes (fun r => ∀ e ∈ r.2, e.2.WellFormed) entries? :=
    takes_bind (takes_any _) fun _ _ =>
      takes_bind (takes_bind (takes_any _) fun count _ => takes_items takes_entry count)
        fun _ formed => takes_pure formed
  rw [decode_eq] at h
  cases read : entries?.run bytes with
  | error detail =>
    rw [read] at h
    cases h
  | ok r =>
    rw [read] at h
    cases h
    exact Snapshot.wellFormed_ofList (entries bytes r.1 r.2 read)

end Codec

theorem Claimants.wellFormed_of_ofDatum {d : Datum} {c : Claimants} (h : ofDatum? d = some c) :
    c.WellFormed := by
  obtain ⟨ids, -, made⟩ := Option.bind_eq_some_iff.1 h
  cases listed : ofList ids with
  | error fault =>
    rw [listed] at made
    cases made
  | ok c' =>
    rw [listed] at made
    cases made
    exact wellFormed_ofList listed

theorem Datum.exists_of_mem_asMap {α : Type} {value : Datum → Option α} {d : Datum}
    {members : List (String × α)} (h : d.asMap value = some members) {e : String × α}
    (he : e ∈ members) : ∃ part, value part = some e.2 := by
  unfold asMap at h
  split at h
  · rename_i table
    induction table generalizing members with
    | nil =>
      cases h
      cases he
    | cons first table ih =>
      rw [List.mapM_cons] at h
      obtain ⟨front, hfront, h⟩ := Option.bind_eq_some_iff.1 h
      obtain ⟨back, hback, h⟩ := Option.bind_eq_some_iff.1 h
      cases h
      obtain rfl | he := List.mem_cons.1 he
      · obtain ⟨a, ha, rfl⟩ := Option.map_eq_some_iff.1 hfront
        exact ⟨first.2, ha⟩
      · exact ih he hback
  · cases h

theorem Snapshot.wellFormed_of_ofDatum {d : Datum} {s : Snapshot} (h : ofDatum? d = some s) :
    s.WellFormed := by
  obtain ⟨members, read, rfl⟩ := Option.map_eq_some_iff.1 h
  refine wellFormed_ofList fun e he => ?_
  obtain ⟨member, hm, rfl⟩ := List.mem_map.1 he
  obtain ⟨part, made⟩ := Datum.exists_of_mem_asMap read hm
  exact Claimants.wellFormed_of_ofDatum made

mutual

/-- What conversions, pushes and snapshots give. -/
inductive Claimants.Made : Claimants → Prop
  | single (id : GroupId) : Claimants.Made (.single id)
  | ofList {ids : List GroupId} {c : Claimants} (h : Claimants.ofList ids = .ok c) :
    Claimants.Made c
  | push {c : Claimants} (h : Claimants.Made c) (id : GroupId) : Claimants.Made (c.push id)
  | held {s : Snapshot} (h : Snapshot.Made s) {k : Key} {c : Claimants}
    (there : s[k]? = some c) : Claimants.Made c

/-- What can come of the empty snapshot or one that was read. -/
inductive Snapshot.Made : Snapshot → Prop
  | empty : Snapshot.Made ∅
  | decoded {bytes : Bytes} {version : Nat} {s : Snapshot}
    (h : Codec.decode bytes = .ok (version, s)) : Snapshot.Made s
  | document {d : Datum} {s : Snapshot} (h : Snapshot.ofDatum? d = some s) : Snapshot.Made s
  | claim {s : Snapshot} (h : Snapshot.Made s) (k : Key) (id : GroupId) :
    Snapshot.Made (s.claim k id).2
  | insert {s : Snapshot} (h : Snapshot.Made s) (k : Key) {c : Claimants}
    (made : Claimants.Made c) : Snapshot.Made (s.insert k c)
  | remove {s : Snapshot} (h : Snapshot.Made s) (k : Key) : Snapshot.Made (s.erase k)
  | collect {entries : List (Key × Claimants)} (h : ∀ e ∈ entries, Claimants.Made e.2) :
    Snapshot.Made (.ofList entries)

end

mutual

theorem Claimants.Made.wellFormed : ∀ {c : Claimants}, c.Made → c.WellFormed
  | _, .single _ => trivial
  | _, .ofList h => Claimants.wellFormed_ofList h
  | _, .push h id => h.wellFormed.push id
  | _, .held h there => h.wellFormed _ _ there

theorem Snapshot.Made.wellFormed : ∀ {s : Snapshot}, s.Made → s.WellFormed
  | _, .empty => Snapshot.wellFormed_empty
  | _, .decoded h => Codec.wellFormed_of_decode h
  | _, .document h => Snapshot.wellFormed_of_ofDatum h
  | _, .claim h k id => h.wellFormed.claim
  | _, .insert h k made => h.wellFormed.insert made.wellFormed
  | _, .remove h k => h.wellFormed.erase
  | _, .collect h => Snapshot.wellFormed_ofList fun e he => (h e he).wellFormed

end

namespace Snapshot

/-- Claimant lists keep to their form: under whatever comes about, each key has one claimant or
several distinct ones, so that a conflict is a key with two claimants or more and there is always a
first one.  A claimant is pushed to the end unless it is there; and lists and claimants are
converted to each other and back, but for later repetitions, which are dropped, and for the list of
nobody, which is refused. -/
theorem claim_lists_formed :
    (∀ s : Snapshot, s.Made →
      (∀ (k : Key) (c : Claimants), s[k]? = some c →
        ((∃ id, c = .single id) ∨ ∃ ids, c = .multi ids ∧ 2 ≤ ids.length ∧ ids.Nodup) ∧
        (c.isConflict = true ↔ 2 ≤ c.size) ∧ c.primary? ≠ none) ∧
      s.conflictCount = (s.keys.filter fun k => 2 ≤ (s.idsOf k).length).length) ∧
    (∀ (c : Claimants) (id : GroupId), (id ∈ c.ids → c.push id = c) ∧
      (id ∉ c.ids → (c.push id).ids = c.ids ++ [id])) ∧
    (∀ c : Claimants, c.Made → Claimants.ofList c.ids = .ok c) ∧
    Claimants.ofList [] = .error .emptyClaimants ∧
    ∀ ids : List GroupId, ids ≠ [] →
      ∃ c, Claimants.ofList ids = .ok c ∧ c.Made ∧ c.ids = ids.eraseDups := by
  refine ⟨fun s made => ⟨fun k c there => ?_, made.wellFormed.conflictCount⟩,
    fun c id => ⟨Claimants.push_of_mem, Claimants.ids_push_of_notMem⟩,
    fun c made => Claimants.ofList_ids made.wellFormed, rfl, fun ids some => ?_⟩
  · have formed := made.wellFormed k c there
    refine ⟨?_, formed.isConflict_iff, formed.primary?_ne_none⟩
    cases c with
    | single id => exact .inl ⟨id, rfl⟩
    | multi ids => exact .inr ⟨ids, rfl, formed⟩
  · obtain ⟨c, made⟩ := Claimants.exists_ofList some
    exact ⟨c, made, .ofList made, Claimants.ids_of_ofList made⟩

def scrawl : Datum := .table [
  ("8:hut", .list [.text "a", .text "a"]),
  ("8:inn", .list [.text "a", .text "b", .text "a"])]

def mended (s : Snapshot) : Snapshot :=
  (((s.claim ⟨"8:hut"⟩ "b").2.claim ⟨"8:hut"⟩ "a").2.insert ⟨"8:den"⟩
    ((Claimants.single "c").push "c")).erase ⟨"8:inn"⟩

theorem claim_lists_formed_mended : ∃ s, ofDatum? scrawl = some s ∧ (mended s).Made ∧
    (mended s)[(⟨"8:hut"⟩ : Key)]? = some (.multi ["a", "b"]) ∧ (mended s).conflictCount = 1 ∧
    Claimants.ofList ["a", "b"] = .ok (.multi ["a", "b"]) ∧
    ∃ c, Claimants.ofList ["b", "a", "b"] = .ok c ∧ c.ids = ["b", "a"] := by
  have read : ((ofDatum? scrawl).map fun s => ((mended s)[(⟨"8:hut"⟩ : Key)]?,
      (mended s).keys.filter fun k => 2 ≤ ((mended s).idsOf k).length)) =
        some (some (.multi ["a", "b"]), [⟨"8:hut"⟩]) := by decide +kernel
  obtain ⟨s, document, found⟩ := Option.map_eq_some_iff.1 read
  obtain ⟨hut, contested⟩ := Prod.mk.inj found
  have made : (mended s).Made :=
    .remove (.insert (.claim (.claim (.document document) _ _) _ _) _ (.push (.single "c") "c")) _
  obtain ⟨formed, -, back, -, listed⟩ := claim_lists_formed
  obtain ⟨c, converted, -, ids⟩ := listed ["b", "a", "b"] (by decide)
  refine ⟨s, document, made, hut, ?_, back _ (.held made hut), c, converted, ids⟩
  rw [(formed _ made).2, contested]
  rfl

end Snapshot

end ClaimIndex
