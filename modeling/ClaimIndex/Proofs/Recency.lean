import ClaimIndex.Cache
import ClaimIndex.Distinct
import Mathlib.Data.Set.Card

namespace ClaimIndex

section Distinct

variable {α : Type} [DecidableEq α] {a : α} {as : List α} {n : Nat}

theorem mem_take_distinct : a ∈ (distinct as).take n ↔
    a ∈ as ∧ (distinct (as.takeWhile (· ≠ a))).length < n := by
  by_cases there : a ∈ as
  swap
  · exact iff_of_false (fun h => there (mem_distinct.1 (List.mem_of_mem_take h)))
      fun h => there h.1
  obtain ⟨front, rest, rfl, absent⟩ := List.eq_append_cons_of_mem there
  have before : (front ++ a :: rest).takeWhile (· ≠ a) = front := by
    rw [List.takeWhile_append_of_pos fun b hb => by simpa using ne_of_mem_of_not_mem hb absent]
    simp
  rw [before, distinct_append, distinct, List.filter_cons_of_pos (by simpa using absent)]
  have absent : a ∉ distinct front := mt mem_distinct.1 absent
  by_cases few : (distinct front).length < n
  · obtain ⟨more, room⟩ := Nat.exists_eq_add_of_lt few
    rw [room, Nat.add_assoc, List.take_length_add_append, List.take_succ_cons]
    simp only [there, true_and]
    exact iff_of_true (by simp) (by omega)
  · rw [List.take_append_of_le_length (Nat.le_of_not_lt few)]
    exact iff_of_false (fun h => absent (List.mem_of_mem_take h)) fun h => few h.2

theorem length_le_filter (nodup : as.Nodup) :
    as.length ≤ (as.filter (· ≠ a)).length + 1 := by
  by_cases there : a ∈ as
  · have erased : as.filter (· ≠ a) = as.erase a := by
      rw [nodup.erase_eq_filter]
      exact List.filter_congr fun b _ => by simp [bne, beq_eq_decide]
    rw [erased, List.length_erase_add_one there]
  · rw [List.filter_eq_self.2 fun b hb => by simpa using ne_of_mem_of_not_mem hb there]
    exact Nat.le_succ _

theorem take_filter_take (nodup : as.Nodup) :
    ((as.take (n + 1)).filter (· ≠ a)).take n = (as.filter (· ≠ a)).take n := by
  conv_rhs => rw [← List.take_append_drop (n + 1) as, List.filter_append, List.take_append]
  by_cases short : as.length ≤ n + 1
  · rw [List.drop_eq_nil_of_le short, List.filter_nil, List.take_nil, List.append_nil]
  · have kept := length_le_filter (a := a) (nodup.sublist (List.take_sublist (n + 1) as))
    rw [List.length_take] at kept
    rw [Nat.sub_eq_zero_of_le (by omega), List.take_zero, List.append_nil]

end Distinct

namespace Cache

inductive Call
  | get (k : Key)
  | put (k : Key) (ids : List GroupId)
  | putIf (generation : UInt64) (k : Key) (ids : List GroupId)
  | clear

def call (c : Cache) : Call → Cache
  | .get k => (c.get k).2
  | .put k ids => c.put k ids
  | .putIf generation k ids => (c.putIf generation k ids).2
  | .clear => c.clear

def after (capacity : Nat) (past : List Call) : Cache :=
  past.foldr (fun call c => c.call call) (new capacity)

def epoch (past : List Call) : UInt64 := .ofNat (past.countP (· matches .clear))

def stored? : List Call → Key → Option (List GroupId)
  | [], _ | .clear :: _, _ => none
  | .get _ :: past, k => stored? past k
  | .put k' ids :: past, k => if k' = k then some ids else stored? past k
  | .putIf generation k' ids :: past, k =>
    if generation = epoch past ∧ k' = k then some ids else stored? past k

/-- How many other keys have been used since a key was, the latest use standing first. -/
def newer (used : List Key) (k : Key) : Nat := (distinct (used.takeWhile (· ≠ k))).length

/-- The keys used since the last clear, the latest use first.  To store under a key is to use it,
and so is to find what it holds. -/
def uses (room : Nat) : List Call → List Key
  | [] | .clear :: _ => []
  | .put k _ :: past => k :: uses room past
  | .putIf generation k _ :: past =>
    if generation = epoch past then k :: uses room past else uses room past
  | .get k :: past =>
    if (stored? past k).isSome ∧ newer (uses room past) k < room then k :: uses room past
    else uses room past

def held? (room : Nat) (past : List Call) (k : Key) : Option (List GroupId) :=
  if newer (uses room past) k < room then stored? past k else none

variable {c : Cache} {room capacity : Nat} {past : List Call} {k : Key} {ids : List GroupId}

def keys (c : Cache) : List Key := c.entries.map Prod.fst

theorem length_keys : c.keys.length = c.size := List.length_map ..

theorem find?_eq_none : c.find? k = none ↔ k ∉ c.keys := by
  unfold find? keys
  rw [List.lookup_eq_none_iff, List.mem_map]
  constructor
  · rintro absent ⟨e, he, rfl⟩
    simpa using absent e he
  · intro absent e he
    simpa using fun same : k = e.1 => absent ⟨e, he, same.symm⟩

theorem mem_of_find? (h : c.find? k = some ids) : (k, ids) ∈ c.entries := by
  obtain ⟨front, rest, split, -⟩ := List.lookup_eq_some_iff.1 h
  rw [split]
  exact List.mem_append_right _ (.head _)

@[simp] theorem keys_touch : (c.touch k ids).keys = k :: c.keys.filter (· ≠ k) := by
  unfold keys touch
  rw [List.map_cons, List.filter_map]
  rfl

theorem keys_put : (c.put k ids).keys = (k :: c.keys.filter (· ≠ k)).take c.capacity := calc
  _ = (c.touch k ids).keys.take c.capacity := List.map_take
  _ = _ := by rw [keys_touch]

theorem keys_put_distinct {used : List Key} (h : c.keys = (distinct used).take c.capacity) :
    (c.put k ids).keys = (distinct (k :: used)).take c.capacity := by
  rw [keys_put, h, distinct]
  cases c.capacity with
  | zero => rfl
  | succ room => rw [List.take_succ_cons, List.take_succ_cons, take_filter_take (nodup_distinct _)]

theorem get_of_find? (h : c.find? k = some ids) (fits : c.size ≤ c.capacity) :
    c.get k = (some ids, c.put k ids) := by
  have whole : (c.touch k ids).entries.length ≤ c.capacity := by
    refine Nat.le_trans ?_ fits
    have fewer : (c.entries.filter (·.1 ≠ k)).length < c.entries.length :=
      List.length_filter_lt_length_iff_exists.2 ⟨_, mem_of_find? h, by simp⟩
    exact fewer
  rw [get, h, put, List.take_of_length_le whole]

theorem get_of_missed (h : c.find? k = none) : c.get k = (none, c) := by
  rw [get, h]

theorem mem_touch {e : Key × List GroupId} (h : e ∈ (c.touch k ids).entries) :
    e = (k, ids) ∨ e ∈ c.entries :=
  (List.mem_cons.1 h).imp id fun h => (List.mem_filter.1 h).1

theorem mem_put {e : Key × List GroupId} (h : e ∈ (c.put k ids).entries) :
    e = (k, ids) ∨ e ∈ c.entries :=
  mem_touch (List.mem_of_mem_take h)

theorem mem_get {e : Key × List GroupId} (h : e ∈ (c.get k).2.entries) : e ∈ c.entries := by
  unfold get at h
  split at h
  · exact h
  · rename_i found
    obtain rfl | h := mem_touch h
    · exact mem_of_find? found
    · exact h

theorem mem_putIf {generation : UInt64} {e : Key × List GroupId}
    (h : e ∈ (c.putIf generation k ids).2.entries) :
    (c.generation = generation ∧ e = (k, ids)) ∨ e ∈ c.entries := by
  unfold putIf at h
  split at h
  · exact (mem_put h).imp (⟨‹_›, ·⟩) id
  · exact .inr h

theorem generation_putIf {generation : UInt64} :
    (c.putIf generation k ids).2.generation = c.generation := by
  unfold putIf
  split <;> rfl

theorem epoch_cons (call : Call) : epoch (call :: past) =
    if call matches .clear then epoch past + 1 else epoch past := by
  unfold epoch
  cases call <;> simp [UInt64.ofNat_add]

structure Recalls (room : Nat) (past : List Call) (c : Cache) : Prop where
  capacity : c.capacity = room
  generation : c.generation = epoch past
  keys : c.keys = (distinct (uses room past)).take room
  stored : ∀ k ids, (k, ids) ∈ c.entries → stored? past k = some ids
  used : ∀ k, (stored? past k).isSome → k ∈ uses room past

namespace Recalls

theorem find? (h : Recalls room past c) (k : Key) : c.find? k = held? room past k := by
  have among : k ∈ c.keys ↔ k ∈ uses room past ∧ newer (uses room past) k < room := by
    rw [h.keys]
    exact mem_take_distinct
  unfold held?
  cases found : c.find? k with
  | some ids =>
    have there : k ∈ c.keys := by
      by_contra absent
      rw [find?_eq_none.2 absent] at found
      cases found
    rw [if_pos (among.1 there).2, h.stored k ids (mem_of_find? found)]
  | none =>
    have absent := find?_eq_none.1 found
    split
    · rename_i few
      refine (Option.not_isSome_iff_eq_none.1 fun stored => ?_).symm
      exact absent (among.2 ⟨h.used k stored, few⟩)
    · rfl

theorem size_le (h : Recalls room past c) : c.size ≤ c.capacity := by
  rw [← length_keys, h.keys, h.capacity]
  exact List.length_take_le _ _

theorem size (h : Recalls room past c) : c.size = {k | (held? room past k).isSome}.ncard := by
  have nodup : c.keys.Nodup := by
    rw [h.keys]
    exact (nodup_distinct _).sublist (List.take_sublist _ _)
  have held : {k | (held? room past k).isSome} = (c.keys.toFinset : Set Key) := by
    ext k
    rw [Set.mem_ofPred_eq, ← h.find?, List.coe_toFinset, Set.mem_ofPred_eq,
      ← not_iff_not, Option.not_isSome_iff_eq_none, find?_eq_none]
  rw [held, Set.ncard_coe_finset, List.toFinset_card_of_nodup nodup, length_keys]

theorem new (capacity : Nat) : Recalls (max capacity 1) [] (.new capacity) where
  capacity := rfl
  generation := rfl
  keys := List.take_nil.symm
  stored := nofun
  used := nofun

theorem put (h : Recalls (room + 1) past c) {call : Call}
    (generation : epoch (call :: past) = epoch past)
    (use : uses (room + 1) (call :: past) = k :: uses (room + 1) past)
    (stores : ∀ k', stored? (call :: past) k' = if k = k' then some ids else stored? past k') :
    Recalls (room + 1) (call :: past) (c.put k ids) where
  capacity := h.capacity
  generation := h.generation.trans generation.symm
  keys := by
    rw [keys_put_distinct (h.capacity.symm ▸ h.keys), h.capacity, use]
  stored k' ids' entry := by
    rw [stores]
    obtain there | there := List.mem_cons.1 (List.mem_of_mem_take entry)
    · obtain ⟨rfl, rfl⟩ := Prod.mk.inj there
      rw [if_pos rfl]
    · obtain ⟨there, ne⟩ := List.mem_filter.1 there
      rw [if_neg (by simpa using Ne.symm (of_decide_eq_true ne)), h.stored k' ids' there]
  used k' stored := by
    rw [stores] at stored
    rw [use]
    split at stored
    · exact List.mem_cons.2 (.inl (Eq.symm ‹_›))
    · exact .tail _ (h.used k' stored)

theorem idle (h : Recalls room past c) {call : Call}
    (generation : epoch (call :: past) = epoch past)
    (use : uses room (call :: past) = uses room past)
    (stores : ∀ k, stored? (call :: past) k = stored? past k) : Recalls room (call :: past) c where
  capacity := h.capacity
  generation := h.generation.trans generation.symm
  keys := use ▸ h.keys
  stored k ids entry := (stores k).trans (h.stored k ids entry)
  used k stored := use ▸ h.used k (stores k ▸ stored)

theorem clear (h : Recalls room past c) : Recalls room (.clear :: past) c.clear where
  capacity := h.capacity
  generation := by
    rw [epoch_cons, ← h.generation]
    rfl
  keys := List.take_nil.symm
  stored := nofun
  used := nofun

theorem call (h : Recalls (room + 1) past c) (call : Call) :
    Recalls (room + 1) (call :: past) (c.call call) := by
  cases call with
  | put k ids => exact h.put (epoch_cons _) rfl fun _ => rfl
  | clear => exact h.clear
  | putIf generation k ids =>
    have same : epoch (.putIf generation k ids :: past) = epoch past := epoch_cons _
    by_cases current : generation = epoch past
    · have stored : (c.putIf generation k ids).2 = c.put k ids := by
        rw [Cache.putIf, if_pos (h.generation.trans current.symm)]
      rw [Cache.call, stored]
      exact h.put same (by rw [uses, if_pos current]) fun k' => by simp [stored?, current]
    · have refused : (c.putIf generation k ids).2 = c := by
        rw [Cache.putIf, if_neg (h.generation ▸ Ne.symm current)]
      rw [Cache.call, refused]
      exact h.idle same (by rw [uses, if_neg current]) fun k' => by simp [stored?, current]
  | get k =>
    have same : epoch (.get k :: past) = epoch past := epoch_cons _
    have found := h.find? k
    unfold held? at found
    by_cases hit : (stored? past k).isSome ∧ newer (uses (room + 1) past) k < room + 1
    · obtain ⟨ids, stored⟩ := Option.isSome_iff_exists.1 hit.1
      rw [if_pos hit.2, stored] at found
      rw [Cache.call, get_of_find? found h.size_le]
      refine h.put same (by rw [uses, if_pos hit]) fun k' => ?_
      split
      · rename_i here
        exact here ▸ stored
      · rfl
    · have missed : c.find? k = none := by
        rw [found]
        split
        · exact Option.not_isSome_iff_eq_none.1 fun stored => hit ⟨stored, ‹_›⟩
        · rfl
      rw [Cache.call, get_of_missed missed]
      exact h.idle same (by rw [uses, if_neg hit]) fun _ => rfl

theorem after (capacity : Nat) (past : List Call) :
    Recalls (max capacity 1) past (after capacity past) := by
  induction past with
  | nil => exact .new capacity
  | cons call past ih =>
    obtain ⟨room, some⟩ := Nat.exists_eq_add_one_of_ne_zero
      (Nat.ne_of_gt (Nat.lt_of_lt_of_le Nat.one_pos (Nat.le_max_right capacity 1)))
    rw [some] at ih ⊢
    exact ih.call call

end Recalls

/-- The cache holds exactly the answers used last.  Whatever calls were made of a new cache, a key
is held if it was stored since the last clear and fewer distinct other keys than there is room for
were stored or found since it was stored or found itself, and then with the answer stored last;
there is always room for one key, and never more keys than there is room for.  A get that misses
and an answer refused for its generation leave the cache as it is, order included. -/
theorem holds_recent_answers (capacity : Nat) (past : List Call) :
    let room := max capacity 1
    let c := after capacity past
    (∀ k, c.find? k = held? room past k) ∧
    c.size = {k | (held? room past k).isSome}.ncard ∧ c.size ≤ room ∧
    (∀ k, (c.get k).1 = held? room past k ∧ (held? room past k = none → c.call (.get k) = c)) ∧
    ∀ generation k ids, (c.putIf generation k ids).1 = decide (generation = epoch past) ∧
      (generation ≠ epoch past → c.call (.putIf generation k ids) = c) := by
  intro room c
  have recalls : Recalls room past c := .after capacity past
  refine ⟨recalls.find?, recalls.size, recalls.capacity ▸ recalls.size_le, fun k => ?_,
    fun generation k ids => ?_⟩
  · rw [← recalls.find? k, call]
    cases found : c.find? k with
    | none => exact ⟨congrArg Prod.fst (get_of_missed found),
        fun _ => congrArg Prod.snd (get_of_missed found)⟩
    | some ids => exact ⟨congrArg Prod.fst (get_of_find? found recalls.size_le), nofun⟩
  · rw [call, putIf, recalls.generation]
    by_cases current : generation = epoch past
    · exact ⟨by simp [current], fun stale => (stale current).elim⟩
    · exact ⟨by simp [Ne.symm current, current], fun _ => by rw [if_neg (Ne.symm current)]⟩

def pressed : List Call := [
  .putIf 0 ⟨"8:late"⟩ ["d"], .get ⟨"8:second"⟩, .put ⟨"8:third"⟩ ["c"], .get ⟨"8:first"⟩,
  .putIf 1 ⟨"8:second"⟩ ["b"], .put ⟨"8:first"⟩ ["a"], .clear, .put ⟨"8:old"⟩ ["z"]]

theorem holds_recent_answers_pressed :
    let c := after 2 pressed
    c.find? ⟨"8:first"⟩ = some ["a"] ∧ c.find? ⟨"8:second"⟩ = none ∧
      c.find? ⟨"8:old"⟩ = none ∧ c.find? ⟨"8:late"⟩ = none ∧ c.call (.get ⟨"8:second"⟩) = c ∧
      c.call (.putIf 0 ⟨"8:second"⟩ ["b"]) = c := by
  intro c
  obtain ⟨holds, -, -, gets, guarded⟩ := holds_recent_answers 2 pressed
  have first : held? 2 pressed ⟨"8:first"⟩ = some ["a"] := by decide +kernel
  have second : held? 2 pressed ⟨"8:second"⟩ = none := by decide +kernel
  have old : held? 2 pressed ⟨"8:old"⟩ = none := by decide +kernel
  have late : held? 2 pressed ⟨"8:late"⟩ = none := by decide +kernel
  have stale : (0 : UInt64) ≠ epoch pressed := by decide +kernel
  exact ⟨(holds _).trans first, (holds _).trans second, (holds _).trans old, (holds _).trans late,
    (gets _).2 second, (guarded 0 _ _).2 stale⟩

end Cache

end ClaimIndex
