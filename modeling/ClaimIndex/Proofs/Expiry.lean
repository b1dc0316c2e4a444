import ClaimIndex.Proofs.Removal
import Mathlib.Data.List.Pairwise

namespace ClaimIndex.Overlay.Slots

inductive Request
  | set (name : String) (entry : Entry) (ttl : Span) (now : Instant)
  | get (name : String) (now : Instant)
  | delete (name : String)
  | deleteIf (name : String) (stamp now : Instant)
  | live (now : Instant)

inductive Answer
  | done
  | found (entry : Option Entry)
  | removed (gone : Bool)
  | count (n : Nat)

def Request.reading? : Request → Option Instant
  | set _ _ _ now | get _ now | deleteIf _ _ now | live now => some now
  | delete _ => none

def readings (requests : List Request) : List Instant := requests.filterMap Request.reading?

def ask (s : Slots) : Request → Answer × Slots
  | .set name entry ttl now => (.done, s.set name entry ttl now)
  | .get name now => (.found (s.get name now).1, (s.get name now).2)
  | .delete name => (.done, s.delete name)
  | .deleteIf name stamp now =>
    (.removed (s.deleteIf name stamp now).1, (s.deleteIf name stamp now).2)
  | .live now => (.count (s.live now), s)

def seen? (s : Slots) (name : String) (now : Instant) : Option Entry :=
  s[name]?.bind fun held => if held.expiry ≤ now then none else some held.entry

def askKept (s : Slots) : Request → Answer × Slots
  | .set name entry ttl now => (.done, s.insert name ⟨entry, now.after ttl⟩)
  | .get name now => (.found (s.seen? name now), s)
  | .delete name => (.done, s.erase name)
  | .deleteIf name stamp now =>
    if (s.seen? name now).any (·.stamp.equals stamp) then (.removed true, s.erase name)
    else (.removed false, s)
  | .live now => (.count (s.keys.filter fun name => (s.seen? name now).isSome).length, s)

def answers (ask : Slots → Request → Answer × Slots) : Slots → List Request → List Answer
  | _, [] => []
  | s, request :: requests => (ask s request).1 :: answers ask (ask s request).2 requests

variable {s kept : Slots} {name : String} {now stamp : Instant} {later : List Instant}
  {request : Request}

section Calls

theorem get_fst : (s.get name now).1 = s.seen? name now := by
  unfold get seen?
  cases s[name]? with
  | none => rfl
  | some held => by_cases late : held.expiry ≤ now <;> simp [Slot.expired, late]

theorem deleteIf_fst : (s.deleteIf name stamp now).1 =
    (s.seen? name now).any (·.stamp.equals stamp) := by
  unfold deleteIf seen?
  cases s[name]? with
  | none => rfl
  | some held =>
    by_cases late : held.expiry ≤ now
    · simp [Slot.expired, late]
    · by_cases same : held.entry.stamp.equals stamp = true <;> simp [Slot.expired, late, same]

theorem deleteIf_snd : (s.deleteIf name stamp now).2 =
    if (s.seen? name now).any (·.stamp.equals stamp) then s.erase name else s := by
  rw [← deleteIf_fst]
  cases hit : (s.deleteIf name stamp now).1 with
  | false => exact deleteIf_missed hit
  | true =>
    obtain ⟨-, -, -, -, erased⟩ := deleteIf_hit hit
    exact erased

theorem live_eq : s.live now = (s.keys.filter fun name => (s.seen? name now).isSome).length := by
  rw [live, values_eq_map_snd, List.countP_map, ← Std.ExtTreeMap.map_fst_toList_eq_keys,
    ← List.countP_eq_length_filter, List.countP_map]
  refine List.countP_congr fun e he => ?_
  obtain ⟨name, held⟩ := e
  have there := Std.ExtTreeMap.mem_toList_iff_getElem?_eq_some.1 he
  by_cases late : held.expiry ≤ now <;> simp [seen?, there, Slot.expired, late]

end Calls

/-- The first slots lack no other than have expired by all the readings to come. -/
def Trails (later : List Instant) (s kept : Slots) : Prop :=
  ∀ name : String, s[name]? = kept[name]? ∨
    s[name]? = none ∧
      ∃ held : Slot, kept[name]? = some held ∧ ∀ now ∈ later, held.expiry ≤ now

namespace Trails

theorem refl (s : Slots) : Trails later s s := fun _ => .inl rfl

theorem tail (h : Trails (now :: later) s kept) : Trails later s kept := fun name =>
  (h name).imp_right fun ⟨gone, held, there, late⟩ =>
    ⟨gone, held, there, fun t ht => late t (.tail _ ht)⟩

theorem alike {s' kept' : Slots} (h : Trails later s kept) (name : String)
    (same : s'[name]? = kept'[name]?)
    (stay : ∀ other, other ≠ name → s'[other]? = s[other]? ∧ kept'[other]? = kept[other]?) :
    Trails later s' kept' := by
  intro other
  by_cases here : other = name
  · exact .inl (here ▸ same)
  · rw [(stay other here).1, (stay other here).2]
    exact h other

theorem insert (h : Trails later s kept) (held : Slot) :
    Trails later (s.insert name held) (kept.insert name held) := by
  refine h.alike name (by simp) fun other ne => ?_
  simp [Std.ExtTreeMap.getElem?_insert, Ne.symm ne]

theorem erase (h : Trails later s kept) : Trails later (s.erase name) (kept.erase name) := by
  refine h.alike name (by simp) fun other ne => ?_
  simp [Std.ExtTreeMap.getElem?_erase, Ne.symm ne]

theorem expire (h : Trails later s kept) {held : Slot} (there : kept[name]? = some held)
    (late : ∀ now ∈ later, held.expiry ≤ now) : Trails later (s.erase name) kept := by
  intro other
  by_cases here : other = name
  · subst here
    exact .inr ⟨by simp, held, there, late⟩
  · rw [Std.ExtTreeMap.getElem?_erase, if_neg (by simpa using Ne.symm here)]
    exact h other

theorem seen? (h : Trails (now :: later) s kept) : s.seen? name now = kept.seen? name now := by
  unfold Slots.seen?
  obtain same | ⟨gone, held, there, late⟩ := h name
  · rw [same]
  · rw [gone, there, Option.bind_some, if_pos (late now (.head _))]
    rfl

theorem live (h : Trails (now :: later) s kept) :
    s.live now = (kept.keys.filter fun name => (kept.seen? name now).isSome).length := by
  rw [live_eq]
  refine List.Perm.length_eq ((List.perm_ext_iff_of_nodup ?_ ?_).2 fun name => ?_)
  · exact Std.ExtTreeMap.nodup_keys.filter _
  · exact Std.ExtTreeMap.nodup_keys.filter _
  · have mem_keys {t : Slots} (seen : (t.seen? name now).isSome = true) : name ∈ t := by
      by_contra absent
      rw [Slots.seen?, Std.ExtTreeMap.getElem?_eq_none absent] at seen
      cases seen
    simp only [List.mem_filter, Std.ExtTreeMap.mem_keys, h.seen?]
    exact ⟨fun ⟨_, seen⟩ => ⟨mem_keys seen, seen⟩,
      fun ⟨_, seen⟩ => ⟨mem_keys (h.seen? ▸ seen), seen⟩⟩

theorem get (h : Trails (now :: later) s kept) (onward : ∀ t ∈ later, now ≤ t) :
    Trails later (s.get name now).2 kept := by
  obtain same | ⟨gone, -⟩ := h name
  swap
  · rw [get_none gone]
    exact h.tail
  cases there : s[name]? with
  | none =>
    rw [get_none there]
    exact h.tail
  | some held =>
    cases late : held.expired now with
    | false =>
      rw [get_live there late]
      exact h.tail
    | true =>
      rw [get_expired there late]
      exact h.tail.expire (same ▸ there) fun t ht =>
        Binary64.le_trans (of_decide_eq_true late) (onward t ht)

theorem ask (h : Trails (request.reading?.toList ++ later) s kept)
    (onward : ∀ now ∈ request.reading?, ∀ t ∈ later, now ≤ t) :
    (s.ask request).1 = (kept.askKept request).1 ∧
      Trails later (s.ask request).2 (kept.askKept request).2 := by
  cases request with
  | set name entry ttl now => exact ⟨rfl, h.tail.insert _⟩
  | get name now =>
    exact ⟨congrArg Answer.found (get_fst.trans h.seen?), h.get (onward now rfl)⟩
  | delete name => exact ⟨rfl, h.erase⟩
  | deleteIf name stamp now =>
    have seen : s.seen? name now = kept.seen? name now := h.seen?
    simp only [Slots.ask, askKept, deleteIf_fst, deleteIf_snd, seen]
    split
    · exact ⟨by simp [*], h.tail.erase⟩
    · exact ⟨by simp [*], h.tail⟩
  | live now => exact ⟨congrArg Answer.count h.live, h.tail⟩

theorem answers (requests : List Request) (h : Trails (readings requests) s kept)
    (onward : (readings requests).Pairwise (· ≤ ·)) :
    Slots.answers Slots.ask s requests = Slots.answers askKept kept requests := by
  induction requests generalizing s kept with
  | nil => rfl
  | cons request requests ih =>
    have first : readings (request :: requests) =
        request.reading?.toList ++ readings requests := by
      unfold readings
      cases read : request.reading? <;> simp [read]
    rw [first] at h onward
    obtain ⟨-, rest, before⟩ := List.pairwise_append.1 onward
    obtain ⟨alike, trails⟩ := h.ask fun now read t ht => before now (by simpa using read) t ht
    rw [Slots.answers, Slots.answers, alike, ih trails rest]

end Trails

/-- That expired slots are removed on the way does not show.  Whatever is asked of whichever slots,
under a clock that never goes back, each answer is the one of slots that are never removed for
their age and passed over exactly while their expiry is at or before the reading.  So the slots
that count are those for which a read finds an entry, and a conditional removal hits exactly if a
read finds an entry with that stamp. -/
theorem lazy_expiry_unobservable :
    (∀ (s : Slots) (requests : List Request), (readings requests).IsChain (· ≤ ·) →
      answers ask s requests = answers askKept s requests) ∧
    (∀ (s : Slots) (now : Instant), s.live now =
      (s.keys.filter fun name => (s.get name now).1.isSome).length) ∧
    ∀ (s : Slots) (name : String) (stamp now : Instant), (s.deleteIf name stamp now).1 = true ↔
      ∃ entry, (s.get name now).1 = some entry ∧ entry.stamp.equals stamp = true := by
  refine ⟨fun s requests onward => ?_, fun s now => ?_, fun s name stamp now => ?_⟩
  · have : Trans (· ≤ · : Instant → Instant → Prop) (· ≤ ·) (· ≤ ·) :=
      ⟨Binary64.le_trans⟩
    exact (Trails.refl s).answers requests (List.isChain_iff_pairwise.1 onward)
  · simp only [get_fst]
    exact live_eq
  · rw [deleteIf_fst, get_fst, Option.any_eq_true]

def lapse : List Request :=
  let entry : Entry := ⟨.zero, ∅⟩
  [.set "a" entry (.ofSeconds 10) .zero, .set "b" entry (.ofSeconds 60) .zero,
    .get "a" (.ofNat 10), .live (.ofNat 10), .deleteIf "a" .zero (.ofNat 10),
    .set "a" entry (.ofSeconds 10) (.ofNat 10), .live (.ofNat 19), .delete "c",
    .deleteIf "a" .zero (.ofNat 19), .get "b" (.ofNat 59), .deleteIf "b" .zero (.ofNat 60),
    .live (.ofNat 60)]

theorem lazy_expiry_unobservable_lapse :
    (readings lapse).IsChain (· ≤ ·) ∧ answers ask ∅ lapse = answers askKept ∅ lapse ∧
      (answers ask ∅ lapse matches [.done, .done, .found none, .count 1, .removed false, .done,
        .count 2, .done, .removed true, .found (some _), .removed false, .count 0]) = true := by
  have onward : (readings lapse).IsChain (· ≤ ·) := by decide +kernel
  exact ⟨onward, lazy_expiry_unobservable.1 ∅ lapse onward, by decide +kernel⟩

end ClaimIndex.Overlay.Slots
