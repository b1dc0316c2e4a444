import ClaimIndex.Proofs.Entries
import ClaimIndex.Proofs.Undisturbed

namespace ClaimIndex

namespace Overlay

theorem getElem?_normalized (id : GroupId) (space : Namespace) (raws : List String) (k : Key) :
    (normalized id space raws)[k]? =
      if ∃ raw ∈ raws, Key.ofRaw space raw = k then some id else none := by
  unfold normalized
  rw [Std.ExtTreeMap.ofList_eq_insertMany_empty, Std.ExtTreeMap.insertMany_list_eq_foldl,
    List.foldl_map]
  have fold (t : Std.ExtTreeMap Key GroupId) :
      (raws.foldl (fun t raw => t.insert (Key.ofRaw space raw) id) t)[k]? =
        if ∃ raw ∈ raws, Key.ofRaw space raw = k then some id else t[k]? := by
    induction raws generalizing t with
    | nil => simp
    | cons raw raws ih =>
      rw [List.foldl_cons, ih, Std.ExtTreeMap.getElem?_insert]
      by_cases later : ∃ raw ∈ raws, Key.ofRaw space raw = k
      · simp [later]
      · by_cases here : Key.ofRaw space raw = k <;> simp [later, here]
  rw [fold]
  simp

theorem Entry.getElem?_merge (e : Entry) (newer : Std.ExtTreeMap Key GroupId) (now : Instant)
    (k : Key) : (e.merge newer now).keys[k]? = newer[k]?.or e.keys[k]? := by
  rw [merge, Std.ExtTreeMap.foldl_eq_foldl_toList, ← Std.ExtTreeMap.insertMany_list_eq_foldl,
    getElem?_insertMany_toList]

theorem Slot.live_of_le {held : Slot} {now later : Instant} (live : held.expired later = false)
    (early : now ≤ later) : held.expired now = false := by
  refine Bool.eq_false_iff.2 fun late => ?_
  have expired : held.expired later = true :=
    decide_eq_true (Binary64.le_trans (of_decide_eq_true late) early)
  rw [live] at expired
  cases expired

namespace Slots

variable {s : Slots} {name : String} {now : Instant} {held : Slot}

theorem get_none (h : s[name]? = none) : s.get name now = (none, s) := by
  simp [get, h]

theorem get_live (h : s[name]? = some held) (live : held.expired now = false) :
    s.get name now = (some held.entry, s) := by
  simp [get, h, live]

theorem get_expired (h : s[name]? = some held) (expired : held.expired now = true) :
    s.get name now = (none, s.erase name) := by
  simp [get, h, expired]

end Slots

end Overlay

namespace World

open Overlay (slot)

variable {w w' : World} {player : Player}

def overlay? (w : World) : Option Overlay.Entry := (w.slots.get slot w.clock).1

def merged (w : World) (id : GroupId) (space : Namespace) (raws : List String) : Overlay.Entry :=
  match w.overlay? with
  | none => ⟨w.clock, Overlay.normalized id space raws⟩
  | some entry => entry.merge (Overlay.normalized id space raws) w.clock

theorem getElem?_merged (id : GroupId) (space : Namespace) (raws : List String) (k : Key) :
    (w.merged id space raws).keys[k]? =
      if ∃ raw ∈ raws, Key.ofRaw space raw = k then some id
      else w.overlay?.bind fun entry => entry.keys[k]? := by
  unfold merged
  cases w.overlay? with
  | none => rw [Overlay.getElem?_normalized]; rfl
  | some entry =>
    rw [Overlay.Entry.getElem?_merge, Overlay.getElem?_normalized]
    split <;> rfl

theorem stamp_merged (id : GroupId) (space : Namespace) (raws : List String) :
    (w.merged id space raws).stamp = w.clock := by
  unfold merged
  cases w.overlay? <;> rfl

def written (w : World) (entry : Overlay.Entry) : World :=
  { w with slots := (w.slots.get slot w.clock).2.set slot entry w.settings.ttl w.clock }

theorem store_run (id : GroupId) (space : Namespace) (raws : List String) :
    ((Overlay.store id space raws).run.run (reply idle)).run w =
      (.ok (), w.written (w.merged id space raws)) := by
  have entry : w.merged id space raws = w.overlay?.elim
      ⟨w.clock, Overlay.normalized id space raws⟩
      (·.merge (Overlay.normalized id space raws) w.clock) := by
    unfold merged
    cases w.overlay? <;> rfl
  rw [entry]
  rfl

@[simp] theorem slot_written (entry : Overlay.Entry) :
    (w.written entry).slots[slot]? = some ⟨entry, w.clock.after w.settings.ttl⟩ :=
  Std.ExtTreeMap.getElem?_insert_self

theorem overlay_of_live {held : Overlay.Slot} (h : w.slots[slot]? = some held)
    (live : held.expired w.clock = false) : w.overlay? = some held.entry := by
  rw [overlay?, Overlay.Slots.get_live h live]

theorem storeKeys_run (player : Player) (hw : w.Quiet) (g : Group) (raws : List String) :
    (Operation.storeKeys (handle player) g raws).run w = (.ok (),
      { w.written (w.merged g.id g.space raws) with metrics := w.metrics.record .merged }) := by
  have stored : ((Overlay.store g.id g.space raws).run.run (handle player)).run w =
      (.ok (), w.written (w.merged g.id g.space raws)) := by
    rw [hw.run (Overlay.within_store _ _ _) fun _ he => not_perform_of_merging he.merging,
      store_run]
  have still : (w.written (w.merged g.id g.space raws)).Quiet := ⟨hw.hooks, hw.failing⟩
  have counted : (handle player (.record .merged)).run (w.written (w.merged g.id g.space raws)) =
      ((), { w.written (w.merged g.id g.space raws) with metrics := w.metrics.record .merged }) :=
    still.handle (by rintro _ _ ⟨⟩)
  have adding : (Overlay.add g raws).Yields (handle player) w (.ok ())
      { w.written (w.merged g.id g.space raws) with metrics := w.metrics.record .merged } :=
    Proc.yields_bind.2 ⟨_, _, stored,
      Proc.yields_bind.2 ⟨(), _, Proc.yields_ask.2 counted, Proc.yields_pure.2 ⟨rfl, rfl⟩⟩⟩
  rw [Operation.storeKeys_eq]
  exact adding

end World
end ClaimIndex
