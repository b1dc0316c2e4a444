import ClaimIndex.Proofs.Retention

namespace ClaimIndex

open Proc (ask)

namespace Overlay

variable {σ : Type} {h : Handler σ} {g : Group} {raws : List String} {x : σ}

def addAt (g : Group) (raws : List String) (now : Instant) : Proc (Except Fault Unit) := do
  let merging : Attempt Unit := do
    let entry ← ExceptT.mk (ask .readOverlay)
    let added := normalized g.id g.space raws
    ExceptT.mk (ask (.writeOverlay (entry.elim ⟨now, added⟩ (·.merge added now))))
  let r ← merging.run
  if let .ok () := r then ask (.record .merged)
  return r

theorem add_eq (g : Group) (raws : List String) : add g raws = ask .now >>= addAt g raws := rfl

def Stamping (now : Instant) (e : Effect) : Prop :=
  ∀ entry, e = .writeOverlay entry → entry.stamp = now

theorem stamping_addAt (now : Instant) : (addAt g raws now).Within (Stamping now) := by
  refine .bind (Proc.within_bindAttempt (.ask (E := Stamping now) (by rintro _ ⟨⟩)) fun entry => ?_)
    fun r => ?_
  · refine .ask ?_
    rintro _ ⟨⟩
    cases entry with
    | none => rfl
    | some entry => rfl
  · cases r with
    | error fault => exact .pure
    | ok _ => exact .bind (.ask (by rintro _ ⟨⟩)) fun _ => .pure

end Overlay

namespace Operation

open World (handle play)

variable {n : Nat} {op : Operation} {v u : World} {entry : Overlay.Entry}

theorem calls_merge (hc : (.writeOverlay entry, u) ∈ op.calls n v) :
    ∃ front g raws x, op.calls n v = front ++ (Overlay.add g raws).calls (handle (play n)) x ∧
      ∀ c ∈ front, c.1 = .groups := by
  have merges : op.IsMerge := by
    cases purpose_of_mem hc with
    | lookup sought asked => exact ((Lookup.within_ofKey _).calls asked).elim
    | rebuild rebuilds asked =>
      have other := (Rebuild.requests_start _ _).calls asked
      simp [Rebuild.Requests, Rebuild.Aside, Rebuild.Guarding, Rebuild.Drafting] at other
    | merge merges asked => exact merges
    | reads reads => exact reads.elim
  cases op with
  | store group raws =>
    refine ⟨[], group.resolve v.registry, raws, v, ?_, fun c hc => (List.not_mem_nil hc).elim⟩
    rw [calls_body rfl, Proc.calls_map, List.nil_append]
  | storeFor id raws =>
    have listed : (ask .groups).Yields (handle (play n)) v v.registry v := rfl
    have asked := listed.calls_bind (f := fun groups => addTo id raws (groups.find? (·.id = id)))
    rw [calls_body rfl, asked] at hc ⊢
    unfold addTo at hc ⊢
    cases found : v.registry.find? (·.id = id) with
    | none =>
      rw [found] at hc
      cases List.mem_singleton.1 hc
    | some g =>
      refine ⟨[(.groups, v)], g, raws, v, ?_, fun c hc => by rw [List.mem_singleton.1 hc]⟩
      dsimp only
      rw [Proc.calls_map]
      rfl
  | _ => exact merges.elim

theorem stamped_of_calls {prior later : List (Effect × World)}
    (calls : op.calls n v = prior ++ (.writeOverlay entry, u) :: later) :
    ∃ x, (.now, x) ∈ prior ∧ x.clock = entry.stamp := by
  have written : (.writeOverlay entry, u) ∈ op.calls n v := by
    rw [calls]
    exact List.mem_append_right _ (.head _)
  obtain ⟨front, g, raws, x, whole, listing⟩ := calls_merge written
  have read : (ask .now).Yields (handle (play n)) x x.clock x := rfl
  have reading : (ask .now).calls (handle (play n)) x = [(.now, x)] := rfl
  rw [calls, Overlay.add_eq, read.calls_bind, reading, List.singleton_append] at whole
  have inside :
      (.writeOverlay entry, u) ∈ (Overlay.addAt g raws x.clock).calls (handle (play n)) x ∧
        ∃ rest, prior = front ++ (.now, x) :: rest := by
    obtain ⟨mid, rfl, split⟩ | ⟨mid, rfl, split⟩ := List.append_eq_append_iff.1 whole
    · obtain ⟨rfl, same⟩ | ⟨rest, rfl, tail⟩ := List.cons_eq_append_iff.1 split
      · cases same
      · have bad := listing (.writeOverlay entry, u) (by simp)
        cases bad
    · obtain ⟨rfl, same⟩ | ⟨rest, rfl, tail⟩ := List.cons_eq_append_iff.1 split
      · cases same
      · exact ⟨by rw [tail]; simp, rest, rfl⟩
  obtain ⟨written, rest, rfl⟩ := inside
  exact ⟨x, by simp, ((Overlay.stamping_addAt x.clock).calls written entry rfl).symm⟩

end Operation

def Mark.merged? : Mark → Option Overlay.Entry
  | .asks (.writeOverlay entry) _ => some entry
  | _ => none

theorem not_mem_of_unmerged {marks : List Mark}
    (unmerged : (marks.filterMap Mark.merged?).isEmpty = true) (entry : Overlay.Entry) (u : World) :
    .asks (.writeOverlay entry) u ∉ marks := by
  intro there
  have found : entry ∈ marks.filterMap Mark.merged? := List.mem_filterMap.2 ⟨_, there, rfl⟩
  rw [List.isEmpty_iff.1 unmerged] at found
  exact List.not_mem_nil found

def Mark.reading? : Mark → Option Instant
  | .asks .now w | .asks .readOverlay w | .asks (.writeOverlay _) w | .asks (.dropOverlay _) w =>
    some w.clock
  | _ => none

def Forward (marks : List Mark) : Prop := (marks.filterMap Mark.reading?).Pairwise (· ≤ ·)

namespace Forward

variable {marks front back : List Mark} {m m' : Mark} {s t : Instant}

theorem sublist (h : Forward marks) (sub : front.Sublist marks) : Forward front :=
  List.Pairwise.sublist (sub.filterMap _) h

theorem before (h : Forward (front ++ back)) (hm : m ∈ front) (hm' : m' ∈ back)
    (first : m.reading? = some s) (second : m'.reading? = some t) : s ≤ t := by
  rw [Forward, List.filterMap_append] at h
  exact (List.pairwise_append.1 h).2.2 s (List.mem_filterMap.2 ⟨m, hm, first⟩) t
    (List.mem_filterMap.2 ⟨m', hm', second⟩)

end Forward

namespace World

open Overlay (slot)

variable {n : Nat} {op : Operation} {w v u : World} {marks front : List Mark} {held : Overlay.Slot}
  {e : Effect} {t : Task}

theorem stamped_of_owned {entry : Overlay.Entry} (h : Owned front (.writeOverlay entry) u) :
    ∃ x, .asks .now x ∈ front ∧ x.clock = entry.stamp := by
  obtain ⟨place, calls, -, -⟩ := h
  obtain ⟨x, there, stamp⟩ := Operation.stamped_of_calls calls
  refine ⟨x, ?_, stamp⟩
  rw [place]
  refine List.mem_append_right _ (.tail _ (List.mem_append_left _ ?_))
  exact List.mem_flatMap.2 ⟨_, there, .head _⟩

theorem origin_of_held (h : Narrates w marks v) (there : v.slots[slot]? = some held) :
    w.slots[slot]? = some held ∨
      ∃ entry u, .asks (.writeOverlay entry) u ∈ marks ∧ held.entry = entry := by
  refine h.keeps (I := fun u => ∀ held, u.slots[slot]? = some held → w.slots[slot]? = some held ∨
    ∃ entry u, .asks (.writeOverlay entry) u ∈ marks ∧ held.entry = entry)
    (fun m u direct hu held there => ?_) (fun e u asked hu held there => ?_) (fun _ => .inl)
    held there
  · rw [slots_direct direct] at there
    exact hu held there
  · by_cases written : ∃ entry, e = .writeOverlay entry
    · obtain ⟨entry, rfl⟩ := written
      have set : (u.slots.set slot entry u.settings.ttl u.clock)[slot]? = some held := there
      rw [Overlay.Slots.set, Std.ExtTreeMap.getElem?_insert_self] at set
      cases set
      exact .inr ⟨entry, u, asked, rfl⟩
    · obtain same | ⟨gone, -⟩ := slot_reply (w := u) fun entry same => written ⟨entry, same⟩
      · rw [same] at there
        exact hu held there
      · rw [gone] at there
        cases there

theorem held_of_unwritten (h : Narrates w marks v)
    (unwritten : ∀ entry u, .asks (.writeOverlay entry) u ∉ marks)
    (there : v.slots[slot]? = some held) : w.slots[slot]? = some held := by
  obtain same | ⟨entry, u, asked, -⟩ := origin_of_held h there
  · exact same
  · exact absurd asked (unwritten entry u)

theorem task_direct {m : Motion} (hm : m.Direct) (there : t ∈ (m.apply w).queue.tasks) :
    t ∈ w.queue.tasks := by
  cases m with
  | reply e =>
    obtain rfl | rfl := hm
    · exact there
    · exact there
  | drain => exact (List.not_mem_nil there).elim
  | _ => exact there

theorem task_reply (there : t ∈ ((reply idle e).run w).2.queue.tasks) :
    t ∈ w.queue.tasks ∨ e = .enqueue t := by
  cases e with
  | enqueue task =>
    rw [reply_enqueue] at there
    unfold TaskQueue.enqueue at there
    by_cases closed : w.queue.closed = true
    · rw [if_pos closed] at there
      exact .inl there
    · rw [if_neg closed] at there
      obtain there | there := List.mem_append.1 there
      · exact .inl there
      · exact .inr (by rw [List.mem_singleton.1 there])
  | _ => exact .inl there

theorem origin_of_task (h : Narrates w marks v) (there : t ∈ v.queue.tasks) :
    t ∈ w.queue.tasks ∨ ∃ u, .asks (.enqueue t) u ∈ marks := by
  refine h.keeps (I := fun u => t ∈ u.queue.tasks → t ∈ w.queue.tasks ∨
    ∃ x, Mark.asks (.enqueue t) x ∈ marks)
    (fun m u direct hu there => hu (task_direct direct there))
    (fun e u asked hu there => ?_) .inl there
  obtain still | rfl := task_reply there
  · exact hu still
  · exact .inr ⟨u, asked⟩

end World

end ClaimIndex
