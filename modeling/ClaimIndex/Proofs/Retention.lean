import ClaimIndex.Proofs.Nested
import ClaimIndex.Proofs.Serving

namespace ClaimIndex

theorem exists_last {α : Type} {P : α → Prop} {l : List α} (h : ∃ a ∈ l, P a) :
    ∃ older a newer, l = older ++ a :: newer ∧ P a ∧ ∀ b ∈ newer, ¬ P b := by
  induction l with
  | nil => simp at h
  | cons a l ih =>
    by_cases later : ∃ b ∈ l, P b
    · obtain ⟨older, b, newer, rfl, hb, none⟩ := ih later
      exact ⟨a :: older, b, newer, rfl, hb, none⟩
    · obtain ⟨b, hb, there⟩ := h
      obtain rfl | hb := List.mem_cons.1 hb
      · exact ⟨[], b, l, rfl, there, fun c hc hP => later ⟨c, hc, hP⟩⟩
      · exact absurd ⟨b, hb, there⟩ later

namespace World

open Overlay (slot)

variable {n : Nat} {op : Operation} {w v u : World} {e : Effect} {m : Motion} {marks : List Mark}
  {held : Overlay.Slot}

inductive Loses (e : Effect) (held : Overlay.Slot) (w : World) : Prop
  | expired (reads : e = .readOverlay) (late : held.expired w.clock = true)
  | dropped {stamp : Instant} (drops : e = .dropOverlay stamp)
    (same : held.entry.stamp.equals stamp = true)

theorem slot_reply (unwritten : ∀ entry, e ≠ .writeOverlay entry) :
    ((reply idle e).run w).2.slots[slot]? = w.slots[slot]? ∨
      ((reply idle e).run w).2.slots[slot]? = none ∧
        ∃ held, w.slots[slot]? = some held ∧ Loses e held w := by
  cases e with
  | writeOverlay entry => exact absurd rfl (unwritten entry)
  | enqueue task =>
    obtain ⟨tasks, same⟩ := exists_tasks idle task w
    rw [same]
    exact .inl rfl
  | readOverlay =>
    change (w.slots.get slot w.clock).2[slot]? = _ ∨ (w.slots.get slot w.clock).2[slot]? = _ ∧ _
    cases there : w.slots[slot]? with
    | none => exact .inl (by rw [Overlay.Slots.get_none there, there])
    | some held =>
      cases late : held.expired w.clock with
      | false => exact .inl (by rw [Overlay.Slots.get_live there late, there])
      | true =>
        rw [Overlay.Slots.get_expired there late]
        exact .inr ⟨Std.ExtTreeMap.getElem?_erase_self, held, rfl, .expired rfl late⟩
  | dropOverlay stamp =>
    change (w.slots.deleteIf slot stamp w.clock).2[slot]? = _ ∨
      (w.slots.deleteIf slot stamp w.clock).2[slot]? = _ ∧ _
    unfold Overlay.Slots.deleteIf
    cases there : w.slots[slot]? with
    | none => exact .inl there
    | some held =>
      dsimp only
      split
      · rename_i drops
        rw [Bool.and_eq_true] at drops
        exact .inr ⟨Std.ExtTreeMap.getElem?_erase_self, held, rfl, .dropped rfl drops.2⟩
      · exact .inl there
  | _ => exact .inl rfl

theorem slots_direct (hm : m.Direct) (w : World) : (m.apply w).slots = w.slots := by
  cases m with
  | reply e =>
    obtain rfl | rfl := hm
    · rfl
    · rfl
  | _ => rfl

theorem exists_holding (h : Narrates w marks v) (holds : w.slots[slot]? ≠ none)
    (gone : v.slots[slot]? = none) : ∃ m ∈ marks, m.world.slots[slot]? ≠ none := by
  induction h with
  | done => exact absurd gone holds
  | moves direct _ ih => exact ih (by rwa [slots_direct direct]) gone
  | begins _ _ => exact ⟨_, .head _, holds⟩
  | asks _ _ => exact ⟨_, .head _, holds⟩

theorem exists_loss (h : Narrates w marks v) (holds : w.slots[slot]? ≠ none)
    (gone : v.slots[slot]? = none) :
    ∃ older e u newer held, marks = older ++ .asks e u :: newer ∧ u.slots[slot]? = some held ∧
      (∀ m ∈ newer, m.world.slots[slot]? = none) ∧ Loses e held u := by
  obtain ⟨older, m, newer, rfl, there, none⟩ := exists_last (exists_holding h holds gone)
  have rest := h.split.2
  have bare : m.next.slots[slot]? = .none := by
    by_contra still
    obtain ⟨m', hm', there'⟩ := exists_holding rest still gone
    exact none m' hm' there'
  cases m with
  | begins n op u => exact absurd bare there
  | asks e u =>
    have written (entry : Overlay.Entry) : e ≠ .writeOverlay entry := by
      rintro rfl
      have set : ((reply idle (.writeOverlay entry)).run u).2.slots[slot]? ≠ .none := by
        change (u.slots.set slot entry u.settings.ttl u.clock)[slot]? ≠ .none
        rw [Overlay.Slots.set, Std.ExtTreeMap.getElem?_insert_self]
        simp
      exact set bare
    obtain same | ⟨-, held, found, loses⟩ := slot_reply (w := u) written
    · exact absurd (same.symm.trans bare) there
    · exact ⟨older, e, u, newer, held, rfl, found, fun m hm => not_not.1 (none m hm), loses⟩

theorem commits_of_owned {front : List Mark} {stamp : Instant}
    (h : Owned front (.dropOverlay stamp) u) : ∃ n op v bound, .begins n op v ∈ front ∧
      op.Commits n v bound ∧ stamp ≤ bound := by
  obtain ⟨place, calls, -, -⟩ := h
  rename_i older n op v w prior later
  have asked : (.dropOverlay stamp, w) ∈ op.calls n v := by
    rw [calls]
    exact List.mem_append_right _ (.head _)
  obtain ⟨bound, commits, early⟩ := Operation.commits_of_drop asked
  exact ⟨n, op, v, bound, by rw [place]; simp, commits, early⟩

def Spared (w v : World) (marks : List Mark) : Prop :=
  v.slots[slot]? = w.slots[slot]? ∨ v.slots[slot]? = none ∧ ∃ held u,
    w.slots[slot]? = some held ∧ .asks .readOverlay u ∈ marks ∧ held.expiry ≤ u.clock

theorem spared_of_narrates (h : Narrates w marks v) (ordered : Ordered [] marks)
    (unmerged : ∀ entry u, .asks (.writeOverlay entry) u ∉ marks)
    (uncommitted : ∀ n op u bound, .begins n op u ∈ marks → ¬ op.Commits n u bound) :
    Spared w v marks := by
  refine h.keeps (I := fun u => Spared w u marks) (fun m u direct hu => ?_)
    (fun e u there hu => ?_) (.inl rfl)
  · rwa [Spared, slots_direct direct]
  · have written (entry : Overlay.Entry) : e ≠ .writeOverlay entry := by
      rintro rfl
      exact unmerged entry u there
    obtain same | ⟨gone, held, found, loses⟩ := slot_reply (w := u) written
    · rwa [Spared, same]
    · refine .inr ⟨gone, held, u, ?_, ?_⟩
      · obtain still | ⟨absent, -⟩ := hu
        · exact still.symm.trans found
        · rw [absent] at found
          cases found
      · cases loses with
        | expired reads late => exact ⟨reads ▸ there, of_decide_eq_true late⟩
        | dropped drops same =>
          rename_i stamp
          subst drops
          obtain ⟨older, newer, whole⟩ := List.append_of_mem there
          obtain ⟨n, op, x, bound, began, commits, -⟩ :=
            commits_of_owned (ordered.asks older _ u newer whole)
          refine absurd commits (uncommitted n op x bound ?_)
          rw [whole]
          simp at began ⊢
          exact .inl began

theorem Running.not_commits {bound : Instant} (hw : w.Running) : ¬ op.Commits n w bound := by
  rintro ⟨rebuilds, ran, unskipped, -, -⟩
  have skips := (start_running (play n) hw w.settings _).symm.trans ran
  cases (Prod.mk.inj skips).1
  cases unskipped

theorem uncommitted_within {purge : Option Instant} (rebuilds : op.rebuilds? = some purge)
    (stops : ∀ bound, ¬ op.Commits n w bound) {n' : Nat} {op' : Operation} {bound : Instant}
    (there : .begins n' op' u ∈ World.marks n op w) : ¬ op'.Commits n' u bound := by
  intro commits
  obtain ⟨rfl, rfl, rfl⟩ :=
    begins_within rebuilds there fun running => Running.not_commits running commits
  exact stops bound commits

theorem callMarks_unhooked {player : Player} {record : Recorder} (hw : w.hooks = [])
    (performs : ∀ group actions, e ≠ .perform group actions) :
    ∀ m ∈ callMarks player record e w, m = .asks e w := by
  have none (v : World) (hv : v.hooks = []) (moment : Moment) : hookMarks record moment v = [] := by
    unfold hookMarks
    rw [hv]
    rfl
  have met : met player e w = w := by
    unfold met
    split
    · rfl
    · rw [runHook_unhooked _ _ hw]
  have before : beforeMarks record e w = [] := by
    unfold beforeMarks
    split
    · rfl
    · exact none w hw _
  have through : throughMarks player record e w = [] := by
    unfold throughMarks
    split
    · split
      · exact absurd rfl (performs _ _)
      · rfl
    · exact none _ ((reply_frame player performs w).1.trans hw) _
  intro m hm
  unfold callMarks at hm
  rw [met, before] at hm
  dsimp only at hm
  rw [through] at hm
  split at hm
  · exact List.mem_singleton.1 hm
  · cases hm

theorem alone (unhooked : w.hooks = []) (rebuilds : op.rebuilds? = none) (merges : ¬ op.IsMerge) :
    ∀ m ∈ ownMarks n (record n) op w, ∃ e u,
      m = .asks e u ∧ (e.Looking ∨ Operation.Reads e) := by
  have peeks : ∀ c ∈ op.calls n w, c.1.Looking ∨ Operation.Reads c.1 := fun c hc => by
    cases Operation.purpose_of_mem hc with
    | lookup sought asked => exact .inl ((Lookup.within_ofKey _).calls asked)
    | rebuild found asked =>
      rw [rebuilds] at found
      cases found
    | merge found asked => exact absurd found merges
    | reads reads => exact .inr reads
  have performs (e : Effect) (he : e.Looking ∨ Operation.Reads e) (group : GroupId)
      (actions : List Operation) : e ≠ .perform group actions := by
    rintro rfl
    exact he.elim id id
  have waits : ∀ c ∈ op.calls n w, c.2.hooks = [] := by
    have kept : ∀ c ∈ op.calls n w, c.2.hooks = [] →
        ((handle (play n) c.1).run c.2).2.hooks = [] := fun c hc still =>
      keeps_handle (I := fun v => v.hooks = []) (fun _ => id)
        (fun v hv => (reply_frame (play n) (performs _ (peeks c hc)) v).1.trans hv) still
    unfold Operation.calls at kept ⊢
    cases hb : op.body? w with
    | none => exact fun c hc => (List.not_mem_nil hc).elim
    | some p =>
      rw [hb] at kept
      exact Proc.calls_keeps (I := fun v : World => v.hooks = []) kept unhooked
  intro m hm
  obtain ⟨c, hc, hm⟩ := List.mem_flatMap.1 hm
  exact ⟨c.1, c.2, callMarks_unhooked (waits c hc) (performs _ (peeks c hc)) m hm, peeks c hc⟩

theorem spared_alone (unhooked : w.hooks = []) (rebuilds : op.rebuilds? = none)
    (merges : ¬ op.IsMerge) (single : op ≠ .executeAll) :
    Spared w (after n op w) (World.marks n op w) := by
  have alone := alone (n := n) unhooked rebuilds merges
  have whole : World.marks n op w = .begins n op w :: ownMarks n (record n) op w :=
    marks_single single
  refine spared_of_narrates (narrates_marks n op w) (ordered_marks n op w)
    (fun entry u there => ?_) fun n' op' u bound there commits => ?_
  · rw [whole] at there
    obtain there | ⟨_, there⟩ := there
    obtain ⟨e, u', same, peeks⟩ := alone _ there
    cases same
    exact peeks.elim id id
  · rw [whole] at there
    obtain same | there := List.mem_cons.1 there
    · cases same
      obtain ⟨found, -⟩ := commits
      rw [rebuilds] at found
      cases found
    · obtain ⟨e, u', same, -⟩ := alone _ there
      cases same

end World

def Operation.merges? (w : World) : Operation → Option (Group × List String)
  | store g raws => some (g.resolve w.registry, raws)
  | storeFor id raws => (w.registry.find? (·.id = id)).map (·, raws)
  | _ => none

namespace World

open Overlay (slot)

open Proc (Yields yields_bind yields_ask yields_pure)

variable {n : Nat} {op : Operation} {w v : World} {player : Player} {held : Overlay.Slot}
  {g : Group} {raws : List String}

theorem perform_merge (merges : op.merges? w = some (g, raws)) :
    (op.perform (handle player)).run w =
      (.outcome (((Overlay.add g raws).run (handle player)).run w).1,
        (((Overlay.add g raws).run (handle player)).run w).2) := by
  cases op with
  | store group raws =>
    cases merges
    rw [Operation.perform_body rfl, map_eq_pure_bind, Proc.run_bind]
    rfl
  | storeFor id raws =>
    obtain ⟨found, there, same⟩ := Option.map_eq_some_iff.1 merges
    cases same
    have listed : (Proc.ask .groups).Yields (handle player) w w.registry w := rfl
    rw [Operation.perform_body rfl]
    refine yields_bind.2 ⟨_, _, listed, ?_⟩
    rw [there, Operation.addTo]
    exact Proc.yields_map.2 ⟨_, rfl, rfl⟩
  | _ => cases merges

theorem store_live (player : Player) (hw : w.Unvisited [.overlayGet, .overlaySet])
    (there : w.slots[slot]? = some held) (live : held.expired w.clock = false) (id : GroupId)
    (space : Namespace) (raws : List String) :
    ∃ r v, (Overlay.store id space raws).run.Yields (handle player) w r v ∧
      (r = .ok () ∧ v.slots[slot]? = some ⟨w.merged id space raws, w.clock.after w.settings.ttl⟩ ∨
        (∃ fault, r = .error fault) ∧ v.slots = w.slots) := by
  have peeked : w.peeked = w := by
    rw [World.peeked, Overlay.Slots.get_live there live]
  have entry := overlay_of_live there live
  have read := hw.readOverlay player (by simp)
  rw [peeked, entry] at read
  have merged : w.merged id space raws =
      held.entry.merge (Overlay.normalized id space raws) w.clock := by
    rw [World.merged, entry]
  have uninterrupted :
      Uninterrupted player (Proc.ask (.writeOverlay (w.merged id space raws))) w :=
    hw.uninterrupted rfl (by simp)
  have write := handle_uninterrupted rfl uninterrupted
  have begun {r : Except Fault Unit} {v : World}
      (rest : Yields (handle player) (ExceptT.mk (Proc.ask .readOverlay) >>= fun entry =>
        ExceptT.mk (Proc.ask (.writeOverlay (entry.elim ⟨w.clock, Overlay.normalized id space raws⟩
          (·.merge (Overlay.normalized id space raws) w.clock)))) : Attempt Unit).run w r v) :
      (Overlay.store id space raws).run.Yields (handle player) w r v := by
    rw [Overlay.store, ExceptT.run_bind]
    exact yields_bind.2 ⟨.ok w.clock, w, rfl, rest⟩
  by_cases unread : .overlayGet ∈ w.failing
  · rw [if_pos unread] at read
    refine ⟨.error (.storage "interim.get down"), w, begun ?_, .inr ⟨⟨_, rfl⟩, rfl⟩⟩
    rw [ExceptT.run_bind]
    exact yields_bind.2 ⟨_, _, yields_ask.2 read, rfl⟩
  rw [if_neg unread] at read
  by_cases unwritten : .overlaySet ∈ w.failing
  · rw [if_pos unwritten, merged] at write
    refine ⟨.error (.storage "interim.set down"), w, begun ?_, .inr ⟨⟨_, rfl⟩, rfl⟩⟩
    rw [ExceptT.run_bind]
    exact yields_bind.2 ⟨_, _, yields_ask.2 read, yields_ask.2 write⟩
  · rw [if_neg unwritten] at write
    let v := ((reply player (.writeOverlay (w.merged id space raws))).run w).2
    refine ⟨.ok (), v, begun ?_, .inl ⟨rfl, Std.ExtTreeMap.getElem?_insert_self⟩⟩
    rw [ExceptT.run_bind]
    refine yields_bind.2 ⟨_, _, yields_ask.2 read, ?_⟩
    rw [merged] at write
    exact yields_ask.2 (write.trans (by rw [← merged]; rfl))

theorem add_live (player : Player) (hw : w.Unvisited [.overlayGet, .overlaySet])
    (there : w.slots[slot]? = some held) (live : held.expired w.clock = false) (g : Group)
    (raws : List String) :
    let r := ((Overlay.add g raws).run (handle player)).run w
    r.1 = .ok () ∧ r.2.slots[slot]? =
        some ⟨w.merged g.id g.space raws, w.clock.after w.settings.ttl⟩ ∨
      (∃ fault, r.1 = .error fault) ∧ r.2.slots = w.slots := by
  obtain ⟨r, v, store, ⟨rfl, written⟩ | ⟨⟨fault, rfl⟩, same⟩⟩ :=
    store_live player hw there live g.id g.space raws
  · have added : (Overlay.add g raws).Yields (handle player) w (.ok ())
        { v with metrics := v.metrics.record .merged } :=
      yields_bind.2 ⟨_, _, store, yields_bind.2 ⟨(), _, yields_ask.2 rfl, rfl⟩⟩
    exact .inl ⟨congrArg Prod.fst added,
      (congrArg (fun r => r.2.slots[slot]?) added).trans written⟩
  · have added : (Overlay.add g raws).Yields (handle player) w (.error fault) v :=
      yields_bind.2 ⟨_, _, store, rfl⟩
    exact .inr ⟨⟨fault, congrArg Prod.fst added⟩,
      congrArg (fun r => r.2.slots) added |>.trans same⟩

theorem slot_of_merge (merges : op.merges? w = some (g, raws))
    (hw : w.Unvisited [.overlayGet, .overlaySet]) (there : w.slots[slot]? = some held)
    (live : held.expired w.clock = false) :
    let left := after n op w
    left.slots[slot]? = some held ∨ ∃ merged, left.slots[slot]? = some merged ∧
      ∀ k, merged.entry.keys[k]? =
        if ∃ raw ∈ raws, Key.ofRaw g.space raw = k then some g.id else held.entry.keys[k]? := by
  intro left
  have performed : left = (((Overlay.add g raws).run (handle (play n))).run w).2 :=
    congrArg Prod.snd (perform_merge merges)
  rw [performed]
  obtain ⟨-, written⟩ | ⟨-, same⟩ := add_live (play n) hw there live g raws
  · refine .inr ⟨_, written, fun k => ?_⟩
    rw [getElem?_merged, overlay_of_live there live]
    rfl
  · exact .inl (by rw [same, there])

/-- An entry that goes had expired when the overlay was read, or was dropped by a rebuild that
commits with a purge point no earlier than the entry.  Without merges and commits it stays as it is
until it expires, so within rebuilds that fail or are skipped and within lookups and reads; and a
merge into a live entry adds its keys to those that are there. -/
theorem overlay_retention (n : Nat) (op : Operation) (w : World) :
    let during := World.marks n op w
    let left := after n op w
    (w.slots[slot]? ≠ none → left.slots[slot]? = none →
      ∃ older e u newer held, during = older ++ .asks e u :: newer ∧ u.slots[slot]? = some held ∧
        (∀ m ∈ newer, m.world.slots[slot]? = none) ∧
        ((∃ x, .asks .readOverlay x ∈ during ∧ held.expiry ≤ x.clock) ∨
          ∃ n' op' x bound, .begins n' op' x ∈ during ∧ op'.Commits n' x bound ∧
            held.entry.stamp ≤ bound)) ∧
    ((∀ entry u, .asks (.writeOverlay entry) u ∉ during) →
      (∀ n' op' u bound, .begins n' op' u ∈ during → ¬ op'.Commits n' u bound) →
      Spared w left during) ∧
    (op.rebuilds? ≠ none → (∀ bound, ¬ op.Commits n w bound) →
      (∀ entry u, .asks (.writeOverlay entry) u ∉ during) → Spared w left during) ∧
    (w.hooks = [] → op.rebuilds? = none → ¬ op.IsMerge → op ≠ .executeAll →
      Spared w left during) ∧
    (∀ g raws held, op.merges? w = some (g, raws) → w.Unvisited [.overlayGet, .overlaySet] →
      w.slots[slot]? = some held → held.expired w.clock = false →
      left.slots[slot]? = some held ∨ ∃ merged, left.slots[slot]? = some merged ∧
        ∀ k, merged.entry.keys[k]? =
          if ∃ raw ∈ raws, Key.ofRaw g.space raw = k then some g.id else held.entry.keys[k]?) := by
  intro during left
  have run : Narrates w during left := narrates_marks n op w
  have ordered : Ordered [] during := ordered_marks n op w
  have spared := spared_of_narrates run ordered
  refine ⟨fun holds gone => ?_, spared, fun rebuilds stops unmerged => ?_,
    fun unhooked rebuilds merges single => spared_alone unhooked rebuilds merges single,
    fun g raws held merges unvisited there live => slot_of_merge merges unvisited there live⟩
  · obtain ⟨older, e, u, newer, held, whole, found, none, loses⟩ := exists_loss run holds gone
    refine ⟨older, e, u, newer, held, whole, found, none, ?_⟩
    cases loses with
    | expired reads late =>
      subst reads
      exact .inl ⟨u, by rw [whole]; simp, of_decide_eq_true late⟩
    | dropped drops same =>
      subst drops
      obtain ⟨n', op', x, bound, began, commits, early⟩ :=
        commits_of_owned (ordered.asks older _ u newer whole)
      exact .inr ⟨n', op', x, bound, by rw [whole]; simp at began ⊢; exact .inl began, commits,
        Binary64.le_trans (Binary64.equals_iff.1 same).1 early⟩
  · obtain ⟨purge, rebuilds⟩ := Option.ne_none_iff_exists'.1 rebuilds
    exact spared unmerged fun n' op' u bound => uncommitted_within rebuilds stops

theorem overlay_retention_browsed :
    let during := World.marks depth (.rebuild none) browsed
    browsed.slots[slot]? ≠ none ∧ (after depth (.rebuild none) browsed).slots[slot]? = none ∧
      ∃ older e u newer held, during = older ++ .asks e u :: newer ∧ u.slots[slot]? = some held ∧
        (∀ m ∈ newer, m.world.slots[slot]? = none) ∧
        ((∃ x, .asks .readOverlay x ∈ during ∧ held.expiry ≤ x.clock) ∨
          ∃ n' op' x bound, .begins n' op' x ∈ during ∧ op'.Commits n' x bound ∧
            held.entry.stamp ≤ bound) := by
  have holds : browsed.slots[slot]?.isSome = true := by decide +kernel
  have gone : (after depth (.rebuild none) browsed).slots[slot]?.isNone = true := by decide +kernel
  have there : browsed.slots[slot]? ≠ none := Option.isSome_iff_ne_none.1 holds
  have bare := Option.isNone_iff_eq_none.1 gone
  exact ⟨there, bare, (overlay_retention depth (.rebuild none) browsed).1 there bare⟩

end World

end ClaimIndex
