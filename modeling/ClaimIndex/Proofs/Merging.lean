import ClaimIndex.Proofs.Steady

namespace ClaimIndex

def Operation.merge? (registry : List Group) : Operation → Option (Group × List String)
  | store group raws => some (group.resolve registry, raws)
  | storeFor id raws => (registry.find? (·.id = id)).map (·, raws)
  | _ => none

namespace World

open Overlay (slot)

variable {w u : World} {player : Player} {op : Operation} {k : Key} {start : Instant}

theorem perform_storeFor (player : Player) (id : GroupId) (raws : List String) (w : World) :
    ((Operation.storeFor id raws).perform (handle player)).run w =
      (match w.registry.find? (·.id = id) with
      | none => return .outcome (.error (.unknownGroup id))
      | some group => return .outcome (← Operation.storeKeys (handle player) group raws) :
        StateM World Answer).run w := rfl

def Lapsed (w : World) : Prop := ∃ held, w.slots[slot]? = some held ∧ held.expired w.clock = true

def Drops (w v : World) : Prop :=
  v.slots[slot]? = w.slots[slot]? ∨ v.slots[slot]? = none ∧ w.Lapsed

def Motion.Still : Motion → Prop
  | reply e => e.Calm
  | registry groups => ∀ g ∈ groups, g.plain = true
  | clock _ | hooks _ | failing _ => False
  | _ => True

instance : Decidable w.Lapsed :=
  inferInstanceAs (Decidable (∃ held ∈ w.slots[slot]?, held.expired w.clock = true))

theorem Motion.Still.plain {m : Motion} (hm : m.Still) : m.Plain ∧ m.Tame := by
  cases m with
  | reply e => exact ⟨.inl hm, Effect.Calm.tame hm⟩
  | registry groups => exact ⟨hm, trivial⟩
  | clock | hooks | failing => exact hm.elim
  | _ => exact ⟨trivial, trivial⟩

theorem Drops.read (h : Drops w u) (clock : u.clock = w.clock) :
    Drops w { u with slots := (u.slots.get slot u.clock).2 } := by
  obtain h | ⟨none, lapsed⟩ := h
  · cases hs : u.slots[slot]? with
    | none =>
      refine .inl ?_
      rw [Overlay.Slots.get_none hs]
      exact h
    | some held =>
      cases he : held.expired u.clock with
      | false =>
        refine .inl ?_
        rw [Overlay.Slots.get_live hs he]
        exact h
      | true =>
        refine .inr ⟨?_, held, h.symm.trans hs, clock ▸ he⟩
        rw [Overlay.Slots.get_expired hs he]
        exact Std.ExtTreeMap.getElem?_erase_self
  · refine .inr ⟨?_, lapsed⟩
    rw [Overlay.Slots.get_none none]
    exact none

theorem inert_still (w : World) (player : Player) :
    Inert (fun u => u.Steady ∧ u.clock = w.clock ∧ Drops w u) Motion.Still (handle player)
      Effect.Calm where
  keeps m u hm := by
    rintro ⟨steady, clock, drops⟩
    have kept : (m.apply u).Steady :=
      ⟨Running.apply hm.plain.2 steady.1, steady.2.apply hm.plain.1⟩
    cases m with
    | reply e =>
      obtain ⟨-, -, -, -, same, -⟩ := reply_frame idle (not_perform_of_calm hm) u
      refine ⟨kept, same.trans clock, ?_⟩
      cases e with
      | readOverlay => exact drops.read clock
      | leave | writeStore | writeOverlay | dropOverlay | touch | enqueue | notify | perform =>
        exact hm.elim
      | _ => exact drops
    | clock | hooks | failing => exact hm.elim
    | _ => exact ⟨kept, clock, drops⟩
  asks e he u h := by
    rw [h.1.2.handle (not_perform_of_calm he)]
    exact .one (m := .reply e) he

theorem Undisturbed.still (hw : w.Undisturbed) (hop : op.plain = true) {m : Motion}
    (timeless : ∀ now, op.motion? w ≠ some (.clock now)) (hm : op.motion? w = some m) :
    m.Still := by
  have plain := hw.motion hop hm
  cases m with
  | clock now => exact absurd hm (timeless now)
  | registry groups => exact plain
  | hooks | failing => exact plain.elim
  | reply e =>
    cases op with
    | acquire | release =>
      cases hm
      trivial
    | _ => cases hm
  | _ => trivial

theorem Steady.drops (player : Player) (hw : w.Steady) (hop : op.plain = true)
    (idle : op.merge? w.registry = none) :
    Drops w ((op.perform (handle player)).run w).2 := by
  by_cases clocked : ∃ now, op.motion? w = some (.clock now)
  · obtain ⟨now, hm⟩ := clocked
    cases op with
    | advance | setClock => exact .inl rfl
    | _ => cases hm
  · by_cases merging : op.IsMerge
    · -- a merge for a group that nobody registered writes nothing
      cases op with
      | store => cases idle
      | storeFor id raws =>
        have unknown : w.registry.find? (·.id = id) = none := Option.map_eq_none_iff.1 idle
        rw [perform_storeFor, unknown]
        exact .inl rfl
      | _ => exact merging.elim
    · have H := (inert_still w player).mono (F := op.Asks) fun e he =>
        he.elim id fun h => absurd h.1 merging
      have quiet : w.Steady ∧ w.clock = w.clock ∧ Drops w w := ⟨hw, rfl, .inl rfl⟩
      have moved := Operation.moves_perform H (fun _ _ h => reply_enter player h.1.1)
        (fun m hm => hw.2.still hop (fun now h => clocked ⟨now, h⟩) hm) quiet
      exact (moved.keeps H.keeps quiet).2.2

theorem Quiet.perform_merge (hw : w.Quiet) {g : Group} {raws : List String}
    (h : op.merge? w.registry = some (g, raws)) :
    (op.perform (World.handle player)).run w = (.outcome (.ok ()),
      { w.written (w.merged g.id g.space raws) with metrics := w.metrics.record .merged }) := by
  have stored := storeKeys_run player hw g raws
  cases op with
  | store group raws =>
    cases h
    exact congrArg (fun r : Except Fault Unit × World => (Answer.outcome r.1, r.2)) stored
  | storeFor id raws =>
    obtain ⟨group, known, same⟩ := Option.map_eq_some_iff.1 h
    cases same
    rw [perform_storeFor, known]
    exact congrArg (fun r : Except Fault Unit × World => (Answer.outcome r.1, r.2)) stored
  | _ => cases h

def Records (w : World) (k : Key) : Prop :=
  ∃ held, w.slots[slot]? = some held ∧ held.expired w.clock = false ∧ k ∈ held.entry.keys

structure Late (start : Instant) (w : World) : Prop where
  clock : ¬ w.clock ≤ start
  stamp : ∀ held, w.slots[slot]? = some held → ¬ held.entry.stamp ≤ start

theorem expired_eq_false {held : Overlay.Slot} (h : ¬ w.Lapsed)
    (hs : w.slots[slot]? = some held) : held.expired w.clock = false := by
  cases he : held.expired w.clock with
  | false => rfl
  | true => exact absurd ⟨held, hs, he⟩ h

theorem next_merge (player : Player) (hw : w.Quiet) {g : Group} {raws : List String}
    (h : op.merge? w.registry = some (g, raws)) (label : String) :
    (next (handle player) label op w).slots[slot]? =
      some ⟨w.merged g.id g.space raws, w.clock.after w.settings.ttl⟩ := by
  have slots : (next (handle player) label op w).slots =
      (w.written (w.merged g.id g.space raws)).slots :=
    congrArg (fun r : Answer × World => r.2.slots) (hw.perform_merge h)
  rw [slots, slot_written]

theorem records_merge (hw : w.Quiet) {g : Group} {raws : List String}
    (h : op.merge? w.registry = some (g, raws)) (label : String)
    (added : ∃ raw ∈ raws, Key.ofRaw g.space raw = k)
    (live : ¬ (next (handle player) label op w).Lapsed) :
    (next (handle player) label op w).Records k := by
  have held := next_merge player hw h label
  refine ⟨_, held, expired_eq_false live held, ?_⟩
  have here := getElem?_merged (w := w) g.id g.space raws k
  rw [if_pos added] at here
  exact Std.ExtTreeMap.mem_iff_isSome_getElem?.2 (by rw [here]; rfl)

theorem Records.next (hw : w.Steady) (hop : op.plain = true) (h : w.Records k) (label : String)
    (live : ¬ (World.next (handle player) label op w).Lapsed) :
    (World.next (handle player) label op w).Records k := by
  obtain ⟨held, hs, current, hk⟩ := h
  cases merges : op.merge? w.registry with
  | some added =>
    obtain ⟨g, raws⟩ := added
    have entry := next_merge player hw.2.toQuiet merges label
    refine ⟨_, entry, expired_eq_false live entry, ?_⟩
    have here := getElem?_merged (w := w) g.id g.space raws k
    rw [overlay_of_live hs current, Option.bind_some] at here
    refine Std.ExtTreeMap.mem_iff_isSome_getElem?.2 ?_
    rw [here]
    split
    · rfl
    · exact Std.ExtTreeMap.mem_iff_isSome_getElem?.1 hk
  | none =>
    have kept : (World.next (handle player) label op w).slots[slot]? = some held := by
      obtain same | ⟨-, other, hs', expired⟩ := hw.drops player hop merges
      · exact same.trans hs
      · obtain rfl := Option.some.inj (hs.symm.trans hs')
        rw [current] at expired
        cases expired
    exact ⟨held, kept, expired_eq_false live kept, hk⟩

theorem late_merge (hw : w.Quiet) {added : Group × List String}
    (h : op.merge? w.registry = some added) (label : String) (late : ¬ w.clock ≤ start)
    (forward : w.clock ≤ (next (handle player) label op w).clock) :
    (next (handle player) label op w).Late start := by
  refine ⟨mt (Binary64.le_trans forward) late, fun held hs => ?_⟩
  obtain rfl := Option.some.inj ((next_merge player hw h label).symm.trans hs)
  rw [stamp_merged]
  exact late

theorem Late.next (hw : w.Steady) (hop : op.plain = true) (h : w.Late start) (label : String)
    (forward : w.clock ≤ (World.next (handle player) label op w).clock) :
    (World.next (handle player) label op w).Late start := by
  cases merges : op.merge? w.registry with
  | some added => exact late_merge hw.2.toQuiet merges label h.clock forward
  | none =>
    refine ⟨mt (Binary64.le_trans forward) h.clock, fun held hs => ?_⟩
    obtain same | ⟨gone, -⟩ := hw.drops player hop merges
    · exact h.stamp held (same.symm.trans hs)
    · cases gone.symm.trans hs

end World

end ClaimIndex
