import ClaimIndex.Proofs.Purging

namespace ClaimIndex

theorem Proc.calls_keeps {α σ : Type} {h : Handler σ} {p : Proc α} {w : σ} {I : σ → Prop}
    (kept : ∀ c ∈ p.calls h w, I c.2 → I ((h c.1).run c.2).2) (hw : I w) :
    ∀ c ∈ p.calls h w, I c.2 := by
  induction p generalizing w with
  | done a => exact fun c hc => (List.not_mem_nil hc).elim
  | call e next ih =>
    intro c hc
    obtain hc | ⟨_, hc⟩ := hc
    · exact hw
    · exact ih _ (fun c hc => kept c (.tail _ hc)) (kept (e, w) (.head _) hw) c hc

namespace World

variable {n : Nat} {op : Operation} {w v : World} {e : Effect} {c : Effect × World} {m : Mark}

theorem Running.calls (hv : v.Running) (hc : c ∈ op.calls n v) :
    c.1 = .enter ∨ c.1.Merging := by
  cases Operation.purpose_of_mem hc with
  | lookup sought asked => exact .inr (.inl ((Lookup.within_ofKey _).calls asked).calm)
  | merge merges asked => exact .inr ((Overlay.within_add _ _).calls asked)
  | reads reads =>
    obtain ⟨e, u⟩ := c
    cases e with
    | readStore | readOverlay | groups | clearCache => exact .inr (.inl trivial)
    | record event =>
      cases event with
      | lookup source => exact .inr (.inl trivial)
      | _ => exact reads.elim
    | _ => exact reads.elim
  | rebuild rebuilds asked =>
    rw [Rebuild.start_eq] at asked
    obtain asked | ⟨began, entered, enter, asked⟩ := Proc.mem_calls_bind.1 asked
    · rw [List.mem_singleton.1 (show c ∈ [((.enter : Effect), v)] from asked)]
      exact .inl rfl
    · obtain rfl : false = began :=
        congrArg Prod.fst ((reply_enter (play n) hv).symm.trans (Proc.yields_ask.1 enter))
      have skipping : (do
          Proc.ask (.report .nestedRebuild)
          Proc.ask (.record .skipped)
          return .ok { skipped := true } : Proc (Except Fault Report)).Within Effect.Merging :=
        .bind (.ask (.inl trivial)) fun _ => .bind (.ask (.inl trivial)) fun _ => .pure
      exact .inr (skipping.calls asked)

theorem Running.stays (hv : v.Running) (hc : c ∈ op.calls n v) : c.1 ≠ .leave := by
  rintro leave
  obtain enter | ⟨calm | ⟨entry, write⟩⟩ := hv.calls hc
  · cases leave.symm.trans enter
  · rw [leave] at calm
    exact calm
  · cases leave.symm.trans write

theorem Running.own (hv : v.Running) : ∀ c ∈ op.calls n v, c.2.Running := by
  have kept : ∀ c ∈ op.calls n v, c.2.Running → ((World.handle (play n) c.1).run c.2).2.Running :=
    fun c hc running => running.handle (hv.stays hc) n
  unfold Operation.calls at kept ⊢
  cases hb : op.body? v with
  | none => exact fun c hc => (List.not_mem_nil hc).elim
  | some p =>
    rw [hb] at kept
    exact Proc.calls_keeps kept hv

theorem staying_play (n : Nat) : (play n).Makes Motion.Staying := fun label operations w hw =>
  (ordinary_play n label operations w hw).mono fun _ hm => hm.tame.staying

def Recorder.Runs (record : Recorder) : Prop :=
  ∀ label ops w, w.Running → ∀ m ∈ record label ops w, m.world.Running

theorem composes_running : Composes fun w marks v =>
    w.Running → v.Running ∧ ∀ m ∈ marks, m.world.Running where
  done _ hw := ⟨hw, fun _ hm => (List.not_mem_nil hm).elim⟩
  append first second hw := by
    obtain ⟨hv, front⟩ := first hw
    obtain ⟨hu, back⟩ := second hv
    exact ⟨hu, List.forall_mem_append.2 ⟨front, back⟩⟩
  direct direct _ hw :=
    ⟨hw.stay direct.ordinary.tame.staying, fun _ hm => (List.not_mem_nil hm).elim⟩

theorem running_asks (stays : e ≠ .leave) (w : World) (hw : w.Running) :
    ((reply idle e).run w).2.Running ∧ ∀ m ∈ [Mark.asks e w], m.world.Running :=
  ⟨hw.stay (m := .reply e) stays, List.forall_mem_singleton.2 hw⟩

section

variable (runs : (record n).Runs)

include runs

theorem running_played (label : String) (ops : List Operation) (w : World) (hw : w.Running) :
    ((play n label ops).run w).2.Running ∧ ∀ m ∈ record n label ops w, m.world.Running :=
  ⟨(ordinary_play n label ops w hw).running Motion.kind_ordinary hw, runs label ops w hw⟩

theorem running_call (hv : v.Running) (stays : e ≠ .leave) :
    ∀ m ∈ callMarks (play n) (record n) e v, m.world.Running :=
  (composes_running.called (running_played runs) (running_asks stays) v hv).2

theorem running_begin (single : op ≠ .executeAll) (hv : v.Running) :
    (after n op v).Running ∧ ∀ m ∈ beginMarks n (record n) op v, m.world.Running := by
  obtain ⟨left, own⟩ := composes_running.owned (running_played runs) single v
    (fun c hc => running_asks (hv.stays hc)) hv
  exact ⟨left, List.forall_mem_cons.2 ⟨hv, own⟩⟩

end

theorem running_record (n : Nat) : (record n).Runs := by
  intro label ops w hw
  refine (composes_running.recorded (fun n told => ?_) n label ops w hw).2
  have runs : (record n).Runs := fun label ops w hw => (told label ops w hw).2
  exact composes_running.performed (fun _ single _ => running_begin runs single)
    (after_executeAll (told_play n)) fun _ hw => ⟨hw, List.forall_mem_singleton.2 hw⟩

theorem single_of_rebuilds {purge : Option Instant} (rebuilds : op.rebuilds? = some purge) :
    op ≠ .executeAll := by
  rintro rfl
  cases rebuilds

theorem running_within {purge : Option Instant} (rebuilds : op.rebuilds? = some purge) :
    ∀ m ∈ ownMarks n (record n) op w, m = .asks .enter w ∨ m.world.Running := by
  intro m hm
  cases idle : w.running with
  | true =>
    have single := single_of_rebuilds rebuilds
    exact .inr ((running_begin (running_record n) single idle).2 m (.tail _ hm))
  | false =>
    have entering :
        (Proc.ask .enter).Yields (handle (play n)) w true { w with running := true } := by
      cases w
      cases idle
      rfl
    obtain ⟨c, hc, hm⟩ := List.mem_flatMap.1 hm
    rw [Operation.calls_rebuild rebuilds, Rebuild.start_eq, entering.calls_bind, if_pos rfl,
      Proc.calls_bind] at hc
    have started : Running { w with running := true } := rfl
    have inner (c : Effect × World) (hc : c ∈ (Rebuild.attempt w.settings purge).calls
        (handle (play n)) { w with running := true }) : c.1 ≠ .leave := fun leave => by
      have inner := (Rebuild.within_attempt _ _).calls hc
      rw [leave] at inner
      exact inner
    have attempted := Proc.calls_keeps (I := Running)
      (fun c hc running => running.handle (inner c hc) n) started
    obtain hc | hc := List.mem_append.1 hc
    · rw [List.mem_singleton.1 (show c ∈ [((.enter : Effect), w)] from hc)] at hm
      exact .inl (List.mem_singleton.1 hm)
    · refine .inr ?_
      obtain hc | hc := List.mem_append.1 hc
      · exact running_call (running_record n) (attempted c hc) (inner c hc) m hm
      · generalize leaving : (((Rebuild.attempt w.settings purge).run (handle (play n))).run
          { w with running := true }).2 = left at hc
        rw [List.mem_singleton.1 (show c ∈ [((.leave : Effect), left)] from hc)] at hm
        rw [List.mem_singleton.1 hm, ← leaving]
        have moved := (inert_handle Motion.kind_staying (staying_play n)).run
          ((Rebuild.within_attempt w.settings purge).mono fun e he =>
            show Motion.Staying (.reply e) by
              rintro rfl
              exact he) started
        exact moved.running Motion.kind_staying started

theorem marks_single (single : op ≠ .executeAll) :
    marks n op w = .begins n op w :: ownMarks n (record n) op w := by
  cases op with
  | executeAll => exact absurd rfl single
  | _ => rfl

theorem begins_within {purge : Option Instant} (rebuilds : op.rebuilds? = some purge) {n' : Nat}
    {op' : Operation} (there : .begins n' op' v ∈ marks n op w) (idle : ¬ v.Running) :
    n' = n ∧ op' = op ∧ v = w := by
  rw [marks_single (single_of_rebuilds rebuilds)] at there
  obtain same | there := List.mem_cons.1 there
  · cases same
    exact ⟨rfl, rfl, rfl⟩
  · obtain entering | running := running_within rebuilds _ there
    · cases entering
    · exact absurd running idle

end World

end ClaimIndex
