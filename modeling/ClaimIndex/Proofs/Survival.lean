import ClaimIndex.Proofs.Removal

/-! What becomes of keys that are merged while the overlay's entry is to be removed.  An entry is
told from another one by its stamp alone, so a merge that takes place at the very instant at which
the entry that was read was stamped goes unnoticed.  All others survive. -/

namespace ClaimIndex.Overlay

def Event.Mild (w : World) : Event → Prop
  | get _ | merge .. => True
  | set name .. | delete name | deleteIf name _ => name ≠ slot
  | pass now => w.clock ≤ now

namespace Removal

open Proc (done)

def Mild (r : Removal) : Turn → Prop
  | .own => True
  | .other e => e.Mild r.world

def Apart (r : Removal) : Turn → Prop
  | .other (.merge ..) => ∀ stamp, r.aim? = some stamp → r.world.clock.equals stamp = false
  | _ => True

def Along (P : Removal → Turn → Prop) : Removal → List Turn → Prop
  | _, [] => True
  | r, t :: ts => P r t ∧ Along P (r.turn t) ts

/-- What has become of a key that the overlay had. -/
inductive Fate (k : Key) (r : Removal) (ts : List Turn) : Prop
  | kept {entry : Entry} (there : (r.run ts).world.overlay? = some entry) (holds : k ∈ entry.keys)
  | expired {before after : List Turn} {held : Slot} (cut : ts = before ++ after)
    (there : (r.run before).world.slots[slot]? = some held) (holds : k ∈ held.entry.keys)
    (late : held.expired (r.run ts).world.clock = true)
  | read {before after : List Turn} {entry : Entry} (cut : ts = before ++ .own :: after)
    (seen : (r.run before).glance = [some entry]) (holds : k ∈ entry.keys)

variable {r : Removal} {t : Turn} {ts us : List Turn} {bound : Instant} {rounds n : Nat} {w : World}
  {entry : Entry} {held : Slot} {e : Event} {k : Key} {P : Removal → Turn → Prop}

theorem Along.append : r.Along P (ts ++ us) ↔ r.Along P ts ∧ (r.run ts).Along P us := by
  induction ts generalizing r with
  | nil => simp [Along, run]
  | cons t ts ih => simp [Along, ih, and_assoc, run]

theorem Fate.cons (h : Fate k (r.turn t) ts) : Fate k r (t :: ts) := by
  cases h with
  | kept there holds => exact .kept there holds
  | @expired before after held cut there holds late =>
    have whole : t :: ts = (t :: before) ++ after := congrArg (t :: ·) cut
    exact .expired whole there holds late
  | @read before after entry cut seen holds =>
    have whole : t :: ts = (t :: before) ++ .own :: after := congrArg (t :: ·) cut
    exact .read whole seen holds

theorem clock_own : (r.turn .own).world.clock = r.world.clock := by
  cases left : r.left with
  | done a => rw [turn_done left]
  | call e next =>
    change (r.left.advance r.world).2.clock = _
    rw [left]
    change ((World.reply World.idle e).run r.world).2.clock = _
    by_cases performs : ∃ group actions, e = .perform group actions
    · obtain ⟨group, actions, rfl⟩ := performs
      rfl
    · obtain ⟨-, -, -, -, clock, -⟩ := World.reply_frame World.idle
        (fun group actions same => performs ⟨group, actions, same⟩) r.world
      exact clock

theorem expired_turn (mild : r.Mild t) (late : held.expired r.world.clock = true) :
    held.expired (r.turn t).world.clock = true := by
  cases t with
  | own => rwa [clock_own]
  | other e =>
    cases e with
    | pass now => exact decide_eq_true (Binary64.le_trans (of_decide_eq_true late) mild)
    | _ => exact late

theorem expired_run (mild : r.Along Mild ts) (late : held.expired r.world.clock = true) :
    held.expired (r.run ts).world.clock = true := by
  induction ts generalizing r with
  | nil => exact late
  | cons t ts ih => exact ih mild.2 (expired_turn mild.1 late)

theorem Fate.of_expired (mild : r.Along Mild ts) (there : r.world.slots[slot]? = some held)
    (holds : k ∈ held.entry.keys) (late : held.expired r.world.clock = true) : Fate k r ts :=
  .expired (List.nil_append ts).symm there holds (expired_run mild late)

/-- Where a removal is.  An entry that it has read is there still, or another one that it can tell
from it, or none. -/
inductive Stage (bound : Instant) (r : Removal) : Prop
  | reads {n : Nat} (left : r.left = (reconcile bound (n + 1)).run)
  | drops {entry : Entry} {n : Nat} (left : r.left = dropping bound entry n)
    (told : ∀ held, r.world.slots[slot]? = some held →
      held.entry = entry ∨ held.entry.stamp.equals entry.stamp = false)
  | returns {a : Except Fault (Option Outcome)} (left : r.left = done a)

theorem aim_dropping (left : r.left = dropping bound entry n) : r.aim? = some entry.stamp := by
  rw [aim?, left]
  rfl

theorem aim_reconcile (left : r.left = (reconcile bound n).run) : r.aim? = none := by
  rw [aim?, left]
  cases n with
  | zero => rfl
  | succ n => rw [reconcile_succ]

theorem glance_reads (left : r.left = (reconcile bound (n + 1)).run) :
    r.glance = [r.world.overlay?] := by
  rw [glance, left, reconcile_succ]

theorem slot_mild (mild : e.Mild w) (unmerged : ∀ id space raws, e ≠ .merge id space raws) :
    (e.act w).slots[slot]? = w.slots[slot]? ∨
      ∃ held, w.slots[slot]? = some held ∧ held.expired w.clock = true ∧
        (e.act w).slots[slot]? = none := by
  cases e with
  | get name =>
    by_cases here : name = slot
    · subst here
      change (w.slots.get slot w.clock).2[slot]? = _ ∨ ∃ held, _ ∧ _ ∧
        (w.slots.get slot w.clock).2[slot]? = _
      cases there : w.slots[slot]? with
      | none => exact .inl ((congrArg (·.2[slot]?) (Slots.get_none there)).trans there)
      | some held =>
        cases late : held.expired w.clock with
        | false => exact .inl ((congrArg (·.2[slot]?) (Slots.get_live there late)).trans there)
        | true =>
          rw [Slots.get_expired there late]
          exact .inr ⟨held, rfl, late, Std.ExtTreeMap.getElem?_erase_self⟩
    · exact .inl (Slots.getElem?_get_ne here)
  | set name entry ttl => exact .inl (Slots.getElem?_set_ne mild)
  | delete name => exact .inl (Slots.getElem?_delete_ne mild)
  | deleteIf name stamp => exact .inl (Slots.getElem?_deleteIf_ne mild)
  | merge id space raws => exact absurd rfl (unmerged id space raws)
  | pass now => exact .inl rfl

theorem mem_merged {id : GroupId} {space : Namespace} {raws : List String} :
    k ∈ (w.merged id space raws).keys ↔ (∃ raw ∈ raws, Key.ofRaw space raw = k) ∨
      ∃ entry, w.overlay? = some entry ∧ k ∈ entry.keys := by
  simp only [Std.ExtTreeMap.mem_iff_isSome_getElem?, World.getElem?_merged]
  split
  · rename_i added
    exact iff_of_true rfl (.inl added)
  · rename_i other
    rw [or_iff_right other]
    cases w.overlay? <;> simp

theorem act_merge (id : GroupId) (space : Namespace) (raws : List String) (w : World) :
    (Event.merge id space raws).act w = w.written (w.merged id space raws) :=
  congrArg Prod.snd (World.store_run id space raws)

theorem slot_merge (id : GroupId) (space : Namespace) (raws : List String) :
    (r.turn (.other (.merge id space raws))).world.slots[slot]? =
      some ⟨r.world.merged id space raws, r.world.clock.after r.world.settings.ttl⟩ := by
  change ((Event.merge id space raws).act r.world).slots[slot]? = _
  rw [act_merge, World.slot_written]

theorem told_merge {id : GroupId} {space : Namespace} {raws : List String}
    (apart : r.Apart (.other (.merge id space raws))) {stamp : Instant}
    (aim : r.aim? = some stamp) : (r.world.merged id space raws).stamp.equals stamp = false := by
  rw [World.stamp_merged]
  exact apart stamp aim

namespace Stage

theorem start : Stage bound (.start w bound rounds) := by
  cases rounds with
  | zero => exact .returns rfl
  | succ n => exact .reads rfl

theorem reconcile (left : r.left = (Overlay.reconcile bound n).run) : Stage bound r := by
  cases n with
  | zero => exact .returns left
  | succ n => exact .reads left

theorem turn (h : Stage bound r) (mild : r.Mild t) (apart : r.Apart t) :
    Stage bound (r.turn t) := by
  cases h with
  | returns left =>
    cases t with
    | own => exact .returns ((congrArg Removal.left (turn_done left)).trans left)
    | other e => exact .returns left
  | reads left =>
    cases t with
    | other e => exact .reads left
    | own =>
      cases there : r.world.overlay? with
      | none =>
        rw [turn_reads left, there]
        exact .returns rfl
      | some entry =>
        obtain ⟨held, found, -, rfl⟩ := World.overlay?_eq_some.1 there
        rw [turn_found left there]
        by_cases early : held.entry.stamp ≤ bound
        · refine .drops (looked_early early) fun other same => .inl ?_
          rw [Option.some.inj (same.symm.trans found)]
        · exact .returns (looked_late early)
  | drops left told =>
    cases t with
    | own =>
      cases hit : (r.world.slots.deleteIf slot _ r.world.clock).1 with
      | true =>
        rw [turn_hit left hit]
        exact .returns rfl
      | false =>
        rw [turn_missed left hit]
        exact .reconcile rfl
    | other e =>
      refine .drops left fun held there => ?_
      by_cases merges : ∃ id space raws, e = .merge id space raws
      · obtain ⟨id, space, raws, rfl⟩ := merges
        cases (slot_merge id space raws).symm.trans there
        exact .inr (told_merge apart (aim_dropping left))
      · obtain same | ⟨-, -, -, bare⟩ := slot_mild mild
          fun id space raws same => merges ⟨id, space, raws, same⟩
        · exact told held (same.symm.trans there)
        · cases bare.symm.trans there

theorem run (h : Stage bound r) (mild : r.Along Mild ts) (apart : r.Along Apart ts) :
    Stage bound (r.run ts) := by
  induction ts generalizing r with
  | nil => exact h
  | cons t ts ih => exact ih (h.turn mild.1 apart.1) mild.2 apart.2

theorem purges {keys : Nat} (h : Stage bound r) (goes : r.result? = none)
    (ended : (r.turn .own).result? = some (.ok (some (.purged keys)))) : ∃ held,
      r.world.slots[slot]? = some held ∧ held.entry.keys.size = keys ∧
        (r.turn .own).world.slots = r.world.slots.erase slot := by
  cases h with
  | returns left =>
    rw [result?, left] at goes
    cases goes
  | reads left =>
    obtain ⟨-, purged⟩ | ⟨_, -, -, purged⟩ := ended_reads left ended
    all_goals cases purged
  | drops left told =>
    obtain ⟨hit, purged⟩ := ended_drops left ended
    obtain ⟨held, there, -, same, -⟩ := Slots.deleteIf_hit hit
    refine ⟨held, there, ?_, by rw [turn_hit left hit]⟩
    cases purged
    obtain rfl | other := told held there
    · rfl
    · cases same.symm.trans other

end Stage

theorem fate_of_held (stage : Stage bound r) (there : r.world.slots[slot]? = some held)
    (holds : k ∈ held.entry.keys)
    (told : ∀ stamp, r.aim? = some stamp → held.entry.stamp.equals stamp = false)
    (mild : r.Along Mild ts) (apart : r.Along Apart ts) : Fate k r ts := by
  induction ts generalizing r held with
  | nil =>
    cases late : held.expired r.world.clock with
    | false => exact .kept (World.overlay_of_live there late) holds
    | true => exact .of_expired mild there holds late
  | cons t ts ih =>
    cases late : held.expired r.world.clock with
    | true => exact .of_expired mild there holds late
    | false =>
      have next := stage.turn mild.1 apart.1
      have found : r.world.overlay? = some held.entry := World.overlay_of_live there late
      cases t with
      | own =>
        cases stage with
        | returns left =>
          refine .cons (ih next ?_ holds ?_ mild.2 apart.2)
          all_goals rwa [turn_done left]
        | reads left => exact .read (List.nil_append _).symm (found ▸ glance_reads left) holds
        | @drops entry n left _ =>
          have missed : (r.world.slots.deleteIf slot entry.stamp r.world.clock).1 = false := by
            refine Bool.eq_false_iff.2 fun hit => ?_
            obtain ⟨other, there', -, same, -⟩ := Slots.deleteIf_hit hit
            obtain rfl := Option.some.inj (there.symm.trans there')
            cases same.symm.trans (told _ (aim_dropping left))
          have turned := turn_missed left missed
          refine .cons (ih next (turned ▸ there) holds (fun stamp aim => ?_) mild.2 apart.2)
          rw [turned, aim_reconcile rfl] at aim
          cases aim
      | other e =>
        by_cases merges : ∃ id space raws, e = .merge id space raws
        · obtain ⟨id, space, raws, rfl⟩ := merges
          have held : k ∈ (r.world.merged id space raws).keys :=
            mem_merged.2 (.inr ⟨_, found, holds⟩)
          exact .cons (ih next (slot_merge id space raws) held (fun _ => told_merge apart.1)
            mild.2 apart.2)
        · obtain same | ⟨other, there', late', -⟩ := slot_mild mild.1
            fun id space raws same => merges ⟨id, space, raws, same⟩
          · exact .cons (ih next (same.trans there) holds told mild.2 apart.2)
          · obtain rfl := Option.some.inj (there.symm.trans there')
            cases late.symm.trans late'

/-- As long as no merge takes place at the very instant whose stamp is to be removed, a key that is
merged while the removal is under way is there afterwards, or has been read by the removal since,
or has expired; and the keys that are reported as purged are those of the entry that was removed. -/
theorem merged_keys_survive (w : World) (bound : Instant) (rounds : Nat) (ts : List Turn)
    (mild : (start w bound rounds).Along Mild ts) (apart : (start w bound rounds).Along Apart ts) :
    (∀ before id space raws after, ts = before ++ .other (.merge id space raws) :: after →
      ∀ raw ∈ raws, Fate (.ofRaw space raw)
        (((start w bound rounds).run before).turn (.other (.merge id space raws))) after) ∧
    ∀ keys, ((start w bound rounds).run ts).result? = some (.ok (some (.purged keys))) →
      ∃ before after held, ts = before ++ .own :: after ∧
        ((start w bound rounds).run before).world.slots[slot]? = some held ∧
        held.entry.keys.size = keys ∧
        (((start w bound rounds).run before).turn .own).world.slots =
          ((start w bound rounds).run before).world.slots.erase slot := by
  constructor
  · rintro before id space raws after rfl raw asked
    obtain ⟨mild, now, mild'⟩ := Along.append.1 mild
    obtain ⟨apart, now', apart'⟩ := Along.append.1 apart
    have stage := (Stage.start.run mild apart).turn now now'
    exact fate_of_held stage (slot_merge id space raws) (mem_merged.2 (.inl ⟨raw, asked, rfl⟩))
      (fun _ => told_merge now') mild' apart'
  · intro keys purged
    have goes : (start w bound rounds).result? = none := by
      cases rounds with
      | zero => cases (result?_run (a := .ok none) rfl).symm.trans purged
      | succ n => exact result?_start (Nat.succ_ne_zero n)
    obtain ⟨before, after, rfl, still, last⟩ := exists_ending goes purged
    have stage := Stage.start.run (Along.append.1 mild).1 (Along.append.1 apart).1
    obtain ⟨held, there, size, erased⟩ := stage.purges still last
    exact ⟨before, after, held, rfl, there, size, erased⟩

theorem merged_keys_survive_overtaken :
    (start lone .zero 2).Along Mild overtaken ∧ (start lone .zero 2).Along Apart overtaken ∧
    Fate (.ofRaw 8 "Late")
      (((start lone .zero 2).run [.own, .other (.pass (.ofNat 1))]).turn
        (.other (.merge "late" 8 ["Late"]))) [.own, .own, .own] := by
  have forth : ((start lone .zero 2).turn .own).world.clock ≤ .ofNat 1 := by decide +kernel
  have aim : (((start lone .zero 2).turn .own).turn (.other (.pass (.ofNat 1)))).aim? =
      some .zero := by
    decide +kernel
  have later : (((start lone .zero 2).turn .own).turn
      (.other (.pass (.ofNat 1)))).world.clock.equals .zero = false := by
    decide +kernel
  have mild : (start lone .zero 2).Along Mild overtaken :=
    ⟨trivial, forth, trivial, trivial, trivial, trivial, trivial⟩
  have apart : (start lone .zero 2).Along Apart overtaken := by
    refine ⟨trivial, trivial, fun stamp read => ?_, trivial, trivial, trivial, trivial⟩
    cases aim.symm.trans read
    exact later
  exact ⟨mild, apart, (merged_keys_survive lone .zero 2 overtaken mild apart).1 _ _ _ _ _ rfl "Late"
    (.head _)⟩

def unnoticed : List Turn := [.own, .other (.merge "late" 8 ["Late"]), .own]

theorem not_fate (blind : r.glance.length = 0)
    (gone : (r.run [.own]).world.slots[slot]? = none)
    (live : r.world.slots[slot]?.any (·.expired (r.run [.own]).world.clock) = false) :
    ¬ Fate k r [.own] := by
  rintro (⟨there, -⟩ | ⟨cut, there, -, late⟩ | ⟨cut, seen, -⟩)
  · cases (World.overlay?_of_bare gone).symm.trans there
  · obtain ⟨rfl, -⟩ | ⟨before, rfl, none⟩ := List.cons_eq_append_iff.1 cut
    · change r.world.slots[slot]? = _ at there
      rw [there] at live
      cases live.symm.trans late
    · obtain ⟨rfl, -⟩ := List.append_eq_nil_iff.1 none.symm
      cases gone.symm.trans there
  · obtain ⟨rfl, -⟩ | ⟨before, rfl, none⟩ := List.cons_eq_append_iff.1 cut
    · cases blind.symm.trans (congrArg List.length seen)
    · cases before <;> cases none

theorem merged_key_lost :
    (start lone .zero 2).Along Mild unnoticed ∧
    ((start lone .zero 2).run unnoticed).result? = some (.ok (some (.purged 1))) ∧
    ((start lone .zero 2).run (unnoticed.take 2)).world.overlay?.map (·.keys.size) = some 2 ∧
    ¬ Fate (.ofRaw 8 "Late")
      (((start lone .zero 2).run [.own]).turn (.other (.merge "late" 8 ["Late"]))) [.own] := by
  refine ⟨⟨trivial, trivial, trivial, trivial⟩, by decide +kernel, by decide +kernel, ?_⟩
  exact not_fate (by decide +kernel) (Option.eq_none_of_isNone (by decide +kernel))
    (by decide +kernel)

end Removal

end ClaimIndex.Overlay
