import ClaimIndex.Proofs.Race
import ClaimIndex.Proofs.Settlement

namespace ClaimIndex

namespace Overlay

open World (idle reply)

namespace Slots

variable {s : Slots} {name other : String} {now stamp : Instant} {held : Slot}

theorem getElem?_set_ne (ne : name ≠ other) {entry : Entry} {ttl : Span} :
    (s.set name entry ttl now)[other]? = s[other]? := by
  rw [set, Std.ExtTreeMap.getElem?_insert]
  simp [ne]

theorem getElem?_delete_ne (ne : name ≠ other) : (s.delete name)[other]? = s[other]? := by
  rw [delete, Std.ExtTreeMap.getElem?_erase]
  simp [ne]

theorem getElem?_get_ne (ne : name ≠ other) : (s.get name now).2[other]? = s[other]? := by
  unfold get
  split
  · rfl
  · split
    · exact getElem?_delete_ne ne
    · rfl

theorem deleteIf_missed (h : (s.deleteIf name stamp now).1 = false) :
    (s.deleteIf name stamp now).2 = s := by
  unfold deleteIf at h ⊢
  split
  · rfl
  · rename_i there
    rw [there] at h
    dsimp only at h
    split at h
    · cases h
    · rw [if_neg ‹_›]

theorem deleteIf_hit (h : (s.deleteIf name stamp now).1 = true) : ∃ held,
    s[name]? = some held ∧ held.expired now = false ∧ held.entry.stamp.equals stamp = true ∧
      (s.deleteIf name stamp now).2 = s.erase name := by
  unfold deleteIf at h ⊢
  split
  · rename_i there
    rw [there] at h
    cases h
  · rename_i held there
    rw [there] at h
    dsimp only at h
    split at h
    · rename_i hit
      rw [if_pos hit]
      rw [Bool.and_eq_true, Bool.not_eq_true'] at hit
      exact ⟨held, there, hit.1, hit.2, rfl⟩
    · cases h

theorem getElem?_deleteIf_ne (ne : name ≠ other) :
    (s.deleteIf name stamp now).2[other]? = s[other]? := by
  cases hit : (s.deleteIf name stamp now).1 with
  | false => rw [deleteIf_missed hit]
  | true =>
    obtain ⟨-, -, -, -, erased⟩ := deleteIf_hit hit
    rw [erased]
    exact getElem?_delete_ne ne

end Slots

inductive Event
  | get (name : String)
  | set (name : String) (entry : Entry) (ttl : Span)
  | delete (name : String)
  | deleteIf (name : String) (stamp : Instant)
  | merge (id : GroupId) (space : Namespace) (raws : List String)
  | pass (now : Instant)

namespace Event

def act (w : World) : Event → World
  | get name => { w with slots := (w.slots.get name w.clock).2 }
  | set name entry ttl => { w with slots := w.slots.set name entry ttl w.clock }
  | delete name => { w with slots := w.slots.delete name }
  | deleteIf name stamp => { w with slots := (w.slots.deleteIf name stamp w.clock).2 }
  | merge id space raws => (((store id space raws).run.run (reply idle)).run w).2
  | pass now => { w with clock := now }

/-- The overlay's slot is set or removed, or its entry expires. -/
def interferes (w : World) : Event → Bool
  | get _ => false
  | set name .. | delete name => name = slot
  | deleteIf name stamp => name = slot && (w.slots.deleteIf name stamp w.clock).1
  | merge .. => true
  | pass now => w.slots[slot]?.any fun held => !held.expired w.clock && held.expired now

end Event

end Overlay

namespace World

open Overlay (slot)

variable {w : World} {entry : Overlay.Entry}

theorem overlay?_eq_some : w.overlay? = some entry ↔ ∃ held,
    w.slots[slot]? = some held ∧ held.expired w.clock = false ∧ held.entry = entry := by
  unfold overlay? Overlay.Slots.get
  cases there : w.slots[slot]? with
  | none => simp
  | some held => cases late : held.expired w.clock <;> simp [late]

theorem overlay?_of_bare (bare : w.slots[slot]? = none) : w.overlay? = none :=
  congrArg Prod.fst (Overlay.Slots.get_none bare)

theorem get_overlay (h : w.overlay? = some entry) :
    w.slots.get slot w.clock = (some entry, w.slots) := by
  obtain ⟨held, there, live, rfl⟩ := overlay?_eq_some.1 h
  exact Overlay.Slots.get_live there live

theorem overlay?_congr {v : World} (same : v.slots[slot]? = w.slots[slot]?)
    (clock : v.clock = w.clock) : v.overlay? = w.overlay? := by
  ext entry
  rw [overlay?_eq_some, overlay?_eq_some, same, clock]

theorem overlay?_act {e : Overlay.Event} (h : w.overlay? = some entry)
    (aside : e.interferes w = false) : (e.act w).overlay? = some entry := by
  have elsewhere {v : World} (same : v.slots[slot]? = w.slots[slot]?) (clock : v.clock = w.clock) :
      v.overlay? = some entry := (overlay?_congr same clock).trans h
  cases e with
  | get name =>
    refine elsewhere ?_ rfl
    by_cases here : name = slot
    · subst here
      exact congrArg (·.2[slot]?) (get_overlay h)
    · exact Overlay.Slots.getElem?_get_ne here
  | set name entry' ttl =>
    exact elsewhere (Overlay.Slots.getElem?_set_ne (of_decide_eq_false aside)) rfl
  | delete name =>
    exact elsewhere (Overlay.Slots.getElem?_delete_ne (of_decide_eq_false aside)) rfl
  | deleteIf name stamp =>
    refine elsewhere ?_ rfl
    rw [Overlay.Event.interferes, Bool.and_eq_false_iff] at aside
    obtain ne | missed := aside
    · exact Overlay.Slots.getElem?_deleteIf_ne (of_decide_eq_false ne)
    · exact congrArg (·[slot]?) (Overlay.Slots.deleteIf_missed missed)
  | merge id space raws => cases aside
  | pass now =>
    obtain ⟨held, there, live, rfl⟩ := overlay?_eq_some.1 h
    rw [Overlay.Event.interferes, there, Option.any_some, live] at aside
    have lasts : held.expired now = false := by simpa using aside
    exact overlay?_eq_some.2 ⟨held, there, lasts, rfl⟩

end World

namespace Overlay

open Proc (done call)

structure Removal where
  world : World
  left : Proc (Except Fault (Option Outcome))
  found : List (Option Entry) := []
  met : Nat := 0

namespace Removal

def start (w : World) (bound : Instant) (rounds : Nat) : Removal where
  world := w
  left := (reconcile bound rounds).run

inductive Turn
  | own
  | other (e : Event)

def Turn.isOwn : Turn → Bool
  | own => true
  | other _ => false

variable (r : Removal)

def aim? : Option Instant :=
  match r.left with
  | .call (.dropOverlay stamp) _ => some stamp
  | _ => none

def glance : List (Option Entry) :=
  match r.left with
  | .call .readOverlay _ => [r.world.overlay?]
  | _ => []

def turn : Turn → Removal
  | .own => { r with
      world := (r.left.advance r.world).2
      left := (r.left.advance r.world).1
      found := r.found ++ r.glance }
  | .other e => { r with
      world := e.act r.world
      met := r.met + if r.aim?.isSome && e.interferes r.world then 1 else 0 }

def run (ts : List Turn) : Removal := ts.foldl turn r

def result? : Option (Except Fault (Option Outcome)) := r.left.result?

/-- The request that is made next ends the removal with an outcome, and the outcome tells what the
removal did. -/
def Concludes (bound : Instant) (outcome : Outcome) : Prop :=
  r.result? = none ∧ (r.turn .own).result? = some (.ok (some outcome)) ∧
  match outcome with
  | .empty => r.world.overlay? = none ∧ (r.turn .own).world.overlay? = none
  | .retained stamp => ¬ stamp ≤ bound ∧ (∃ entry, r.world.overlay? = some entry ∧
      entry.stamp = stamp) ∧ (r.turn .own).world = r.world
  | .purged _ => (∃ entry, r.world.overlay? = some entry ∧ entry.stamp ≤ bound) ∧
      (r.turn .own).world = { r.world with slots := r.world.slots.erase slot }

variable {r} {t : Turn} {ts : List Turn} {bound : Instant} {rounds owns n : Nat} {w : World}
  {entry : Entry} {outcome : Outcome} {a : Except Fault (Option Outcome)} {e : Event}

def dropping (bound : Instant) (entry : Entry) (rounds : Nat) :
    Proc (Except Fault (Option Outcome)) :=
  call (.dropOverlay entry.stamp) fun
    | .error fault => done (.error fault)
    | .ok gone =>
      if gone then done (.ok (some (.purged entry.keys.size))) else (reconcile bound rounds).run

def looked (bound : Instant) (rounds : Nat) : Option Entry → Proc (Except Fault (Option Outcome))
  | none => done (.ok (some .empty))
  | some entry =>
    if entry.stamp ≤ bound then dropping bound entry rounds
    else done (.ok (some (.retained entry.stamp)))

theorem looked_early (early : entry.stamp ≤ bound) :
    looked bound n (some entry) = dropping bound entry n :=
  if_pos early

theorem looked_late (late : ¬ entry.stamp ≤ bound) :
    looked bound n (some entry) = done (.ok (some (.retained entry.stamp))) :=
  if_neg late

theorem reconcile_succ : (reconcile bound (n + 1)).run = call .readOverlay fun
    | .error fault => done (.error fault)
    | .ok held => looked bound n held := by
  rw [reconcile, ExceptT.run_bind]
  change call .readOverlay _ = _
  congr 1
  funext read
  cases read with
  | error fault => rfl
  | ok held =>
    cases held with
    | none => rfl
    | some entry =>
      change ExceptT.run (if entry.stamp ≤ bound then _ else _) = looked bound n (some entry)
      by_cases early : entry.stamp ≤ bound
      · rw [if_pos early, looked_early early]
        change call (.dropOverlay entry.stamp) _ = _
        unfold dropping
        congr 1
        funext dropped
        obtain fault | (_ | _) := dropped <;> rfl
      · rw [if_neg early, looked_late early]
        rfl

theorem turn_done (left : r.left = done a) : r.turn .own = r := by
  obtain ⟨w, _, found, met⟩ := r
  subst left
  exact congrArg (Removal.mk w (done a) · met) (List.append_nil found)

theorem turn_reads (left : r.left = (reconcile bound (n + 1)).run) : r.turn .own = { r with
    world := { r.world with slots := (r.world.slots.get slot r.world.clock).2 }
    left := looked bound n r.world.overlay?
    found := r.found ++ [r.world.overlay?] } := by
  obtain ⟨w, _, found, met⟩ := r
  rw [reconcile_succ] at left
  subst left
  rfl

theorem turn_drops (left : r.left = dropping bound entry n) : r.turn .own = { r with
    world := { r.world with slots := (r.world.slots.deleteIf slot entry.stamp r.world.clock).2 }
    left := if (r.world.slots.deleteIf slot entry.stamp r.world.clock).1 then
      done (.ok (some (.purged entry.keys.size))) else (reconcile bound n).run } := by
  obtain ⟨w, _, found, met⟩ := r
  subst left
  exact congrArg (Removal.mk _ _ · met) (List.append_nil found)

theorem turn_found (left : r.left = (reconcile bound (n + 1)).run)
    (there : r.world.overlay? = some entry) : r.turn .own = { r with
      left := looked bound n (some entry)
      found := r.found ++ [some entry] } := by
  rw [turn_reads left, World.get_overlay there, there]

theorem turn_hit (left : r.left = dropping bound entry n)
    (hit : (r.world.slots.deleteIf slot entry.stamp r.world.clock).1 = true) :
    r.turn .own = { r with
      world := { r.world with slots := r.world.slots.erase slot }
      left := done (.ok (some (.purged entry.keys.size))) } := by
  obtain ⟨-, -, -, -, erased⟩ := Slots.deleteIf_hit hit
  rw [turn_drops left, if_pos hit, erased]

theorem turn_missed (left : r.left = dropping bound entry n)
    (missed : (r.world.slots.deleteIf slot entry.stamp r.world.clock).1 = false) :
    r.turn .own = { r with left := (reconcile bound n).run } := by
  rw [turn_drops left, Slots.deleteIf_missed missed, missed]
  rfl

theorem result?_turn (h : r.result? = some a) : (r.turn t).result? = some a := by
  cases t with
  | own =>
    cases left : r.left with
    | done b => rwa [turn_done left]
    | call e next =>
      rw [result?, left] at h
      cases h
  | other e => exact h

theorem result?_run (h : r.result? = some a) : (r.run ts).result? = some a := by
  induction ts generalizing r with
  | nil => exact h
  | cons t ts ih => exact ih (result?_turn h)

theorem ended_reads (left : r.left = (reconcile bound (n + 1)).run)
    (ended : (r.turn .own).result? = some (.ok (some outcome))) :
    r.world.overlay? = none ∧ outcome = .empty ∨ ∃ entry,
      r.world.overlay? = some entry ∧ ¬ entry.stamp ≤ bound ∧ outcome = .retained entry.stamp := by
  cases there : r.world.overlay? with
  | none =>
    rw [turn_reads left, there] at ended
    cases ended
    exact .inl ⟨rfl, rfl⟩
  | some entry =>
    rw [turn_found left there] at ended
    by_cases early : entry.stamp ≤ bound
    · rw [looked_early early] at ended
      cases ended
    · rw [looked_late early] at ended
      cases ended
      exact .inr ⟨entry, rfl, early, rfl⟩

theorem ended_drops (left : r.left = dropping bound entry n)
    (ended : (r.turn .own).result? = some (.ok (some outcome))) :
    (r.world.slots.deleteIf slot entry.stamp r.world.clock).1 = true ∧
      outcome = .purged entry.keys.size := by
  cases hit : (r.world.slots.deleteIf slot entry.stamp r.world.clock).1 with
  | true =>
    rw [turn_hit left hit] at ended
    cases ended
    exact ⟨rfl, rfl⟩
  | false =>
    rw [turn_missed left hit] at ended
    cases n with
    | zero => cases ended
    | succ n =>
      rw [reconcile_succ] at ended
      cases ended

/-- How far a removal has come after so many requests of its own.  Only a round in which others
interfered is followed by another one. -/
inductive Amid (bound : Instant) (rounds owns : Nat) (r : Removal) : Prop
  | reads {n : Nat} (left : r.left = (reconcile bound (n + 1)).run)
    (whole : r.found.length + (n + 1) = rounds) (asked : owns = 2 * r.found.length)
    (few : r.found.length ≤ r.met)
  | drops {entry : Entry} {n : Nat} (left : r.left = dropping bound entry n)
    (early : entry.stamp ≤ bound) (whole : r.found.length + n = rounds)
    (asked : owns + 1 = 2 * r.found.length) (few : r.found.length ≤ r.met + 1)
    (untouched : r.met < r.found.length → r.world.overlay? = some entry)
  | returns {outcome : Outcome} (left : r.left = done (.ok (some outcome)))
    (few : r.found.length ≤ r.met + 1)
  | exhausted (left : r.left = done (.ok none)) (few : r.found.length ≤ r.met)
    (spent : rounds ≤ r.met)

namespace Amid

theorem start : Amid bound rounds 0 (.start w bound rounds) := by
  cases rounds with
  | zero => exact .exhausted rfl (Nat.le_refl _) (Nat.le_refl _)
  | succ n => exact .reads rfl (Nat.zero_add _) rfl (Nat.le_refl _)

theorem hits (there : w.overlay? = some entry) (early : entry.stamp ≤ bound) :
    (w.slots.deleteIf slot entry.stamp w.clock).1 = true := by
  obtain ⟨held, found, live, rfl⟩ := World.overlay?_eq_some.1 there
  have number : held.entry.stamp ≠ .nan := fun nan => Binary64.not_nan_le bound (nan ▸ early)
  have same := Binary64.le_refl number
  exact Slots.deleteIf_live found live (Binary64.equals_iff.2 ⟨same, same⟩)

theorem own (h : Amid bound rounds owns r) : Amid bound rounds (owns + 1) (r.turn .own) := by
  cases h with
  | @reads n left whole asked few =>
    have more (held : Option Entry) : (r.found ++ [held]).length = r.found.length + 1 :=
      List.length_append
    cases there : r.world.overlay? with
    | none =>
      rw [turn_reads left, there]
      exact .returns rfl (more _ ▸ Nat.succ_le_succ few)
    | some entry =>
      rw [turn_found left there]
      by_cases early : entry.stamp ≤ bound
      · refine .drops (looked_early early) early (n := n) ?_ ?_ ?_ fun _ => there
        all_goals
          dsimp only
          rw [more]
          omega
      · exact .returns (looked_late early) (more _ ▸ Nat.succ_le_succ few)
  | @drops entry n left early whole asked few untouched =>
    cases hit : (r.world.slots.deleteIf slot entry.stamp r.world.clock).1 with
    | true =>
      rw [turn_hit left hit]
      exact .returns rfl few
    | false =>
      have interfered : r.found.length ≤ r.met := Nat.not_lt.1 fun lone => by
        rw [hits (untouched lone) early] at hit
        cases hit
      rw [turn_missed left hit]
      cases n with
      | zero => exact .exhausted rfl interfered (whole ▸ interfered)
      | succ n => exact .reads rfl whole asked interfered
  | returns left few =>
    rw [turn_done left]
    exact .returns left few
  | exhausted left few spent =>
    rw [turn_done left]
    exact .exhausted left few spent

theorem other (h : Amid bound rounds owns r) : Amid bound rounds owns (r.turn (.other e)) := by
  have more : r.met ≤ (r.turn (.other e)).met := Nat.le_add_right _ _
  cases h with
  | reads left whole asked few => exact .reads left whole asked (Nat.le_trans few more)
  | drops left early whole asked few untouched =>
    refine .drops left early whole asked (Nat.le_trans few (Nat.succ_le_succ more)) fun lone => ?_
    have aim : r.aim?.isSome = true := by
      rw [aim?, left]
      rfl
    change r.met + (if r.aim?.isSome && e.interferes r.world then 1 else 0) < _ at lone
    rw [aim, Bool.true_and] at lone
    change (e.act r.world).overlay? = _
    cases aside : e.interferes r.world with
    | false =>
      rw [aside] at lone
      exact World.overlay?_act (untouched lone) aside
    | true =>
      rw [aside] at lone
      exact absurd lone (Nat.not_lt.2 few)
  | returns left few => exact .returns left (Nat.le_trans few (Nat.succ_le_succ more))
  | exhausted left few spent =>
    exact .exhausted left (Nat.le_trans few more) (Nat.le_trans spent more)

theorem run (h : Amid bound rounds owns r) :
    Amid bound rounds (owns + ts.countP Turn.isOwn) (r.run ts) := by
  induction ts generalizing r owns with
  | nil => exact h
  | cons t ts ih =>
    cases t with
    | own =>
      rw [List.countP_cons_of_pos rfl, ← Nat.add_assoc, Nat.add_right_comm]
      exact ih h.own
    | other e =>
      rw [List.countP_cons_of_neg Bool.false_ne_true]
      exact ih h.other

theorem concludes (h : Amid bound rounds owns r) (goes : r.result? = none)
    (ended : (r.turn .own).result? = some (.ok (some outcome))) : r.Concludes bound outcome := by
  refine ⟨goes, ended, ?_⟩
  cases h with
  | reads left whole asked few =>
    obtain ⟨bare, rfl⟩ | ⟨entry, there, late, rfl⟩ := ended_reads left ended
    · refine ⟨bare, World.overlay?_of_bare ?_⟩
      rw [turn_reads left]
      exact Slots.getElem?_get bare
    · refine ⟨late, ⟨entry, there, rfl⟩, ?_⟩
      rw [turn_found left there]
  | drops left early whole asked few untouched =>
    obtain ⟨hit, rfl⟩ := ended_drops left ended
    obtain ⟨held, there, live, same, -⟩ := Slots.deleteIf_hit hit
    refine ⟨⟨held.entry, World.overlay_of_live there live,
      Binary64.le_trans (Binary64.equals_iff.1 same).1 early⟩, ?_⟩
    rw [turn_hit left hit]
  | returns left few =>
    rw [result?, left] at goes
    cases goes
  | exhausted left few spent =>
    rw [result?, left] at goes
    cases goes

end Amid

theorem result?_start (some : rounds ≠ 0) : (start w bound rounds).result? = none := by
  obtain ⟨n, rfl⟩ := Nat.exists_eq_succ_of_ne_zero some
  rw [result?, start, reconcile_succ]
  rfl

theorem exists_ending (goes : r.result? = none) (ended : (r.run ts).result? = some a) :
    ∃ before after, ts = before ++ .own :: after ∧ (r.run before).result? = none ∧
      ((r.run before).turn .own).result? = some a := by
  induction ts generalizing r with
  | nil => cases goes.symm.trans ended
  | cons t ts ih =>
    cases now : (r.turn t).result? with
    | none =>
      obtain ⟨before, after, rfl, last⟩ := ih now ended
      exact ⟨t :: before, after, rfl, last⟩
    | some b =>
      have same : some b = some a := (result?_run now).symm.trans ended
      cases t with
      | own => exact ⟨[], ts, rfl, goes, now.trans same⟩
      | other e => cases goes.symm.trans now

/-- If others interfere at most `n` times between a read and the removal of what it found, then a
removal reads at most `n + 1` times and is done after as many rounds of two requests, and its
outcome tells what its last request did.  Neither the entry's stamp nor the bound need be a
number. -/
theorem rounds_le_interference (w : World) (bound : Instant) (rounds n : Nat) (ts : List Turn)
    (few : ((start w bound rounds).run ts).met ≤ n) (enough : n < rounds) :
    ((start w bound rounds).run ts).found.length ≤ n + 1 ∧
    (2 * (n + 1) ≤ ts.countP Turn.isOwn → ((start w bound rounds).run ts).result? ≠ none) ∧
    ∀ a, ((start w bound rounds).run ts).result? = some a → ∃ outcome before after,
      a = .ok (some outcome) ∧ ts = before ++ .own :: after ∧
      ((start w bound rounds).run before).Concludes bound outcome := by
  have amid : Amid bound rounds (0 + ts.countP Turn.isOwn) ((start w bound rounds).run ts) :=
    Amid.start.run
  have goes : (start w bound rounds).result? = none := result?_start (Nat.ne_zero_of_lt enough)
  rw [Nat.zero_add] at amid
  generalize ends : (start w bound rounds).run ts = r at amid few ⊢
  cases amid with
  | reads left whole asked fewer =>
    refine ⟨by omega, fun many => by omega, fun a result => ?_⟩
    rw [result?, left, reconcile_succ] at result
    cases result
  | drops left early whole asked fewer untouched =>
    refine ⟨by omega, fun many => by omega, fun a result => ?_⟩
    rw [result?, left] at result
    cases result
  | @returns outcome left fewer =>
    have result : r.result? = some (.ok (some outcome)) := by
      rw [result?, left]
      rfl
    refine ⟨by omega, fun _ => by simp [result], fun a ended => ?_⟩
    obtain ⟨before, after, cut, still, last⟩ :=
      exists_ending goes ((congrArg result? ends).trans result)
    exact ⟨outcome, before, after, Option.some.inj (ended.symm.trans result), cut,
      Amid.start.run.concludes still last⟩
  | exhausted left fewer spent => omega

def lone : World where
  slots := (∅ : Slots).insert slot ⟨⟨.zero, normalized "a" 8 ["Early"]⟩, .ofNat 1000⟩

def overtaken : List Turn :=
  [.own, .other (.pass (.ofNat 1)), .other (.merge "late" 8 ["Late"]), .own, .own, .own]

theorem rounds_le_interference_overtaken :
    ((start lone .zero 2).run overtaken).found.length ≤ 2 ∧ ∃ outcome before after,
      ((start lone .zero 2).run overtaken).result? = some (.ok (some outcome)) ∧
      overtaken = before ++ .own :: after ∧
      ((start lone .zero 2).run before).Concludes .zero outcome := by
  obtain ⟨short, ends, tells⟩ := rounds_le_interference lone .zero 2 1 overtaken
    (by decide +kernel) (by decide)
  obtain ⟨a, result⟩ := Option.ne_none_iff_exists'.1 (ends (by decide))
  obtain ⟨outcome, before, after, rfl, cut, concludes⟩ := tells a result
  exact ⟨short, outcome, before, after, result, cut, concludes⟩

end Removal

end Overlay

end ClaimIndex
