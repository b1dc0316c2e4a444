import ClaimIndex.Proofs.Paths
import ClaimIndex.Proofs.Requests
import ClaimIndex.Proofs.Settlement

/-! One rebuild and any number of lookups in one world.  Each of them makes its requests one at a
time, and nothing is said about whose turn it is. -/

namespace ClaimIndex

open World (Motion Moves idle reply)

namespace Proc

variable {α : Type} {E : Effect → Prop} {p : Proc α} {w : World} {n : Nat}

def advance : Proc α → World → Proc α × World
  | done a, w => (done a, w)
  | call e next, w => (next ((reply idle e).run w).1, ((reply idle e).run w).2)

def exchange? : Proc α → World → Option Exchange
  | done _, _ => none
  | call e _, w => some ⟨e, ((reply idle e).run w).1⟩

def result? : Proc α → Option α
  | done a => some a
  | call .. => none

def clears : Proc α → Nat
  | call .clearCache _ => 1
  | _ => 0

theorem Within.advance (hp : p.Within E) (w : World) : (p.advance w).1.Within E := by
  cases p with
  | done a => trivial
  | call e next => exact hp.2 _

theorem run_of_exchange {e : Effect} {a : e.Reply} (h : p.exchange? w = some ⟨e, a⟩) :
    (reply idle e).run w = (a, (p.advance w).2) := by
  cases p with
  | done b => cases h
  | call e next =>
    cases h
    rfl

theorem moves_advance {P : Motion → Prop}
    (hP : ∀ x, p.exchange? w = some x → P (.reply x.effect)) : Moves P w (p.advance w).2 := by
  cases p with
  | done a => exact .refl
  | call e next => exact .one (m := .reply e) (hP _ rfl)

def Ends : Nat → Proc α → Prop
  | _, done _ => True
  | 0, call .. => False
  | n + 1, call _ next => ∀ r, (next r).Ends n

theorem ends_done {a : α} : (done a).Ends n := by
  cases n <;> trivial

theorem Ends.mono {m : Nat} (hp : p.Ends n) (h : n ≤ m) : p.Ends m := by
  induction p generalizing n m with
  | done a => exact ends_done
  | call e next ih =>
    obtain _ | n := n
    · exact hp.elim
    · obtain ⟨m, rfl⟩ := Nat.exists_eq_add_of_le h
      rw [Nat.add_right_comm]
      exact fun r => ih r (hp r) (Nat.le_add_right n m)

theorem Ends.advance (hp : p.Ends n) (w : World) : (p.advance w).1.Ends (n - 1) := by
  cases p with
  | done a => exact ends_done
  | call e next =>
    cases n with
    | zero => exact hp.elim
    | succ n => exact hp _

theorem Ends.result (hp : p.Ends 0) : ∃ a, p.result? = some a := by
  cases p with
  | done a => exact ⟨a, rfl⟩
  | call e next => exact hp.elim

end Proc

structure Racer where
  key : Key
  left : Proc (List GroupId)
  looks : left.Within Effect.Looking

structure Glimpse where
  generation : UInt64
  key : Key
  id : GroupId
  deriving DecidableEq

namespace Racer

def ofKey (k : Key) : Racer := ⟨k, Lookup.ofKey k, Lookup.within_ofKey k⟩

def ofRaw (s : Settings) (space : Namespace) (raw : String) : Racer :=
  ⟨.ofRaw space raw, Lookup.groups s space raw, Lookup.within_groups s space raw⟩

variable (l : Racer) (w : World)

def advance : Racer := ⟨l.key, (l.left.advance w).1, l.looks.advance w⟩

def glimpse? : Option Glimpse :=
  match l.left with
  | .call .readOverlay _ =>
    (w.overlay?.bind fun entry => entry.keys[l.key]?).map (⟨w.cache.generation, l.key, ·⟩)
  | _ => none

variable {l w} {g : Glimpse}

theorem generation_of_glimpse (h : l.glimpse? w = some g) :
    g.generation = w.cache.generation := by
  unfold glimpse? at h
  split at h
  · obtain ⟨id, -, rfl⟩ := Option.map_eq_some_iff.1 h
    rfl
  · cases h

theorem glimpse_bare (bare : w.slots[Overlay.slot]? = none) : l.glimpse? w = none := by
  unfold glimpse? World.overlay?
  rw [Overlay.Slots.get_none bare]
  split <;> rfl

end Racer

structure Race where
  world : World
  rebuild : Proc (Except Fault Report)
  asks : rebuild.Within Rebuild.Requests
  lookups : List Racer := []
  clears : Nat := 0
  glimpses : List Glimpse := []

namespace Race

def start (w : World) (purge : Option Instant) : Race where
  world := w
  rebuild := Rebuild.start w.settings purge
  asks := Rebuild.requests_start w.settings purge

inductive Turn
  | rebuild
  | lookup (i : Nat)
  | begins (space : Namespace) (raw : String)
  | seeks (key : Key)
  | clear
  | pass (now : Instant)
  deriving DecidableEq

variable (r : Race)

def look (i : Nat) : Race :=
  match r.lookups[i]? with
  | none => r
  | some l => { r with
      world := (l.left.advance r.world).2
      lookups := r.lookups.set i (l.advance r.world)
      glimpses := r.glimpses ++ (l.glimpse? r.world).toList }

def turn : Turn → Race
  | .rebuild => { r with
      world := (r.rebuild.advance r.world).2
      rebuild := (r.rebuild.advance r.world).1
      asks := r.asks.advance r.world
      clears := r.clears + r.rebuild.clears }
  | .lookup i => r.look i
  | .begins space raw => { r with lookups := r.lookups ++ [.ofRaw r.world.settings space raw] }
  | .seeks k => { r with lookups := r.lookups ++ [.ofKey k] }
  | .clear => { r with
      world := ((reply idle .clearCache).run r.world).2
      clears := r.clears + 1 }
  | .pass now => { r with world := { r.world with clock := now } }

def run (ts : List Turn) : Race := ts.foldl turn r

def exchange? : Turn → Option Exchange
  | .rebuild => r.rebuild.exchange? r.world
  | _ => none

def trace : Race → List Turn → List Exchange
  | _, [] => []
  | r, t :: ts => (r.exchange? t).toList ++ (r.turn t).trace ts

def report? : Option Report := r.rebuild.result?.bind Except.toOption

def answer? (i : Nat) : Option (List GroupId) := r.lookups[i]?.bind (·.left.result?)

variable {r} {t : Turn} {ts us : List Turn} {i n : Nat} {E : Effect → Prop} {P : Motion → Prop}
  {front back : List Exchange} {x : Exchange} {l : Racer}

theorem result_of_report {report : Report} (h : r.report? = some report) :
    r.rebuild.result? = some (.ok report) := by
  unfold report? at h
  obtain ⟨result, done, h⟩ := Option.bind_eq_some_iff.1 h
  cases result with
  | error fault => cases h
  | ok report =>
    cases h
    exact done

theorem run_append : r.run (ts ++ us) = (r.run ts).run us := List.foldl_append

theorem look_none (h : r.lookups[i]? = none) : r.look i = r := by
  unfold look
  rw [h]

theorem look_some (h : r.lookups[i]? = some l) : r.look i = { r with
    world := (l.left.advance r.world).2
    lookups := r.lookups.set i (l.advance r.world)
    glimpses := r.glimpses ++ (l.glimpse? r.world).toList } := by
  unfold look
  rw [h]

theorem rebuild_turn (h : t ≠ .rebuild) : (r.turn t).rebuild = r.rebuild := by
  cases t with
  | rebuild => exact absurd rfl h
  | lookup i =>
    change (r.look i).rebuild = r.rebuild
    unfold look
    split <;> rfl
  | _ => rfl

theorem clears_look : (r.look i).clears = r.clears := by
  unfold look
  split <;> rfl

theorem clears_of_exchange (h : r.exchange? .rebuild = some ⟨.clearCache, ()⟩) :
    (r.turn .rebuild).clears = r.clears + 1 := by
  obtain ⟨w, _ | ⟨e, next⟩, asks⟩ := r
  · cases h
  · cases h
    rfl

theorem clears_le_turn : r.clears ≤ (r.turn t).clears := by
  cases t with
  | rebuild => exact Nat.le_add_right _ _
  | clear => exact Nat.le_succ _
  | lookup i => exact Nat.le_of_eq clears_look.symm
  | _ => exact Nat.le_refl _

theorem clears_le_run : r.clears ≤ (r.run ts).clears := by
  induction ts generalizing r with
  | nil => exact Nat.le_refl _
  | cons t ts ih => exact Nat.le_trans clears_le_turn ih

theorem glimpses_turn : r.glimpses ⊆ (r.turn t).glimpses := by
  cases t with
  | lookup i =>
    change r.glimpses ⊆ (r.look i).glimpses
    unfold look
    split
    · exact fun _ => id
    · exact List.subset_append_left _ _
  | _ => exact fun _ => id

theorem length_le_turn : r.lookups.length ≤ (r.turn t).lookups.length := by
  cases t with
  | lookup i =>
    change r.lookups.length ≤ (r.look i).lookups.length
    unfold look
    split
    · exact Nat.le_refl _
    · exact Nat.le_of_eq List.length_set.symm
  | begins space raw => exact List.length_append ▸ Nat.le_add_right _ _
  | seeks k => exact List.length_append ▸ Nat.le_add_right _ _
  | _ => exact Nat.le_refl _

theorem trace_done {a : Except Fault Report} (done : r.rebuild.result? = some a) :
    r.trace ts = [] ∧ (r.run ts).rebuild.result? = some a := by
  induction ts generalizing r with
  | nil => exact ⟨rfl, done⟩
  | cons t ts ih =>
    have quiet : r.exchange? t = none ∧ (r.turn t).rebuild.result? = some a := by
      by_cases h : t = .rebuild
      · subst h
        obtain ⟨w, _ | _, asks⟩ := r
        · exact ⟨rfl, done⟩
        · cases done
      · rw [rebuild_turn h]
        cases t with
        | rebuild => exact absurd rfl h
        | _ => exact ⟨rfl, done⟩
    rw [trace, quiet.1]
    exact ih quiet.2

theorem leads_trace {a : Except Fault Report} (done : (r.run ts).rebuild.result? = some a) :
    r.rebuild.Leads (r.trace ts) a := by
  induction ts generalizing r with
  | nil =>
    obtain ⟨w, _ | _, asks⟩ := r
    · exact ⟨rfl, Option.some.inj done⟩
    · cases done
  | cons t ts ih =>
    have rest := ih done
    by_cases h : t = .rebuild
    · subst h
      obtain ⟨w, _ | ⟨e, next⟩, asks⟩ := r
      · exact rest
      · exact ⟨_, _, rfl, rest⟩
    · rw [rebuild_turn h] at rest
      cases t with
      | rebuild => exact absurd rfl h
      | _ => exact rest

theorem split_trace (h : r.trace ts = front ++ x :: back) :
    ∃ before after, ts = before ++ .rebuild :: after ∧ r.trace before = front ∧
      (r.run before).rebuild.exchange? (r.run before).world = some x ∧
      ((r.run before).turn .rebuild).trace after = back := by
  induction ts generalizing r front with
  | nil => simp [trace] at h
  | cons t ts ih =>
    rw [trace] at h
    cases asked : r.exchange? t with
    | none =>
      rw [asked] at h
      obtain ⟨before, after, rfl, first, asks, rest⟩ := ih h
      exact ⟨t :: before, after, rfl, by rw [trace, asked, first]; rfl, asks, rest⟩
    | some y =>
      rw [asked] at h
      cases front with
      | nil =>
        obtain ⟨rfl, rest⟩ := List.cons.inj h
        cases t with
        | rebuild => exact ⟨[], ts, rfl, rfl, asked, rest⟩
        | _ => cases asked
      | cons z front =>
        obtain ⟨rfl, later⟩ := List.cons.inj h
        obtain ⟨before, after, rfl, first, asks, rest⟩ := ih later
        exact ⟨t :: before, after, rfl, by rw [trace, asked, first]; rfl, asks, rest⟩

theorem keeps {bound : Nat} {J : Race → Prop} (step : ∀ r t, r.clears < bound →
      (∀ x, r.exchange? t = some x → E x.effect) → J r → J (r.turn t))
    (few : (r.run ts).clears < bound) (hE : ∀ x ∈ r.trace ts, E x.effect) (hr : J r) :
    J (r.run ts) := by
  induction ts generalizing r with
  | nil => exact hr
  | cons t ts ih =>
    have fewer : r.clears < bound := Nat.lt_of_le_of_lt clears_le_run few
    refine ih few (fun x hx => hE x (List.mem_append_right _ hx))
      (step r t fewer (fun x hx => ?_) hr)
    exact hE x (List.mem_append_left _ (by rw [hx]; exact List.mem_singleton.2 rfl))

structure Permits (P : Motion → Prop) : Prop where
  looks : ∀ e, e.Looking → P (.reply e)
  clears : P (.reply .clearCache)
  passes : ∀ now, P (.clock now)

theorem moves_turn (permits : Permits P) (hP : ∀ x, r.exchange? t = some x → P (.reply x.effect)) :
    Moves P r.world (r.turn t).world := by
  cases t with
  | rebuild => exact Proc.moves_advance hP
  | lookup i =>
    change Moves P r.world (r.look i).world
    cases there : r.lookups[i]? with
    | none =>
      rw [look_none there]
      exact .refl
    | some l =>
      rw [look_some there]
      refine Proc.moves_advance fun x hx => permits.looks _ ?_
      have looks := l.looks
      cases left : l.left with
      | done ids => simp [left, Proc.exchange?] at hx
      | call e next =>
        rw [left] at looks hx
        cases hx
        exact looks.1
  | begins space raw => exact .refl
  | seeks k => exact .refl
  | clear => exact .one (m := .reply .clearCache) permits.clears
  | pass now => exact .one (m := .clock now) (permits.passes now)

theorem moves_run (permits : Permits P) (hP : ∀ x ∈ r.trace ts, P (.reply x.effect)) :
    Moves P r.world (r.run ts).world :=
  keeps (E := fun e => P (.reply e)) (J := fun v => Moves P r.world v.world)
    (fun _ _ _ hx moved => moved.trans (moves_turn permits hx)) (Nat.lt_succ_self _) hP .refl

theorem settings_run : (r.run ts).world.settings = r.world.settings :=
  (moves_run (P := fun _ => True) ⟨fun _ _ => trivial, trivial, fun _ => trivial⟩
    fun _ _ => trivial).same (f := World.settings) fun m w _ => (World.motion_frame m w).1

theorem ends_run (there : r.lookups[i]? = some l) (ends : l.left.Ends n) :
    ∃ l', (r.run ts).lookups[i]? = some l' ∧ l'.key = l.key ∧
      l'.left.Ends (n - ts.count (.lookup i)) := by
  induction ts generalizing r l n with
  | nil => exact ⟨l, there, rfl, ends⟩
  | cons t ts ih =>
    have appended (l' : Racer) : (r.lookups ++ [l'])[i]? = some l := by
      rw [List.getElem?_append_left (List.getElem?_eq_some_iff.1 there).1, there]
    by_cases turned : t = .lookup i
    · subst turned
      have next : (r.turn (.lookup i)).lookups[i]? = some (l.advance r.world) := by
        rw [turn, look_some there]
        exact List.getElem?_set_self (List.getElem?_eq_some_iff.1 there).1
      obtain ⟨l', there', key, ends'⟩ := ih next (ends.advance r.world)
      refine ⟨l', there', key, ?_⟩
      rwa [List.count_cons_self, Nat.add_comm, ← Nat.sub_sub]
    · have next : (r.turn t).lookups[i]? = some l := by
        cases t with
        | lookup j =>
          have other : j ≠ i := fun same => turned (congrArg Turn.lookup same)
          rw [turn]
          cases racing : r.lookups[j]? with
          | none =>
            rw [look_none racing]
            exact there
          | some l =>
            rw [look_some racing]
            exact (List.getElem?_set_ne other).trans there
        | begins space raw => exact appended _
        | seeks k => exact appended _
        | _ => exact there
      rw [List.count_cons_of_ne turned]
      exact ih next ends

end Race

end ClaimIndex
