import ClaimIndex.Proofs.Atomicity
import ClaimIndex.Proofs.Steps
import ClaimIndex.Proofs.Transcript

namespace ClaimIndex

namespace Proc

variable {α β σ : Type} {h : Handler σ} {E : Effect → Prop} {w : σ} {c : Effect × σ}

theorem Within.calls {p : Proc α} (hp : p.Within E) (hc : c ∈ p.calls h w) : E c.1 := by
  induction p generalizing w with
  | done a => exact (List.not_mem_nil hc).elim
  | call e next ih =>
    obtain hc | ⟨_, hc⟩ := hc
    · exact hp.1
    · exact ih _ (hp.2 _) hc

theorem calls_map (f : α → β) (p : Proc α) : (f <$> p).calls h w = p.calls h w := by
  rw [map_eq_pure_bind, calls_bind]
  exact List.append_nil _

theorem infix_calls (p : Proc α) (f : α → Proc β) : p.calls h w <:+: (p >>= f).calls h w := by
  rw [calls_bind]
  exact (List.prefix_append _ _).isInfix

theorem Yields.infix_calls {p : Proc α} {f : α → Proc β} {a : α} {v : σ} (hp : Yields h p w a v) :
    (f a).calls h v <:+: (p >>= f).calls h w := by
  rw [hp.calls_bind]
  exact (List.suffix_append _ _).isInfix

end Proc

namespace World

variable {w : World} {player : Player} {points : List Point}

def Unvisited (points : List Point) (w : World) : Prop :=
  ∀ waiting ∈ w.hooks, ∀ point ∈ points,
    waiting.1 ≠ .before point ∧ waiting.1 ≠ .after point

theorem Unvisited.uninterrupted {e : Effect} {point : Point} {down : e.Reply}
    (hw : w.Unvisited points) (risky : e.outage? = some (point, down)) (there : point ∈ points) :
    Uninterrupted player (Proc.ask e) w := by
  refine (List.append_nil _).trans (?_ : interruptions e w = [])
  unfold interruptions
  rw [risky]
  refine List.filter_eq_nil_iff.2 fun waiting hooked near => ?_
  obtain ⟨before, after⟩ := hw waiting hooked point there
  simp [before, after] at near

def peeked (w : World) : World := { w with slots := (w.slots.get Overlay.slot w.clock).2 }

theorem Unvisited.readOverlay (player : Player) (hw : w.Unvisited points)
    (there : .overlayGet ∈ points) :
    (handle player .readOverlay).run w =
      if .overlayGet ∈ w.failing then (.error (.storage "interim.get down"), w)
      else (.ok w.overlay?, w.peeked) :=
  handle_uninterrupted (e := .readOverlay) rfl (hw.uninterrupted rfl there)

end World

namespace Rebuild

open Proc (ask)

def Requests (e : Effect) : Prop :=
  Aside e ∨ Drafting e ∨ (e = .enter ∨ e = .leave) ∨ ∃ s c, e = .writeStore s c

theorem requests_publish :
    publish.run.Within fun e => Drafting e ∨ ∃ s c, e = .writeStore s c := by
  rw [publish_eq]
  exact Proc.within_bindAttempt (within_draft.mono fun _ => .inl) fun drafted =>
    Proc.within_bindAttempt
      (.ask (E := fun e => Drafting e ∨ ∃ s c, e = .writeStore s c) (.inr ⟨_, _, rfl⟩))
      fun _ => .pure

theorem requests_guarding {e : Effect} (he : Guarding e) : Requests e := .inl (.inl he)

theorem requests_attempt (s : Settings) (purge : Option Instant) :
    (attempt s purge).Within Requests := by
  rw [attempt, run_eq]
  refine .bind (.bind (within_lock.mono fun _ => requests_guarding) fun times => ?_)
    fun result => (within_conclude result).mono fun _ => requests_guarding
  cases times with
  | error fault => exact .pure
  | ok times =>
    refine .bind (requests_publish.mono fun _ he => .inr (he.imp id .inr)) fun published => ?_
    cases published with
    | error fault =>
      exact .bind (within_abandon.mono fun _ => requests_guarding) fun _ => .pure
    | ok commit =>
      exact .bind (within_unlock.mono fun _ => requests_guarding) fun _ =>
        .bind (within_settle.mono fun _ => .inl) fun _ => .pure

theorem requests_start (s : Settings) (purge : Option Instant) :
    (start s purge).Within Requests := by
  rw [start_eq]
  refine .bind (.ask (.inr (.inr (.inl (.inl rfl))))) fun entered => ?_
  split
  · exact .bind (requests_attempt s purge) fun _ =>
      .bind (.ask (.inr (.inr (.inl (.inr rfl))))) fun _ => .pure
  · exact .bind (.ask (requests_guarding trivial)) fun _ =>
      .bind (.ask (requests_guarding trivial)) fun _ => .pure

end Rebuild

namespace Operation

def sought? (w : World) : Operation → Option Key
  | lookup space raw | primary space raw =>
    if w.settings.accepts space then some (.ofRaw space raw) else none
  | lookupKey k => some k
  | _ => none

def rebuilds? : Operation → Option (Option Instant)
  | rebuild purge | rebuildSnapshot purge | execute (.rebuild purge) => some purge
  | _ => none

def Reads : Effect → Prop
  | .readStore _ | .readOverlay | .groups | .clearCache | .record (.lookup .filtered) => True
  | _ => False

variable {n : Nat} {op : Operation} {v : World}

inductive Purpose (n : Nat) (op : Operation) (v : World) (c : Effect × World) : Prop
  | lookup {k : Key} (sought : op.sought? v = some k)
    (asked : c ∈ (Lookup.ofKey k).calls (World.handle (World.play n)) v)
  | rebuild {purge : Option Instant} (rebuilds : op.rebuilds? = some purge)
    (asked : c ∈ (Rebuild.start v.settings purge).calls (World.handle (World.play n)) v)
  | merge {g : Group} {raws : List String} {w : World} (merges : op.IsMerge)
    (asked : c ∈ (Overlay.add g raws).calls (World.handle (World.play n)) w)
  | reads (reads : Reads c.1)

theorem calls_body {p : Proc Answer} (hp : op.body? v = some p) :
    op.calls n v = p.calls (World.handle (World.play n)) v := by
  rw [calls, hp]
  rfl

theorem purpose_of_mem {c : Effect × World} (hc : c ∈ op.calls n v) : Purpose n op v c := by
  have mapped {α : Type} {f : α → Answer} {p : Proc α} (hp : op.body? v = some (f <$> p)) :
      c ∈ p.calls (World.handle (World.play n)) v := by
    rwa [calls_body hp, Proc.calls_map] at hc
  have single {e : Effect} {f : e.Reply → Answer} (hp : op.body? v = some (f <$> Proc.ask e))
      (he : Reads e) : Purpose n op v c := by
    have only : c ∈ [(e, v)] := mapped hp
    rw [List.mem_singleton.1 only]
    exact .reads he
  have looked {space : Namespace} {raw : String}
      (sought : op.sought? v = if v.settings.accepts space then some (.ofRaw space raw) else none)
      (asked : c ∈ (Lookup.groups v.settings space raw).calls (World.handle (World.play n)) v) :
      Purpose n op v c := by
    unfold Lookup.groups at asked
    by_cases accepted : v.settings.accepts space = true
    · rw [if_pos accepted] at asked sought
      exact .lookup sought asked
    · rw [if_neg accepted] at asked
      have only : c ∈ [(.record (.lookup .filtered), v)] := asked
      rw [List.mem_singleton.1 only]
      exact .reads trivial
  cases op with
  | rebuild purge | rebuildSnapshot purge => exact .rebuild rfl (mapped rfl)
  | lookup space raw => exact looked rfl (mapped rfl)
  | primary space raw =>
    have asked := mapped (p := Lookup.primary v.settings space raw) rfl
    rw [Lookup.primary, Proc.calls_map] at asked
    exact looked rfl asked
  | lookupKey k => exact .lookup rfl (mapped rfl)
  | store g raws => exact .merge trivial (mapped rfl)
  | storeFor id raws =>
    rw [calls_body rfl, Proc.calls_bind] at hc
    obtain hc | hc := List.mem_append.1 hc
    · rw [List.mem_singleton.1 (show c ∈ [(.groups, v)] from hc)]
      exact .reads trivial
    · unfold addTo at hc
      split at hc
      · exact (List.not_mem_nil hc).elim
      · rw [Proc.calls_map] at hc
        exact .merge trivial hc
  | overlay => exact single (e := .readOverlay) rfl trivial
  | snapshot latest => exact single (e := .readStore latest) rfl trivial
  | keys => exact single (e := .readStore false) rfl trivial
  | execute task =>
    have asked := mapped (p := task.execute v.settings) rfl
    cases task with
    | rebuild purge =>
      rw [Task.execute, Proc.calls_bind] at asked
      exact .rebuild rfl ((List.mem_append.1 asked).resolve_right (List.not_mem_nil))
    | refreshStatistics groups => exact (List.not_mem_nil asked).elim
  | clearCache =>
    rw [calls_body rfl, Proc.calls_bind] at hc
    obtain hc | hc := List.mem_append.1 hc
    · rw [List.mem_singleton.1 (show c ∈ [(.clearCache, v)] from hc)]
      exact .reads trivial
    · exact (List.not_mem_nil hc).elim
  | _ => exact (List.not_mem_nil hc).elim

end Operation

end ClaimIndex
