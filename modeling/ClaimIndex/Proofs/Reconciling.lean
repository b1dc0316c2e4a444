import ClaimIndex.Proofs.Purging

namespace ClaimIndex.Rebuild

open Proc (ask Yields yields_bind yields_ask yields_pure mem_calls_bind)

variable {σ : Type} {h : Handler σ} {s : Settings} {purge : Option Instant} {w v u : σ}
  {bound : Instant} {commit : Commit} {asked taken left rounds : Nat} {calls : List (Effect × σ)}
  {found : Except Fault (Option Overlay.Outcome)} {report : Report}

inductive Round (h : Handler σ) (bound : Instant) (rounds : Nat) (w : σ)
    (found : Except Fault (Option Overlay.Outcome)) (calls : List (Effect × σ)) : Prop
  | unread {fault : Fault} (answer : ((h .readOverlay).run w).1 = .error fault)
    (ends : found = .error fault) (there : (.readOverlay, w) ∈ calls)
  | empty (answer : ((h .readOverlay).run w).1 = .ok none) (ends : found = .ok (some .empty))
    (there : (.readOverlay, w) ∈ calls)
  | retained {entry : Overlay.Entry} (answer : ((h .readOverlay).run w).1 = .ok (some entry))
    (late : ¬ entry.stamp ≤ bound) (ends : found = .ok (some (.retained entry.stamp)))
    (there : (.readOverlay, w) ∈ calls)
  | undropped {entry : Overlay.Entry} {x : σ} {fault : Fault}
    (answer : ((h (.dropOverlay entry.stamp)).run x).1 = .error fault)
    (ends : found = .error fault) (there : (.dropOverlay entry.stamp, x) ∈ calls)
  | purged {entry : Overlay.Entry} {x : σ}
    (answer : ((h (.dropOverlay entry.stamp)).run x).1 = .ok true)
    (ends : found = .ok (some (.purged entry.keys.size)))
    (there : (.dropOverlay entry.stamp, x) ∈ calls)
  | missed {entry : Overlay.Entry} {x y v : σ}
    (answer : ((h .readOverlay).run w).1 = .ok (some entry)) (early : entry.stamp ≤ bound)
    (miss : ((h (.dropOverlay entry.stamp)).run x).1 = .ok false)
    (again : (Overlay.reconcile bound rounds).run.Yields h y found v)
    (whole : calls = (.readOverlay, w) :: (.dropOverlay entry.stamp, x) ::
      (Overlay.reconcile bound rounds).run.calls h y)

theorem round_reconcile (hy : (Overlay.reconcile bound (rounds + 1)).run.Yields h w found v) :
    Round h bound rounds w found ((Overlay.reconcile bound (rounds + 1)).run.calls h w) := by
  rw [Overlay.reconcile, ExceptT.run_bind] at hy ⊢
  obtain ⟨read, x, hread, hy⟩ := yields_bind.1 hy
  have answer := congrArg Prod.fst (yields_ask.1 hread)
  have reading : Overlay.current.run.calls h w = [(.readOverlay, w)] := rfl
  rw [hread.calls_bind, reading]
  cases read with
  | error fault => exact .unread answer (yields_pure.1 hy).1.symm (.head _)
  | ok held =>
    cases held with
    | none => exact .empty answer (yields_pure.1 hy).1.symm (.head _)
    | some entry =>
      dsimp only at hy ⊢
      by_cases early : entry.stamp ≤ bound
      · rw [if_pos early] at hy ⊢
        rw [ExceptT.run_bind] at hy ⊢
        obtain ⟨dropped, y, hdrop, hy⟩ := yields_bind.1 hy
        have dropping := congrArg Prod.fst (yields_ask.1 hdrop)
        have drops : (ExceptT.mk (ask (.dropOverlay entry.stamp)) : Attempt Bool).run.calls h x =
          [(.dropOverlay entry.stamp, x)] := rfl
        rw [hdrop.calls_bind, drops]
        cases dropped with
        | error fault => exact .undropped dropping (yields_pure.1 hy).1.symm (.tail _ (.head _))
        | ok gone =>
          cases gone with
          | true => exact .purged dropping (yields_pure.1 hy).1.symm (.tail _ (.head _))
          | false => exact .missed answer early dropping hy rfl
      · rw [if_neg early] at hy
        exact .retained answer early (yields_pure.1 hy).1.symm (.head _)

inductive Ends (h : Handler σ) (bound : Instant) (calls : List (Effect × σ)) :
    Except Fault (Option Overlay.Outcome) → Prop
  | unread {z : σ} {fault : Fault} (there : (.readOverlay, z) ∈ calls)
    (answer : ((h .readOverlay).run z).1 = .error fault) : Ends h bound calls (.error fault)
  | undropped {z : σ} {stamp : Instant} {fault : Fault} (there : (.dropOverlay stamp, z) ∈ calls)
    (answer : ((h (.dropOverlay stamp)).run z).1 = .error fault) : Ends h bound calls (.error fault)
  | empty {z : σ} (there : (.readOverlay, z) ∈ calls)
    (answer : ((h .readOverlay).run z).1 = .ok none) : Ends h bound calls (.ok (some .empty))
  | purged {z : σ} {stamp : Instant} {keys : Nat} (there : (.dropOverlay stamp, z) ∈ calls)
    (answer : ((h (.dropOverlay stamp)).run z).1 = .ok true) :
    Ends h bound calls (.ok (some (.purged keys)))
  | retained {z : σ} {entry : Overlay.Entry} (there : (.readOverlay, z) ∈ calls)
    (answer : ((h .readOverlay).run z).1 = .ok (some entry)) (late : ¬ entry.stamp ≤ bound) :
    Ends h bound calls (.ok (some (.retained entry.stamp)))
  | exhausted : Ends h bound calls (.ok none)

theorem Ends.mono {more : List (Effect × σ)} (ends : Ends h bound calls found)
    (sub : calls ⊆ more) : Ends h bound more found := by
  cases ends with
  | unread there answer => exact .unread (sub there) answer
  | undropped there answer => exact .undropped (sub there) answer
  | empty there answer => exact .empty (sub there) answer
  | purged there answer => exact .purged (sub there) answer
  | retained there answer late => exact .retained (sub there) answer late
  | exhausted => exact .exhausted

theorem ends_reconcile (hy : (Overlay.reconcile bound rounds).run.Yields h w found v) :
    Ends h bound ((Overlay.reconcile bound rounds).run.calls h w) found := by
  induction rounds generalizing w v with
  | zero =>
    obtain ⟨rfl, -⟩ := yields_pure.1 hy
    exact .exhausted
  | succ rounds ih =>
    cases round_reconcile hy with
    | unread answer ends there => exact ends ▸ .unread there answer
    | empty answer ends there => exact ends ▸ .empty there answer
    | retained answer late ends there => exact ends ▸ .retained there answer late
    | undropped answer ends there => exact ends ▸ .undropped there answer
    | purged answer ends there => exact ends ▸ .purged there answer
    | missed answer early miss again whole =>
      rw [whole]
      exact (ih again).mono fun _ hc => .tail _ (.tail _ hc)

theorem misses_of_exhausted (rounds : Nat)
    (hy : (Overlay.reconcile bound (rounds + 2)).run.Yields h w (.ok none) v) :
    ∃ z z' z'' entry again,
      [(.readOverlay, z), (.dropOverlay entry.stamp, z'), (.readOverlay, z'')].Sublist
        ((Overlay.reconcile bound (rounds + 2)).run.calls h w) ∧
      ((h .readOverlay).run z).1 = .ok (some entry) ∧ entry.stamp ≤ bound ∧
      ((h (.dropOverlay entry.stamp)).run z').1 = .ok false ∧
      ((h .readOverlay).run z'').1 = .ok (some again) := by
  cases round_reconcile hy with
  | missed answer early miss again whole =>
    cases round_reconcile again with
    | missed answer' _ _ _ whole' =>
      refine ⟨_, _, _, _, _, ?_, answer, early, miss, answer'⟩
      rw [whole, whole']
      exact .cons_cons _ (.cons_cons _ (.cons_cons _ (List.nil_sublist _)))
    | _ => rename_i ends _; cases ends
  | _ => rename_i ends _; cases ends

theorem overlay_of_settle (hy : (settle s commit bound asked taken left).Yields h w report v) :
    ∃ z found z', (touch s).Yields h w () z ∧
      (Overlay.reconcile bound Rebuild.rounds).run.Yields h z found z' ∧
      report.overlay = found.toOption.join := by
  obtain ⟨outcome, _, followed, rfl, -⟩ := yields_settle hy
  obtain ⟨z, z', _, found, touched, looked, responded, -⟩ := yields_afterCommit followed
  exact ⟨z, found, z', touched, looked, outcome_of_respond responded⟩

def Following (found : Except Fault (Option Overlay.Outcome)) (e : Effect) : Prop :=
  ∀ p, e = .enqueue (.rebuild p) → p = none ∧ ∃ stamp, found = .ok (some (.retained stamp))

theorem Guarding.following {e : Effect} (he : Guarding e) : Following found e := by
  rintro p rfl
  exact he.elim

theorem following_enqueue {task : Task} (step : SideEffect) {done : Proc Unit}
    (follows : Following found (.enqueue task)) (hdone : done.Within Guarding) :
    (enqueue task step done).Within (Following found) := by
  refine .bind (.ask follows) fun taken => ?_
  cases taken with
  | error fault => exact (hushed_sideEffectFailed step).mono fun _ he => he.1.following
  | ok _ => exact hdone.mono fun _ => Guarding.following

theorem following_respond : (respond found).Within (Following found) := by
  have recorded (event : Metrics.Event) : (ask (.record event)).Within (Following found) :=
    .ask (Guarding.following trivial)
  cases found with
  | error fault =>
    exact .bind ((hushed_sideEffectFailed _).mono fun _ he => he.1.following) fun _ => .pure
  | ok ends =>
    obtain none | (empty | keys | stamp) := ends
    · exact .pure
    · exact .pure
    · exact .bind (recorded _) fun _ => .pure
    · refine .bind (recorded _) fun _ =>
        .bind (following_enqueue _ ?_ (.ask trivial)) fun _ => .pure
      rintro p ⟨⟩
      exact ⟨rfl, stamp, rfl⟩

theorem following_announce (difference : Difference) :
    (announce difference).Within (Following found) := by
  refine .bind ((within_notifyAll _).mono fun _ => Guarding.following) fun _ => ?_
  split
  · exact .pure
  · exact following_enqueue _ (by rintro p ⟨⟩) .pure

theorem retained_of_enqueue {p : Option Instant}
    (hc : (.enqueue (.rebuild p), u) ∈ (settle s commit bound asked taken left).calls h w) :
    p = none ∧ ∃ z stamp z', (touch s).Yields h w () z ∧
      (Overlay.reconcile bound Rebuild.rounds).run.Yields h z
        (.ok (some (.retained stamp))) z' := by
  have aside {e : Effect} (he : Guarding e) (same : e = .enqueue (.rebuild p)) : False := by
    subst same
    exact he
  rw [settle, afterCommit_eq, reconcile_eq] at hc
  obtain hc | ⟨_, _, _, hc⟩ := mem_calls_bind.1 hc
  swap
  · have counting {r : Report} {x y : Effect} (hx : Guarding x) (hy : Guarding y) :
        (do let _ ← ask x; let _ ← ask y; return r : Proc Report).Within Guarding :=
      .bind (.ask hx) fun _ => .bind (.ask hy) fun _ => .pure
    exact (aside ((counting (x := .record _) (y := .record _) trivial trivial).calls hc) rfl).elim
  obtain hc | ⟨_, z, touched, hc⟩ := mem_calls_bind.1 hc
  · exact (aside (within_touch.calls hc) rfl).elim
  obtain hc | ⟨outcome, _, reconciled, hc⟩ := mem_calls_bind.1 hc
  · obtain hc | ⟨found, z', looked, hc⟩ := mem_calls_bind.1 hc
    · exact ((sweeping_overlay_reconcile bound rounds).calls hc).elim
    · obtain ⟨rfl, stamp, rfl⟩ := following_respond.calls hc p rfl
      exact ⟨rfl, z, stamp, z', touched, looked⟩
  · obtain hc | ⟨_, _, _, hc⟩ := mem_calls_bind.1 hc
    · have follows : Following (.ok none) (.enqueue (.rebuild p)) :=
        (following_announce _).calls hc
      obtain ⟨-, stamp, bad⟩ := follows p rfl
      cases bad
    · exact (List.not_mem_nil hc).elim

theorem Publishes.infix_reconcile (purge : Option Instant) {released z : σ} {begun : Instant}
    (published : Publishes h s w commit asked taken left begun released)
    (touched : (touch s).Yields h released () z) :
    (Overlay.reconcile (purge.getD begun) Rebuild.rounds).run.calls h z <:+:
      (start s purge).calls h w := by
  refine .trans ?_ published.infix_calls
  rw [settle, afterCommit_eq, reconcile_eq]
  refine .trans ?_ (Proc.infix_calls _ _)
  refine .trans ?_ touched.infix_calls
  exact (Proc.infix_calls _ _).trans (Proc.infix_calls _ _)

end ClaimIndex.Rebuild
