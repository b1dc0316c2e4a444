import ClaimIndex.Proofs.Procedure

/-! Ways through a procedure.  Which answer a procedure comes to depends on the replies that it is
given alone, wherever they come from: from one state after the other, or from states that others
have changed meanwhile. -/

namespace ClaimIndex

structure Exchange where
  effect : Effect
  reply : effect.Reply

namespace Proc

variable {α β σ : Type} {trail : List Exchange}

def Leads : Proc α → List Exchange → α → Prop
  | done a, trail, b => trail = [] ∧ a = b
  | call e next, trail, b => ∃ r rest, trail = ⟨e, r⟩ :: rest ∧ (next r).Leads rest b

@[simp] theorem leads_pure {a b : α} : (pure a : Proc α).Leads trail b ↔ trail = [] ∧ a = b :=
  Iff.rfl

@[simp] theorem leads_ask {e : Effect} {r : e.Reply} :
    (ask e).Leads trail r ↔ trail = [⟨e, r⟩] := by
  constructor
  · rintro ⟨_, _, rfl, rfl, rfl⟩
    rfl
  · rintro rfl
    exact ⟨r, [], rfl, rfl, rfl⟩

theorem leads_bind {p : Proc α} {f : α → Proc β} {b : β} : (p >>= f).Leads trail b ↔
    ∃ front back a, trail = front ++ back ∧ p.Leads front a ∧ (f a).Leads back b := by
  change (p.bind f).Leads trail b ↔ _
  induction p generalizing trail with
  | done a =>
    constructor
    · exact fun h => ⟨[], trail, a, rfl, ⟨rfl, rfl⟩, h⟩
    · rintro ⟨_, back, _, rfl, ⟨rfl, rfl⟩, h⟩
      exact h
  | call e next ih =>
    constructor
    · rintro ⟨r, rest, rfl, h⟩
      obtain ⟨front, back, a, rfl, hp, hf⟩ := (ih r).1 h
      exact ⟨⟨e, r⟩ :: front, back, a, rfl, ⟨r, front, rfl, hp⟩, hf⟩
    · rintro ⟨_, back, a, rfl, ⟨r, front, rfl, hp⟩, hf⟩
      exact ⟨r, front ++ back, rfl, (ih r).2 ⟨front, back, a, rfl, hp, hf⟩⟩

theorem leads_map {p : Proc α} {f : α → β} {b : β} :
    (f <$> p).Leads trail b ↔ ∃ a, p.Leads trail a ∧ f a = b := by
  rw [map_eq_pure_bind, leads_bind]
  constructor
  · rintro ⟨front, _, a, rfl, hp, rfl, rfl⟩
    exact ⟨a, (List.append_nil front).symm ▸ hp, rfl⟩
  · rintro ⟨a, hp, rfl⟩
    exact ⟨trail, [], a, (List.append_nil trail).symm, hp, rfl, rfl⟩

theorem leads_bind_ok {x : Attempt α} {f : α → Attempt β} {b : β} :
    (x >>= f).run.Leads trail (.ok b) ↔ ∃ front back a,
      trail = front ++ back ∧ x.run.Leads front (.ok a) ∧ (f a).run.Leads back (.ok b) := by
  rw [ExceptT.run_bind, leads_bind]
  constructor
  · rintro ⟨front, back, r, rfl, hx, hf⟩
    cases r with
    | error e => cases hf.2
    | ok a => exact ⟨front, back, a, rfl, hx, hf⟩
  · rintro ⟨front, back, a, rfl, hx, hf⟩
    exact ⟨front, back, .ok a, rfl, hx, hf⟩

theorem Within.leads {E : Effect → Prop} {p : Proc α} {a : α} (hp : p.Within E)
    (h : p.Leads trail a) : ∀ x ∈ trail, E x.effect := by
  induction p generalizing trail with
  | done b =>
    obtain ⟨rfl, -⟩ := h
    exact fun x hx => (List.not_mem_nil hx).elim
  | call e next ih =>
    obtain ⟨r, rest, rfl, h⟩ := h
    intro x hx
    obtain rfl | hx := List.mem_cons.1 hx
    · exact hp.1
    · exact ih r (hp.2 r) h x hx

def exchanges (h : Handler σ) (p : Proc α) (w : σ) : List Exchange :=
  (p.calls h w).map fun c => ⟨c.1, ((h c.1).run c.2).1⟩

theorem leads_exchanges {h : Handler σ} {p : Proc α} {w : σ} :
    p.Leads (p.exchanges h w) ((p.run h).run w).1 := by
  induction p generalizing w with
  | done a => exact ⟨rfl, rfl⟩
  | call e next ih => exact ⟨_, _, rfl, ih _⟩

theorem Yields.leads {h : Handler σ} {p : Proc α} {w v : σ} {a : α} (hy : Yields h p w a v) :
    p.Leads (p.exchanges h w) a := by
  rw [← show ((p.run h).run w).1 = a from congrArg Prod.fst hy]
  exact leads_exchanges

end Proc

end ClaimIndex
