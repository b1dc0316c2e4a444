import ClaimIndex.Effect

namespace ClaimIndex.Proc

variable {α β σ : Type} {h : Handler σ}

def Yields (h : Handler σ) (p : Proc α) (w : σ) (a : α) (w' : σ) : Prop :=
  (p.run h).run w = (a, w')

@[simp] theorem yields_pure {a b : α} {w w' : σ} :
    Yields h (pure a) w b w' ↔ a = b ∧ w = w' := by
  simp only [Yields, run_pure, StateT.run_pure]
  exact Prod.mk.injEq ..  |>.to_iff

@[simp] theorem yields_ask {e : Effect} {r : e.Reply} {w w' : σ} :
    Yields h (ask e) w r w' ↔ (h e).run w = (r, w') := by
  simp [Yields]

@[simp] theorem yields_bind {p : Proc α} {f : α → Proc β} {w w' : σ} {b : β} :
    Yields h (p >>= f) w b w' ↔ ∃ a v, Yields h p w a v ∧ Yields h (f a) v b w' := by
  simp only [Yields, run_bind]
  constructor
  · intro hb
    exact ⟨_, _, rfl, hb⟩
  · rintro ⟨a, v, hp, hf⟩
    change ((f ((p.run h).run w).1).run h).run ((p.run h).run w).2 = _
    rw [hp]
    exact hf

theorem yields_map {p : Proc α} {f : α → β} {w w' : σ} {b : β} :
    Yields h (f <$> p) w b w' ↔ ∃ a, Yields h p w a w' ∧ f a = b := by
  rw [map_eq_pure_bind, yields_bind]
  simp only [yields_pure]
  constructor
  · rintro ⟨a, v, hp, rfl, rfl⟩
    exact ⟨a, hp, rfl⟩
  · rintro ⟨a, hp, rfl⟩
    exact ⟨a, w', hp, rfl, rfl⟩

theorem Yields.unique {p : Proc α} {w v v' : σ} {a b : α} (ha : Yields h p w a v)
    (hb : Yields h p w b v') : a = b ∧ v = v' :=
  Prod.mk.inj (ha.symm.trans hb)

theorem yields_bind_ok {x : Attempt α} {f : α → Attempt β} {w w' : σ} {b : β} :
    Yields h (x >>= f).run w (.ok b) w' ↔
      ∃ a v, Yields h x.run w (.ok a) v ∧ Yields h (f a).run v (.ok b) w' := by
  rw [ExceptT.run_bind, yields_bind]
  constructor
  · rintro ⟨r, v, hx, hf⟩
    cases r with
    | error e => simp at hf
    | ok a => exact ⟨a, v, hx, hf⟩
  · rintro ⟨a, v, hx, hf⟩
    exact ⟨.ok a, v, hx, hf⟩

theorem yields_lift {e : Effect} {r : e.Reply} {w w' : σ} :
    Yields h (ask e : Attempt e.Reply).run w (.ok r) w' ↔ (h e).run w = (r, w') := by
  rw [show (ask e : Attempt e.Reply).run = Except.ok <$> ask e from rfl, yields_map]
  constructor
  · rintro ⟨r', hr, e⟩
    cases e
    exact yields_ask.1 hr
  · exact fun hr => ⟨r, yields_ask.2 hr, rfl⟩

theorem yields_pure_ok {a b : α} {w w' : σ} :
    Yields h (pure a : Attempt α).run w (.ok b) w' ↔ a = b ∧ w = w' := by
  rw [ExceptT.run_pure, yields_pure, Except.ok.injEq]

theorem not_yields_throw {f : Fault} {b : α} {w w' : σ} :
    ¬ Yields h (throw f : Attempt α).run w (.ok b) w' := by
  intro hy
  have := congrArg Prod.fst hy
  change Except.error f = Except.ok b at this
  cases this

def Within (E : Effect → Prop) : Proc α → Prop
  | done _ => True
  | call e next => E e ∧ ∀ r, (next r).Within E

variable {E : Effect → Prop}

theorem Within.pure {a : α} : (pure a : Proc α).Within E := trivial

theorem Within.ask {e : Effect} (he : E e) : (ask e).Within E := ⟨he, fun _ => trivial⟩

theorem Within.bind {p : Proc α} {f : α → Proc β} (hp : p.Within E)
    (hf : ∀ a, (f a).Within E) : (p >>= f).Within E := by
  change (p.bind f).Within E
  induction p with
  | done a => exact hf a
  | call e next ih => exact ⟨hp.1, fun r => ih r (hp.2 r)⟩

theorem Within.map {p : Proc α} (f : α → β) (hp : p.Within E) : (f <$> p).Within E := by
  rw [map_eq_pure_bind]
  exact hp.bind fun _ => trivial

theorem Within.mono {F : Effect → Prop} (hEF : ∀ e, E e → F e) {p : Proc α}
    (hp : p.Within E) : p.Within F := by
  induction p with
  | done a => trivial
  | call e next ih => exact ⟨hEF e hp.1, fun r => ih r (hp.2 r)⟩

theorem within_bindAttempt {x : Attempt α} {f : α → Attempt β} (hx : x.run.Within E)
    (hf : ∀ a, (f a).run.Within E) : (x >>= f).run.Within E := by
  rw [ExceptT.run_bind]
  refine hx.bind fun r => ?_
  cases r with
  | error e => trivial
  | ok a => exact hf a

theorem within_forM {f : α → Attempt PUnit} (as : List α) (hf : ∀ a, (f a).run.Within E) :
    (as.forM f).run.Within E := by
  induction as with
  | nil => exact .pure
  | cons a as ih => exact within_bindAttempt (hf a) fun _ => ih

theorem Within.keeps {I : σ → Prop} (hI : ∀ e, E e → ∀ w, I w → I ((h e).run w).2)
    {p : Proc α} (hp : p.Within E) {w : σ} (hw : I w) : I ((p.run h).run w).2 := by
  induction p generalizing w with
  | done a => exact hw
  | call e next ih => exact ih _ (hp.2 _) (hI e hp.1 w hw)

theorem Within.keeps_yields {I : σ → Prop} (hI : ∀ e, E e → ∀ w, I w → I ((h e).run w).2)
    {p : Proc α} (hp : p.Within E) {w w' : σ} {a : α} (hy : Yields h p w a w') (hw : I w) :
    I w' := by
  have hk := hp.keeps hI hw
  rwa [show (p.run h).run w = (a, w') from hy] at hk

def calls (h : Handler σ) : Proc α → σ → List (Effect × σ)
  | done _, _ => []
  | call e next, w => (e, w) :: (next ((h e).run w).1).calls h ((h e).run w).2

theorem calls_bind {p : Proc α} {f : α → Proc β} {w : σ} :
    (p >>= f).calls h w =
      p.calls h w ++ (f ((p.run h).run w).1).calls h ((p.run h).run w).2 := by
  change (p.bind f).calls h w = _
  induction p generalizing w with
  | done a => rfl
  | call e next ih =>
    simp only [bind, calls, List.cons_append]
    rw [ih]
    rfl

theorem Yields.calls_bind {p : Proc α} {f : α → Proc β} {w v : σ} {a : α}
    (hp : Yields h p w a v) : (p >>= f).calls h w = p.calls h w ++ (f a).calls h v := by
  rw [Proc.calls_bind, show (p.run h).run w = (a, v) from hp]

theorem mem_calls_bind {p : Proc α} {f : α → Proc β} {w : σ} {c : Effect × σ} :
    c ∈ (p >>= f).calls h w ↔
      c ∈ p.calls h w ∨ ∃ a v, Yields h p w a v ∧ c ∈ (f a).calls h v := by
  rw [calls_bind, List.mem_append]
  refine or_congr_right ⟨fun hc => ⟨_, _, rfl, hc⟩, ?_⟩
  rintro ⟨a, v, hp, hc⟩
  rwa [show (p.run h).run w = (a, v) from hp]

end ClaimIndex.Proc
