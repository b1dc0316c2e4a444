import ClaimIndex.Proofs.Race
import ClaimIndex.Proofs.Serving
import ClaimIndex.Proofs.Sweeping

/-! Lookups that race a rebuild.  An answer is cached only in the generation in which its lookup
began to read, so a clear takes with it whatever was read before, cached or not. -/

namespace ClaimIndex

open World (Motion Moves idle reply)

theorem Proc.advance_ask {α : Type} {e : Effect} {f : e.Reply → Proc α} {w v : World} {a : e.Reply}
    (h : (reply idle e).run w = (a, v)) : (ask e >>= f).advance w = (f a, v) := by
  change (f ((reply idle e).run w).1, ((reply idle e).run w).2) = _
  rw [h]

namespace Lookup

open Proc (ask)

def tell (source : LookupSource) (ids : List GroupId) : Proc (List GroupId) := do
  ask (.record (.lookup source))
  return ids

def keep (k : Key) (generation : UInt64) (source : LookupSource) (ids : List GroupId) :
    Proc (List GroupId) := do
  discard <| ask (.cache generation k ids)
  tell source ids

def stored (k : Key) (generation : UInt64) :
    Except Fault (Option Claimants) → Proc (List GroupId)
  | .ok found => keep k generation .store ((found.map Claimants.ids).getD [])
  | .error _ => do
    ask (.report (.storeLookupFailed k))
    tell .degraded []

def overlaid (k : Key) (generation : UInt64) : Except Fault (Option GroupId) → Proc (List GroupId)
  | .ok (some id) => keep k generation .overlay [id]
  | .ok none => fromStore k (some generation)
  | .error _ => do
    ask (.report (.overlayLookupFailed k))
    fromStore k none

def dated (k : Key) (generation : UInt64) : Proc (List GroupId) :=
  (Overlay.lookup k).run >>= overlaid k generation

def cached (k : Key) : Option (List GroupId) → Proc (List GroupId)
  | some ids => tell .cache ids
  | none => ask .generation >>= dated k

theorem fromStore_eq (k : Key) (generation : UInt64) :
    fromStore k (some generation) = ask (.readKey k) >>= stored k generation := by
  refine congrArg (ask (.readKey k) >>= ·) (funext fun found => ?_)
  cases found <;> rfl

theorem ofKey_eq (k : Key) : ofKey k = ask (.cached k) >>= cached k := by
  refine congrArg (ask (.cached k) >>= ·) (funext fun found => ?_)
  cases found with
  | some ids => rfl
  | none =>
    refine congrArg (ask .generation >>= ·) (funext fun generation => ?_)
    refine congrArg ((Overlay.lookup k).run >>= ·) (funext fun read => ?_)
    obtain fault | _ | id := read <;> rfl

theorem ends_fromStore (k : Key) (generation : Option UInt64) :
    (fromStore k generation).Ends 3 := by
  cases generation with
  | none =>
    rintro (fault | found)
    · exact fun _ _ => trivial
    · exact fun _ => trivial
  | some generation =>
    rw [fromStore_eq]
    rintro (fault | found) <;> exact fun _ _ => trivial

theorem ends_ofKey (k : Key) : (ofKey k).Ends 7 := by
  rw [ofKey_eq]
  rintro (_ | ids)
  · intro generation
    rintro (fault | entry)
    · exact fun _ => ends_fromStore k none
    · have ends :
          (overlaid k generation (.ok (entry.bind fun entry => entry.keys[k]?))).Ends 4 := by
        cases entry.bind fun entry => entry.keys[k]? with
        | none => exact (ends_fromStore k (some generation)).mono (by omega)
        | some id => exact fun _ _ => trivial
      exact ends
  · exact fun _ => trivial

theorem ends_groups (s : Settings) (space : Namespace) (raw : String) :
    (groups s space raw).Ends 7 := by
  unfold groups
  split
  · exact ends_ofKey _
  · exact fun _ => trivial

theorem advance_dated (k : Key) (generation : UInt64) (w : World) :
    (dated k generation).advance w =
      (overlaid k generation (.ok (w.overlay?.bind fun entry => entry.keys[k]?)), w.peeked) := rfl

end Lookup

theorem generation_inj {base : UInt64} {m n : Nat} (hm : m < 2 ^ 64) (hn : n < 2 ^ 64)
    (h : base + .ofNat m = base + .ofNat n) : m = n := by
  have same := congrArg UInt64.toNat (UInt64.add_right_inj base |>.1 h)
  rwa [UInt64.toNat_ofNat_of_lt' hm, UInt64.toNat_ofNat_of_lt' hn] at same

def Effect.Aloof : Effect → Prop
  | readKey _ | record (.lookup _) | report _ => True
  | _ => False

/-- What is left of a lookup of a key.  Answers given before the last of `clears` clears are out of
date and will not be cached; the other ones, and those of a trusted lookup, are among `G`. -/
inductive Stage (base : UInt64) (clears : Nat) (trust : Prop) (G : List GroupId → Prop) (k : Key) :
    Proc (List GroupId) → Prop
  | begun : Stage base clears trust G k (Lookup.ofKey k)
  | missed : Stage base clears trust G k (Proc.ask .generation >>= Lookup.dated k)
  | dated {m : Nat} (past : m ≤ clears) :
    Stage base clears trust G k (Lookup.dated k (base + .ofNat m))
  | sought {m : Nat} (past : m ≤ clears) :
    Stage base clears trust G k (Lookup.fromStore k (some (base + .ofNat m)))
  | keeping {m : Nat} {source : LookupSource} {ids : List GroupId} (past : m ≤ clears)
    (good : m = clears ∨ trust → G ids) :
    Stage base clears trust G k (Lookup.keep k (base + .ofNat m) source ids)
  | told {source : LookupSource} {ids : List GroupId} (good : trust → G ids) :
    Stage base clears trust G k (Lookup.tell source ids)
  | done {ids : List GroupId} (good : trust → G ids) : Stage base clears trust G k (.done ids)
  | aloof {p : Proc (List GroupId)} (doubted : ¬ trust) (aloof : p.Within Effect.Aloof) :
    Stage base clears trust G k p

namespace Stage

variable {base : UInt64} {clears clears' : Nat} {trust : Prop} {G : Key → List GroupId → Prop}
  {k : Key} {p : Proc (List GroupId)} {w : World}

theorem later {G G' : List GroupId → Prop} (h : Stage base clears trust G k p)
    (past : clears ≤ clears') (wider : clears' = clears ∨ trust → ∀ ids, G ids → G' ids) :
    Stage base clears' trust G' k p := by
  cases h with
  | begun => exact .begun
  | missed => exact .missed
  | dated earlier => exact .dated (Nat.le_trans earlier past)
  | sought earlier => exact .sought (Nat.le_trans earlier past)
  | keeping earlier good =>
    refine .keeping (Nat.le_trans earlier past) ?_
    rintro (rfl | trusted)
    · obtain rfl := Nat.le_antisymm past earlier
      exact wider (.inl rfl) _ (good (.inl rfl))
    · exact wider (.inr trusted) _ (good (.inr trusted))
  | told good => exact .told fun trusted => wider (.inr trusted) _ (good trusted)
  | done good => exact .done fun trusted => wider (.inr trusted) _ (good trusted)
  | aloof doubted aloof => exact .aloof doubted aloof

theorem advance (h : Stage base clears trust (G k) k p)
    (generation : w.cache.generation = base + .ofNat clears) (few : clears < 2 ^ 64)
    (cached : ∀ e ∈ w.cache.entries, G e.1 e.2)
    (overlaid : ∀ next id, p = .call .readOverlay next →
      (w.overlay?.bind fun entry => entry.keys[k]?) = some id → G k [id])
    (stored : ∀ found, (w.store.get w.files k).1 = .ok found →
      G k ((found.map Claimants.ids).getD []))
    (served : trust → ∃ found, (w.store.get w.files k).1 = .ok found) :
    Stage base clears trust (G k) k (p.advance w).1 ∧
      (p.advance w).2.cache.generation = w.cache.generation ∧
      ∀ e ∈ (p.advance w).2.cache.entries, G e.1 e.2 := by
  cases h with
  | begun =>
    rw [Lookup.ofKey_eq]
    cases hit : w.cache.find? k with
    | some ids =>
      rw [Proc.advance_ask (World.reply_cached_some hit)]
      have good : G k ids := cached _ (Cache.mem_of_find? hit)
      refine ⟨.told fun _ => good, rfl, fun e he => ?_⟩
      obtain rfl | he := Cache.mem_touch he
      · exact good
      · exact cached e he
    | none =>
      rw [Proc.advance_ask (World.reply_cached_none hit)]
      exact ⟨.missed, rfl, cached⟩
  | missed =>
    rw [Proc.advance_ask (e := .generation) (a := w.cache.generation) (v := w) rfl, generation]
    exact ⟨.dated (Nat.le_refl _), generation.symm ▸ rfl, cached⟩
  | dated past =>
    rw [Lookup.advance_dated]
    cases hit : w.overlay?.bind fun entry => entry.keys[k]? with
    | some id => exact ⟨.keeping past fun _ => overlaid _ id rfl hit, rfl, cached⟩
    | none => exact ⟨.sought past, rfl, cached⟩
  | sought past =>
    rw [Lookup.fromStore_eq]
    cases got : w.store.get w.files k with
    | mk answer store =>
    have replied : (reply idle (.readKey k)).run w = (answer, { w with store }) := by
      change ((w.store.get w.files k).1, { w with store := (w.store.get w.files k).2 }) = _
      rw [got]
    rw [Proc.advance_ask replied]
    rw [got] at stored served
    cases answer with
    | ok found => exact ⟨.keeping past fun _ => stored found rfl, rfl, cached⟩
    | error fault =>
      have doubted : ¬ trust := fun trusted => by
        obtain ⟨_, answered⟩ := served trusted
        cases answered
      exact ⟨.aloof doubted ⟨trivial, fun _ => ⟨trivial, fun _ => trivial⟩⟩, rfl, cached⟩
  | keeping past good =>
    rename_i m source ids
    have kept : ((Lookup.keep k (base + .ofNat m) source ids).advance w).2 =
      { w with cache := (w.cache.putIf (base + .ofNat m) k ids).2 } := rfl
    rw [kept]
    refine ⟨.told fun trusted => good (.inr trusted), Cache.generation_putIf, fun e he => ?_⟩
    obtain ⟨lasts, rfl⟩ | he := Cache.mem_putIf he
    · -- the generation still lasts, so the answer is no older than the last clear
      have same : clears = m := generation_inj few (Nat.lt_of_le_of_lt past few)
        (generation.symm.trans lasts)
      exact good (.inl same.symm)
    · exact cached e he
  | told good => exact ⟨.done good, rfl, cached⟩
  | done good => exact ⟨.done good, rfl, cached⟩
  | aloof doubted aloof =>
    cases p with
    | done ids => exact ⟨.done fun trusted => absurd trusted doubted, rfl, cached⟩
    | call e next =>
      have same : ((reply idle e).run w).2.cache = w.cache := by
        have he := aloof.1
        cases e with
        | readKey | record | report => rfl
        | _ => exact he.elim
      refine ⟨.aloof doubted (aloof.2 _), congrArg Cache.generation same, ?_⟩
      intro e he
      rw [show (Proc.advance (.call _ next) w).2.cache = w.cache from same] at he
      exact cached e he

theorem result {ids : List GroupId} {G : List GroupId → Prop} (h : Stage base clears trust G k p)
    (trusted : trust) (done : p.result? = some ids) : G ids := by
  cases h with
  | done good =>
    cases done
    exact good trusted
  | aloof doubted => exact absurd trusted doubted
  | begun | missed | dated | sought | keeping | told => exact nomatch done

end Stage

theorem Rebuild.Requests.cache {e : Effect} (he : Rebuild.Requests e) (w : World) :
    e = .clearCache ∨
      (∀ next : e.Reply → Proc (Except Fault Report), (Proc.call e next).clears = 0) ∧
      ((reply idle e).run w).2.cache = w.cache := by
  cases e with
  | clearCache => exact .inl rfl
  | cached | cache | generation => simp [Requests, Aside, Guarding, Drafting] at he
  | enqueue task =>
    obtain ⟨tasks, left⟩ := World.exists_tasks idle task w
    exact .inr ⟨fun _ => rfl, by rw [left]⟩
  | _ => exact .inr ⟨fun _ => rfl, rfl⟩

namespace Race

variable {base : UInt64} {trust : Nat → Prop} {G G' : Key → List GroupId → Prop} {r v : Race}
  {t : Turn} {ts : List Turn}

/-- The cache and the lookups under way know of no answers but those in `G`, and of older ones that
will not be cached. -/
structure Sound (base : UInt64) (trust : Nat → Prop) (G : Key → List GroupId → Prop) (r : Race) :
    Prop where
  generation : r.world.cache.generation = base + .ofNat r.clears
  cached : ∀ e ∈ r.world.cache.entries, G e.1 e.2
  stages : ∀ i l, r.lookups[i]? = some l → Stage base r.clears (trust i) (G l.key) l.key l.left

namespace Sound

theorem wider (h : r.Sound base trust G) (hG : ∀ k ids, G k ids → G' k ids) :
    r.Sound base trust G' where
  generation := h.generation
  cached e he := hG _ _ (h.cached e he)
  stages i l there := (h.stages i l there).later (Nat.le_refl _) fun _ => hG l.key

theorem same (h : r.Sound base trust G) (lookups : v.lookups = r.lookups)
    (clears : v.clears = r.clears) (cache : v.world.cache = r.world.cache) :
    v.Sound base trust G where
  generation := by rw [cache, clears, h.generation]
  cached := by rw [cache]; exact h.cached
  stages := by rw [lookups, clears]; exact h.stages

theorem cleared (h : r.Sound base trust G) (hG : (∃ i, trust i) → ∀ k ids, G k ids → G' k ids)
    (lookups : v.lookups = r.lookups) (clears : v.clears = r.clears + 1)
    (cache : v.world.cache = r.world.cache.clear) : v.Sound base trust G' where
  generation := by
    rw [cache, clears, UInt64.ofNat_add, ← UInt64.add_assoc, ← h.generation]
    rfl
  cached := by
    rw [cache]
    nofun
  stages i l there := by
    rw [lookups] at there
    rw [clears]
    -- whatever was read before is one clear too old now
    refine (h.stages i l there).later (Nat.le_succ _) ?_
    rintro (same | trusted)
    · omega
    · exact hG ⟨i, trusted⟩ l.key

theorem enter (h : r.Sound base trust G) {l : Racer}
    (stage : Stage base r.clears (trust r.lookups.length) (G l.key) l.key l.left) :
    Sound base trust G { r with lookups := r.lookups ++ [l] } where
  generation := h.generation
  cached := h.cached
  stages i l' there := by
    obtain inside | beyond := Nat.lt_or_ge i r.lookups.length
    · exact h.stages i l' ((List.getElem?_append_left inside).symm.trans there)
    · have last := (List.getElem?_append_right beyond).symm.trans there
      cases gap : i - r.lookups.length with
      | zero =>
        rw [gap] at last
        cases last
        obtain rfl : i = r.lookups.length := by omega
        exact stage
      | succ n =>
        rw [gap] at last
        cases last

theorem trusting (h : r.Sound base (fun _ => False) G) :
    r.Sound base (· = r.lookups.length) G where
  generation := h.generation
  cached := h.cached
  stages i l there := by
    have other : (i = r.lookups.length) = False :=
      eq_false (Nat.ne_of_lt (List.getElem?_eq_some_iff.1 there).1)
    rw [other]
    exact h.stages i l there

theorem rebuild (h : r.Sound base trust G) (hG : (∃ i, trust i) → ∀ k ids, G k ids → G' k ids)
    (wider : (r.turn .rebuild).clears = r.clears → ∀ k ids, G k ids → G' k ids) :
    (r.turn .rebuild).Sound base trust G' := by
  obtain ⟨w, _ | ⟨e, next⟩, asks, lookups, clears, glimpses⟩ := r
  · exact (h.wider (wider rfl)).same rfl rfl rfl
  · obtain rfl | ⟨still, cache⟩ := asks.1.cache w
    · exact h.cleared hG rfl rfl rfl
    · have clears : clears + (Proc.call e next).clears = clears := by rw [still, Nat.add_zero]
      exact (h.wider (wider clears)).same rfl clears cache

theorem look {i : Nat} (h : r.Sound base trust G) (few : r.clears < 2 ^ 64)
    (glimpsed : ∀ l g, r.lookups[i]? = some l → l.glimpse? r.world = some g → G g.key [g.id])
    (stored : ∀ k found, (r.world.store.get r.world.files k).1 = .ok found →
      G k ((found.map Claimants.ids).getD []))
    (served : (∃ i, trust i) → ∀ k, ∃ found, (r.world.store.get r.world.files k).1 = .ok found) :
    (r.look i).Sound base trust G := by
  cases racing : r.lookups[i]? with
  | none =>
    rw [look_none racing]
    exact h
  | some l =>
    rw [look_some racing]
    obtain ⟨stage, generation, cached⟩ := (h.stages i l racing).advance h.generation few h.cached
      (fun next id asks hit => glimpsed l ⟨r.world.cache.generation, l.key, id⟩ racing (by
        unfold Racer.glimpse?
        rw [asks]
        dsimp only
        rw [hit]
        rfl))
      (stored l.key) fun trusted => served ⟨i, trusted⟩ l.key
    refine ⟨generation.trans h.generation, cached, fun j l' there => ?_⟩
    by_cases same : j = i
    · subst same
      have set : (r.lookups.set j (l.advance r.world))[j]? = some (l.advance r.world) :=
        List.getElem?_set_self (List.getElem?_eq_some_iff.1 racing).1
      cases set.symm.trans there
      exact stage
    · exact h.stages j l' ((List.getElem?_set_ne (Ne.symm same)).symm.trans there)

theorem turn (h : r.Sound base trust G) (few : r.clears < 2 ^ 64)
    (hG : (∃ i, trust i) → ∀ k ids, G k ids → G' k ids)
    (wider : (r.turn t).clears = r.clears → ∀ k ids, G k ids → G' k ids)
    (glimpsed : ∀ i l g, t = .lookup i → r.lookups[i]? = some l → l.glimpse? r.world = some g →
      G' g.key [g.id])
    (stored : ∀ k found, (r.world.store.get r.world.files k).1 = .ok found →
      G' k ((found.map Claimants.ids).getD []))
    (served : (∃ i, trust i) → ∀ k, ∃ found, (r.world.store.get r.world.files k).1 = .ok found)
    (begun : ∀ i, trust i → i < r.lookups.length) : (r.turn t).Sound base trust G' := by
  cases t with
  | rebuild => exact h.rebuild hG wider
  | lookup i => exact (h.wider (wider clears_look)).look few (glimpsed i · · rfl) stored served
  | begins space raw =>
    refine (h.wider (wider rfl)).enter ?_
    change Stage _ _ _ _ _ (Lookup.groups _ _ _)
    unfold Lookup.groups
    split
    · exact .begun
    · exact .aloof (fun trusted => Nat.lt_irrefl _ (begun _ trusted))
        ⟨trivial, fun _ => trivial⟩
  | seeks k => exact (h.wider (wider rfl)).enter .begun
  | clear => exact h.cleared hG rfl rfl rfl
  | pass now => exact (h.wider (wider rfl)).same rfl rfl rfl

end Sound

end Race

end ClaimIndex
