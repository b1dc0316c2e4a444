import ClaimIndex.Proofs.Recency

namespace ClaimIndex.Cache

/-- What is done with a cache.  To store under a captured generation is to give the number of the
capture; they are counted from zero on. -/
inductive Act
  | get (k : Key)
  | put (k : Key) (ids : List GroupId)
  | capture
  | putIf (n : Nat) (k : Key) (ids : List GroupId)
  | clear

structure Session where
  cache : Cache
  captured : List UInt64 := []

namespace Session

def putIf (s : Session) (n : Nat) (k : Key) (ids : List GroupId) : Bool × Cache :=
  match s.captured[n]? with
  | some generation => s.cache.putIf generation k ids
  | none => (false, s.cache)

def act (s : Session) : Act → Session
  | .get k => { s with cache := (s.cache.get k).2 }
  | .put k ids => { s with cache := s.cache.put k ids }
  | .capture => { s with captured := s.captured ++ [s.cache.generation] }
  | .putIf n k ids => { s with cache := (s.putIf n k ids).2 }
  | .clear => { s with cache := s.cache.clear }

def after (capacity : Nat) : List Act → Session
  | [] => { cache := new capacity }
  | a :: past => (after capacity past).act a

end Session

def clears (past : List Act) : Nat := past.countP (· matches .clear)

def captures (past : List Act) : Nat := past.countP (· matches .capture)

/-- An answer was stored since the last clear, and if it was stored under a captured generation,
then that was captured since the last clear too. -/
inductive Recent : List Act → Key → List GroupId → Prop
  | put {past : List Act} {k : Key} {ids : List GroupId} : Recent (.put k ids :: past) k ids
  | putIf {since before : List Act} {k : Key} {ids : List GroupId} (lasts : clears since = 0) :
    Recent (.putIf (captures before) k ids :: (since ++ .capture :: before)) k ids
  | later {past : List Act} {a : Act} {k : Key} {ids : List GroupId} (h : Recent past k ids)
    (keeps : a ≠ .clear) : Recent (a :: past) k ids

variable {a : Act} {past since before : List Act} {capacity n : Nat} {generation : UInt64}
  {k : Key} {ids : List GroupId}

theorem ofNat_clears : UInt64.ofNat (clears (since ++ .capture :: before)) =
    .ofNat (clears before) ↔ 2 ^ 64 ∣ clears since := by
  have sum : clears (since ++ .capture :: before) = clears since + clears before := by
    simp [clears]
  rw [sum, UInt64.ofNat_eq_iff_mod_eq_toNat, UInt64.toNat_ofNat']
  omega

theorem find?_put {c : Cache} (room : 0 < c.capacity) : (c.put k ids).find? k = some ids := by
  obtain ⟨places, one⟩ := Nat.exists_eq_add_one_of_ne_zero (Nat.ne_of_gt room)
  unfold find? put
  dsimp only
  rw [one, touch, List.take_succ_cons, List.lookup_cons_self]

namespace Session

theorem exists_calls (capacity : Nat) (past : List Act) : ∃ calls,
    (after capacity past).cache = Cache.after capacity calls ∧
      epoch calls = .ofNat (clears past) := by
  induction past with
  | nil => exact ⟨[], rfl, rfl⟩
  | cons a past ih =>
    obtain ⟨calls, same, counted⟩ := ih
    have called (call : Call) : (after capacity past).cache.call call =
        Cache.after capacity (call :: calls) := congrArg (·.call call) same
    cases a with
    | get k => exact ⟨_, called (.get k), (epoch_cons _).trans counted⟩
    | put k ids => exact ⟨_, called (.put k ids), (epoch_cons _).trans counted⟩
    | capture => exact ⟨calls, same, counted⟩
    | putIf n k ids =>
      change ∃ calls, ((after capacity past).putIf n k ids).2 = _ ∧ _
      unfold putIf
      split
      · rename_i generation _
        exact ⟨_, called (.putIf generation k ids), (epoch_cons _).trans counted⟩
      · exact ⟨calls, same, counted⟩
    | clear =>
      refine ⟨_, called .clear, (epoch_cons _).trans ?_⟩
      rw [clears, List.countP_cons_of_pos rfl, UInt64.ofNat_add, ← clears, ← counted]
      rfl

theorem capacity_after : (after capacity past).cache.capacity = max capacity 1 := by
  obtain ⟨calls, same, -⟩ := exists_calls capacity past
  rw [same]
  exact (Recalls.after capacity calls).capacity

theorem generation_after : (after capacity past).cache.generation = .ofNat (clears past) := by
  obtain ⟨calls, same, counted⟩ := exists_calls capacity past
  rw [same, ← counted]
  exact (Recalls.after capacity calls).generation

theorem length_captured (capacity : Nat) (past : List Act) :
    (after capacity past).captured.length = captures past := by
  induction past with
  | nil => rfl
  | cons a past ih =>
    cases a with
    | get | put | putIf | clear => exact ih
    | capture =>
      change (_ ++ [_]).length = _
      rw [List.length_append, ih, captures, captures, List.countP_cons_of_pos rfl]
      rfl

theorem captured_prefix (s : Session) (a : Act) : s.captured <+: (s.act a).captured := by
  cases a with
  | get | put | putIf | clear => exact List.prefix_rfl
  | capture => exact List.prefix_append ..

theorem getElem?_captured :
    (after capacity (since ++ .capture :: before)).captured[captures before]? =
      some (.ofNat (clears before)) := by
  induction since with
  | nil =>
    change ((after capacity before).captured ++ [(after capacity before).cache.generation])[_]? = _
    rw [← length_captured capacity, List.getElem?_concat_length, generation_after]
  | cons a since ih =>
    obtain ⟨more, grown⟩ := captured_prefix (after capacity (since ++ .capture :: before)) a
    have there := (List.getElem?_eq_some_iff.1 ih).1
    change ((after capacity (since ++ .capture :: before)).act a).captured[_]? = _
    rw [← grown, List.getElem?_append_left there, ih]

theorem exists_capture (h : (after capacity past).captured[n]? = some generation) :
    ∃ since before, past = since ++ .capture :: before ∧ captures before = n ∧
      generation = .ofNat (clears before) := by
  induction past with
  | nil => cases h
  | cons a past ih =>
    have later (h : (after capacity past).captured[n]? = some generation) :
        ∃ since before, a :: past = since ++ .capture :: before ∧ captures before = n ∧
          generation = .ofNat (clears before) := by
      obtain ⟨since, before, rfl, number, lasted⟩ := ih h
      exact ⟨a :: since, before, rfl, number, lasted⟩
    cases a with
    | get | put | putIf | clear => exact later h
    | capture =>
      -- the number is that of an earlier capture or of this one
      change ((after capacity past).captured ++ [_])[n]? = _ at h
      obtain earlier | last := Nat.lt_or_ge n (after capacity past).captured.length
      · rw [List.getElem?_append_left earlier] at h
        exact later h
      · rw [List.getElem?_append_right last, List.getElem?_singleton, generation_after] at h
        rw [length_captured] at h last
        split at h
        · cases h
          exact ⟨[], past, rfl, by omega, rfl⟩
        · cases h

theorem putIf_eq : (after capacity (since ++ .capture :: before)).putIf (captures before) k ids =
    if 2 ^ 64 ∣ clears since then
      (true, (after capacity (since ++ .capture :: before)).cache.put k ids)
    else (false, (after capacity (since ++ .capture :: before)).cache) := by
  unfold putIf
  rw [getElem?_captured]
  simp only [Cache.putIf, generation_after, ofNat_clears]

theorem recent_after (few : clears past < 2 ^ 64)
    (h : (k, ids) ∈ (after capacity past).cache.entries) : Recent past k ids := by
  induction past with
  | nil => cases h
  | cons a past ih =>
    have fewer : clears past < 2 ^ 64 :=
      Nat.lt_of_le_of_lt (List.sublist_cons_self a past).countP_le few
    cases a with
    | get => exact .later (ih fewer (mem_get h)) nofun
    | capture => exact .later (ih fewer h) nofun
    | clear => cases h
    | put =>
      obtain same | h := mem_put h
      · cases same
        exact .put
      · exact .later (ih fewer h) nofun
    | putIf n k' ids' =>
      change (k, ids) ∈ ((after capacity past).putIf n k' ids').2.entries at h
      unfold putIf at h
      split at h
      · rename_i generation captured
        obtain ⟨since, before, rfl, rfl, rfl⟩ := exists_capture captured
        obtain ⟨lasts, same⟩ | h := mem_putIf h
        · cases same
          -- there were too few clears to bring the generation round, so there was none since
          rw [generation_after, ofNat_clears] at lasts
          have le : clears since ≤ clears (since ++ .capture :: before) := by simp [clears]
          exact .putIf (Nat.eq_zero_of_dvd_of_lt lasts (Nat.lt_of_le_of_lt le fewer))
        · exact .later (ih fewer h) nofun
      · exact .later (ih fewer h) nofun

/-- The generation guard is exact.  Whatever is done with a new cache and whichever generations are
captured meanwhile, an answer offered under a captured one is stored if the clears since the capture
are a multiple of `2 ^ 64`, which is how many generations there are, and otherwise nothing at all
changes.  So with fewer clears every answer held was stored since the last clear, and none under a
generation that was captured before it. -/
theorem guard_exact (capacity : Nat) (past : List Act) :
    let s := after capacity past
    (∀ since before, past = since ++ .capture :: before → ∀ k ids,
      (2 ^ 64 ∣ clears since → s.putIf (captures before) k ids = (true, s.cache.put k ids) ∧
        (s.cache.put k ids).find? k = some ids) ∧
      (¬ 2 ^ 64 ∣ clears since → s.putIf (captures before) k ids = (false, s.cache))) ∧
    (clears past < 2 ^ 64 → ∀ k ids, (k, ids) ∈ s.cache.entries → Recent past k ids) := by
  refine ⟨?_, fun few k ids => recent_after few⟩
  rintro since before rfl k ids
  refine ⟨fun round => ⟨putIf_eq.trans (if_pos round), find?_put ?_⟩,
    fun other => putIf_eq.trans (if_neg other)⟩
  rw [capacity_after]
  exact Nat.lt_of_lt_of_le Nat.one_pos (Nat.le_max_right capacity 1)

def cleared (n : Nat) : List Act :=
  List.replicate n .clear ++ .capture :: [.put ⟨"8:old"⟩ ["z"]]

def recaptured : List Act := .putIf 1 ⟨"8:first"⟩ ["a"] :: .capture :: cleared 1

theorem guard_exact_round :
    (after 2 (cleared 1)).putIf 0 ⟨"8:late"⟩ ["d"] = (false, (after 2 (cleared 1)).cache) ∧
    ((after 2 (cleared (2 ^ 64))).putIf 0 ⟨"8:late"⟩ ["d"]).1 = true ∧
    (⟨"8:first"⟩, ["a"]) ∈ (after 2 recaptured).cache.entries ∧
    Recent recaptured ⟨"8:first"⟩ ["a"] := by
  have counted (n : Nat) : clears (List.replicate n .clear) = n :=
    List.countP_replicate.trans (if_pos rfl)
  have stored : (⟨"8:first"⟩, ["a"]) ∈ (after 2 recaptured).cache.entries := by decide +kernel
  have stale := ((guard_exact 2 (cleared 1)).1 _ _ rfl ⟨"8:late"⟩ ["d"]).2
  have round := ((guard_exact 2 (cleared (2 ^ 64))).1 _ _ rfl ⟨"8:late"⟩ ["d"]).1
  rw [counted] at stale round
  exact ⟨stale (by decide), congrArg Prod.fst (round (Nat.dvd_refl _)).1, stored,
    (guard_exact 2 recaptured).2 (by decide) _ _ stored⟩

end Session

end ClaimIndex.Cache
