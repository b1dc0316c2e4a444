import ClaimIndex.Proofs.Overlay

namespace ClaimIndex.World

open Overlay (slot)

open Proc (Yields yields_bind yields_ask yields_pure)

variable {w : World} {player : Player} {k : Key}

theorem reply_cached_some {ids : List GroupId} (h : w.cache.find? k = some ids) :
    (reply idle (.cached k)).run w = (some ids, { w with cache := w.cache.touch k ids }) := by
  have got : w.cache.get k = (some ids, w.cache.touch k ids) := by
    simp [Cache.get, h]
  change ((w.cache.get k).1, { w with cache := (w.cache.get k).2 }) = _
  rw [got]

theorem reply_cached_none (h : w.cache.find? k = none) :
    (reply idle (.cached k)).run w = (none, w) := by
  have got : w.cache.get k = (none, w.cache) := by
    simp [Cache.get, h]
  change ((w.cache.get k).1, { w with cache := (w.cache.get k).2 }) = _
  rw [got]

theorem yields_cache {generation : UInt64} (h : w.cache.generation = generation)
    (ids : List GroupId) : Yields (reply idle) (discard (Proc.ask (.cache generation k ids))) w ()
      { w with cache := w.cache.put k ids } := by
  have kept : w.cache.putIf generation k ids = (true, w.cache.put k ids) := if_pos h
  refine Proc.yields_map.2 ⟨true, yields_ask.2 ?_, rfl⟩
  change ((w.cache.putIf generation k ids).1,
    { w with cache := (w.cache.putIf generation k ids).2 }) = _
  rw [kept]

theorem ofKey_cached {ids : List GroupId} (h : w.cache.find? k = some ids) :
    Yields (reply idle) (Lookup.ofKey k) w ids { w with
      cache := w.cache.touch k ids
      metrics := w.metrics.record (.lookup .cache) } :=
  yields_bind.2 ⟨some ids, _, yields_ask.2 (reply_cached_some h), rfl⟩

theorem ofKey_overlay {id : GroupId} (miss : w.cache.find? k = none)
    (hit : (w.overlay?.bind fun entry => entry.keys[k]?) = some id) :
    Yields (reply idle) (Lookup.ofKey k) w [id] { w with
      slots := (w.slots.get slot w.clock).2
      cache := w.cache.put k [id]
      metrics := w.metrics.record (.lookup .overlay) } := by
  have read : Yields (reply idle) (Overlay.lookup k).run w (.ok (some id))
      { w with slots := (w.slots.get slot w.clock).2 } := by
    rw [← hit]
    rfl
  refine yields_bind.2 ⟨none, w, yields_ask.2 (reply_cached_none miss), ?_⟩
  refine yields_bind.2 ⟨w.cache.generation, w, yields_ask.2 rfl, ?_⟩
  refine yields_bind.2 ⟨_, _, read, ?_⟩
  exact yields_bind.2 ⟨(), _, yields_cache rfl [id], rfl⟩

theorem ofKey_store {found : Option Claimants} {store : Store} (miss : w.cache.find? k = none)
    (pass : w.overlay?.bind (fun entry => entry.keys[k]?) = none)
    (get : w.store.get w.files k = (.ok found, store)) :
    Yields (reply idle) (Lookup.ofKey k) w ((found.map Claimants.ids).getD []) { w with
      store
      slots := (w.slots.get slot w.clock).2
      cache := w.cache.put k ((found.map Claimants.ids).getD [])
      metrics := w.metrics.record (.lookup .store) } := by
  have read : Yields (reply idle) (Overlay.lookup k).run w (.ok none)
      { w with slots := (w.slots.get slot w.clock).2 } := by
    rw [← pass]
    rfl
  have answered : (reply idle (.readKey k)).run
      { w with slots := (w.slots.get slot w.clock).2 } =
        (.ok found, { w with slots := (w.slots.get slot w.clock).2, store }) := by
    change ((w.store.get w.files k).1, { w with
      slots := (w.slots.get slot w.clock).2
      store := (w.store.get w.files k).2 }) = _
    rw [get]
  refine yields_bind.2 ⟨none, w, yields_ask.2 (reply_cached_none miss), ?_⟩
  refine yields_bind.2 ⟨w.cache.generation, w, yields_ask.2 rfl, ?_⟩
  refine yields_bind.2 ⟨_, _, read, ?_⟩
  refine yields_bind.2 ⟨_, _, yields_ask.2 answered, ?_⟩
  exact yields_bind.2 ⟨(), _, yields_cache rfl _, rfl⟩

theorem ofKey_bare {found : Option Claimants} {store : Store} (miss : w.cache.find? k = none)
    (bare : w.slots[slot]? = none) (get : w.store.get w.files k = (.ok found, store)) :
    Yields (reply idle) (Lookup.ofKey k) w ((found.map Claimants.ids).getD []) { w with
      store
      cache := w.cache.put k ((found.map Claimants.ids).getD [])
      metrics := w.metrics.record (.lookup .store) } := by
  have empty : w.slots.get slot w.clock = (none, w.slots) := Overlay.Slots.get_none bare
  have pass : w.overlay?.bind (fun entry => entry.keys[k]?) = none := by
    rw [overlay?, empty]
    rfl
  have looked := ofKey_store miss pass get
  rwa [empty] at looked

theorem ofKey_quiet (hw : w.Quiet) {ids : List GroupId} {w' : World}
    (hy : Yields (reply idle) (Lookup.ofKey k) w ids w') :
    Yields (handle player) (Lookup.ofKey k) w ids w' :=
  (hw.run (Lookup.within_ofKey k) fun _ he => not_perform_of_calm he.calm).trans hy

theorem yields_groups (hw : w.Quiet) {space : Namespace} {raw : String} {ids : List GroupId}
    {w' : World} (accepted : w.settings.accepts space = true)
    (hy : Yields (reply idle) (Lookup.ofKey (.ofRaw space raw)) w ids w') :
    Yields (handle player) (Lookup.groups w.settings space raw) w ids w' := by
  rw [Lookup.groups, if_pos accepted]
  exact ofKey_quiet hw hy

theorem yields_filtered {space : Namespace} {raw : String}
    (filtered : ¬ w.settings.accepts space = true) :
    Yields (handle player) (Lookup.groups w.settings space raw) w []
      { w with metrics := w.metrics.record (.lookup .filtered) } := by
  rw [Lookup.groups, if_neg filtered]
  rfl

theorem step_groups {space : Namespace} {raw : String} {ids : List GroupId} {w' : World}
    (hy : Yields (handle (play depth)) (Lookup.groups w.settings space raw) w ids w') :
    (step (.lookup space raw)).run w = (.ids ids, w') ∧
      (step (.primary space raw)).run w = (.id ids.head?, w') := by
  have first : Yields (handle (play depth)) (Lookup.primary w.settings space raw) w ids.head? w' :=
    Proc.yields_map.2 ⟨ids, hy, rfl⟩
  exact ⟨congrArg (fun r : List GroupId × World => (Answer.ids r.1, r.2)) hy,
    congrArg (fun r : Option GroupId × World => (Answer.id r.1, r.2)) first⟩

theorem step_lookup (space : Namespace) (raw : String)
    (accepted : w.settings.accepts space = true)
    {ids : List GroupId} {w' : World}
    (hy : Yields (handle (play depth)) (Lookup.ofKey (.ofRaw space raw)) w ids w') :
    (step (.lookup space raw)).run w = (.ids ids, w') := by
  have groups : Yields (handle (play depth)) (Lookup.groups w.settings space raw) w ids w' := by
    rw [Lookup.groups, if_pos accepted]
    exact hy
  exact (step_groups groups).1

end ClaimIndex.World
