import ClaimIndex.Proofs.Lookup

namespace ClaimIndex.World

open Overlay (slot)

variable {w : World} {player : Player} {k : Key}

theorem step_store (hw : w.Quiet) (group : Group) (raws : List String) :
    (step (.store group raws)).run w = (.outcome (.ok ()), { w.written (w.merged
        (group.resolve w.registry).id (group.resolve w.registry).space raws) with
      metrics := w.metrics.record .merged }) :=
  congrArg (fun r : Except Fault Unit × World => (Answer.outcome r.1, r.2))
    (storeKeys_run _ hw (group.resolve w.registry) raws)

/-- A key that was just added resolves to its group, unless the cache still has an answer for it:
then that answer is given. -/
theorem added_key_resolves (w : World) (quiet : w.Quiet) (group : Group) (raws : List String)
    (raw : String) (listed : raw ∈ raws)
    (accepted : w.settings.accepts (group.resolve w.registry).space = true) (now : Instant)
    (live : ¬ w.clock.after w.settings.ttl ≤ now) :
    let g := group.resolve w.registry
    let cached := w.cache.find? (.ofRaw g.space raw)
    let after := ((steps [.store group raws, .setClock now]).run w).2
    ((step (.store group raws)).run w).1 = .outcome (.ok ()) ∧
      ((step (.lookup g.space raw)).run after).1 = .ids (cached.getD [g.id]) := by
  intro g cached after
  have stored := step_store quiet group raws
  have reached : after = { w.written (w.merged g.id g.space raws) with
      metrics := w.metrics.record .merged
      clock := now } := by
    change { ((step (.store group raws)).run w).2 with clock := now } = _
    rw [stored]
  have still : after.Quiet := by
    rw [reached]
    exact ⟨quiet.hooks, quiet.failing⟩
  have passes : after.settings.accepts g.space = true := by
    rw [reached]
    exact accepted
  have kept : after.cache = w.cache := by
    rw [reached]
    rfl
  have slotted : after.slots[slot]? =
      some ⟨w.merged g.id g.space raws, w.clock.after w.settings.ttl⟩ := by
    rw [reached]
    exact slot_written _
  have fresh : ¬ w.clock.after w.settings.ttl ≤ after.clock := by
    rw [reached]
    exact live
  have entry : after.overlay? = some (w.merged g.id g.space raws) :=
    overlay_of_live slotted (decide_eq_false fresh)
  have recorded : (after.overlay?.bind fun entry => entry.keys[Key.ofRaw g.space raw]?) =
      some g.id := by
    rw [entry, Option.bind_some, getElem?_merged, if_pos ⟨raw, listed, rfl⟩]
  refine ⟨congrArg Prod.fst stored, ?_⟩
  cases hc : cached with
  | some ids =>
    have hit : after.cache.find? (.ofRaw g.space raw) = some ids := kept ▸ hc
    rw [step_lookup g.space raw passes (ofKey_quiet still (ofKey_cached hit))]
    rfl
  | none =>
    have miss : after.cache.find? (.ofRaw g.space raw) = none := kept ▸ hc
    rw [step_lookup g.space raw passes (ofKey_quiet still (ofKey_overlay miss recorded))]
    rfl

def asked : World where
  registry := [.fixed "a" 8 [] true]
  cache := (Cache.new 30).put ⟨"8:bar"⟩ []

theorem added_key_resolves_asked :
    asked.Quiet ∧ ¬ asked.clock.after asked.settings.ttl ≤ asked.clock ∧
      ((step (.lookup 8 "Foo")).run
        ((steps [.store (.registered "a") ["Bar", "Foo"], .setClock asked.clock]).run asked).2).1 =
          .ids ["a"] := by
  have quiet : asked.Quiet := ⟨rfl, rfl⟩
  have live : ¬ asked.clock.after asked.settings.ttl ≤ asked.clock := by decide +kernel
  have fresh : asked.cache.find? (Key.ofRaw 8 "Foo") = none := by decide +kernel
  have known : (Group.registered "a").resolve asked.registry = .fixed "a" 8 [] true := rfl
  have resolves := added_key_resolves asked quiet (.registered "a") ["Bar", "Foo"] "Foo"
    (by simp) (by decide +kernel) asked.clock live
  rw [known] at resolves
  refine ⟨quiet, live, resolves.2.trans ?_⟩
  change Answer.ids ((asked.cache.find? (Key.ofRaw 8 "Foo")).getD ["a"]) = _
  rw [fresh]
  rfl

/-- A negative answer survives the merge that adds the key: the overlay has it and is not asked. -/
theorem stale_answer :
    let run := (steps [.lookup 8 "Foo", .store (.fixed "a" 8 ["Foo"] true) ["Foo"],
      .lookup 8 "Foo"]).run {}
    (run.1 matches [.ids [], .outcome (.ok ()), .ids []]) = true ∧
      (run.2.overlay?.bind fun entry => entry.keys[Key.ofRaw 8 "Foo"]?) = some "a" := by
  decide +kernel

end ClaimIndex.World
