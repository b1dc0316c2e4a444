import ClaimIndex.Proofs.Serving

/-! Lookups over a replica that lags.  What is looked up between a commit and the next sync is
answered, and cached, from the replica as it was.  A sync brings the replica up to date and leaves
the cache alone, so such an answer is given for as long as its key keeps a place in the cache. -/

namespace ClaimIndex

namespace Cache

variable {c : Cache} {old new r : Snapshot} {early late ks used : List Key} {j k : Key}
  {room : Nat} {e : Key × List GroupId}

def answer (c : Cache) (r : Snapshot) (k : Key) : List GroupId := (c.find? k).getD (r.idsOf k)

def look (r : Snapshot) (c : Cache) (k : Key) : Cache :=
  match c.find? k with
  | some ids => c.touch k ids
  | none => c.put k (r.idsOf k)

def looks (r : Snapshot) (c : Cache) (ks : List Key) : Cache := ks.foldl (look r) c

theorem fits_of_keys (h : c.keys = (distinct used).take c.capacity) : c.size ≤ c.capacity := by
  rw [← length_keys, h]
  exact List.length_take_le _ _

theorem look_eq (fits : c.size ≤ c.capacity) : c.look r k = c.put k (c.answer r k) := by
  unfold look answer
  cases hit : c.find? k with
  | none => rfl
  | some ids =>
    have found := get_of_find? hit fits
    rw [get, hit] at found
    exact congrArg Prod.snd found

theorem mem_look (h : e ∈ (c.look r k).entries) : e = (k, c.answer r k) ∨ e ∈ c.entries := by
  unfold look at h
  unfold answer
  cases hit : c.find? k with
  | none =>
    rw [hit] at h
    exact mem_put h
  | some ids =>
    rw [hit] at h
    exact mem_touch h

theorem keys_looks (h : c.keys = (distinct used).take c.capacity) :
    (c.looks r ks).keys = (distinct (ks.reverse ++ used)).take c.capacity ∧
      (c.looks r ks).capacity = c.capacity := by
  induction ks generalizing c used with
  | nil => exact ⟨h, rfl⟩
  | cons k ks ih =>
    have stored : c.look r k = c.put k (c.answer r k) := look_eq (fits_of_keys h)
    have keys : (c.look r k).keys = (distinct (k :: used)).take (c.look r k).capacity := by
      rw [stored]
      exact keys_put_distinct h
    obtain ⟨last, room⟩ := ih keys
    rw [List.reverse_cons, List.append_assoc]
    have same : (c.look r k).capacity = c.capacity := by
      rw [stored]
      rfl
    exact ⟨same ▸ last, room.trans same⟩

theorem held_looks (held : ∀ e ∈ c.entries, e.2 = r.idsOf e.1) :
    ∀ e ∈ (c.looks r ks).entries, e.2 = r.idsOf e.1 := by
  induction ks generalizing c with
  | nil => exact held
  | cons k ks ih =>
    refine ih fun e he => ?_
    obtain rfl | he := mem_look he
    · unfold answer
      cases hit : c.find? k with
      | none => rfl
      | some ids => exact held _ (mem_of_find? hit)
    · exact held e he

/-- At no time since the sync was the key missing among the `room` keys looked up last.  Keys were
looked up `early`, before the sync, and `late`, after it. -/
def Lingers (room : Nat) (early late : List Key) (k : Key) : Prop :=
  ∀ part, part <+: late → k ∈ (distinct (early ++ part).reverse).take room

instance : Decidable (Lingers room early late k) :=
  decidable_of_iff (∀ part ∈ late.inits, k ∈ (distinct (early ++ part).reverse).take room) <|
    forall_congr' fun part => imp_congr_left (List.mem_inits part late)

theorem lingers_nil : Lingers room early [] k ↔ k ∈ (distinct early.reverse).take room := by
  simp [Lingers]

theorem lingers_concat : Lingers room early (late ++ [j]) k ↔
    Lingers room early late k ∧ k ∈ (distinct (early ++ (late ++ [j])).reverse).take room := by
  unfold Lingers
  simp only [List.prefix_concat_iff]
  constructor
  · exact fun h => ⟨fun part cut => h part (.inr cut), h _ (.inl rfl)⟩
  · rintro ⟨before, last⟩ part (rfl | cut)
    · exact last
    · exact before part cut

/-- An answer is of the old snapshot if its key lingers, and of the new one otherwise. -/
def Dated (room : Nat) (early late : List Key) (old new : Snapshot) (e : Key × List GroupId) :
    Prop :=
  (Lingers room early late e.1 → e.2 = old.idsOf e.1) ∧
    (¬ Lingers room early late e.1 → e.2 = new.idsOf e.1)

theorem Dated.congr (same : Lingers room early late e.1 ↔ Lingers room early ks e.1)
    (h : Dated room early late old new e) : Dated room early ks old new e :=
  ⟨fun lingers => h.1 (same.2 lingers), fun gone => h.2 (mt same.1 gone)⟩

theorem dated_answer (keys : c.keys = (distinct (early ++ late).reverse).take room)
    (held : ∀ e ∈ c.entries, Dated room early late old new e) :
    Dated room early late old new (k, c.answer new k) := by
  unfold answer
  cases hit : c.find? k with
  | some ids => exact held _ (mem_of_find? hit)
  | none =>
    have gone : ¬ Lingers room early late k := fun lingers =>
      find?_eq_none.1 hit (keys ▸ lingers late List.prefix_rfl)
    exact ⟨fun lingers => absurd lingers gone, fun _ => rfl⟩

theorem keys_late (empty : c.entries = []) : ((c.looks old early).looks new late).keys =
    (distinct (early ++ late).reverse).take c.capacity := by
  have none : c.keys = (distinct ([] : List Key)).take c.capacity := by
    rw [keys, empty]
    exact List.take_nil.symm
  obtain ⟨keys, room⟩ :
      (c.looks old early).keys = (distinct (early.reverse ++ [])).take c.capacity ∧
        (c.looks old early).capacity = c.capacity := keys_looks none
  rw [(keys_looks (room.symm ▸ keys)).1, room, List.append_nil, List.reverse_append]

theorem dated_late (empty : c.entries = []) :
    ∀ e ∈ ((c.looks old early).looks new late).entries,
      Dated c.capacity early late old new e := by
  induction late using List.reverseRecOn with
  | nil =>
    intro e he
    have lingers : Lingers c.capacity early [] e.1 := by
      have among := List.mem_map_of_mem (f := Prod.fst) he
      rw [← keys, keys_late empty, List.append_nil] at among
      exact lingers_nil.2 among
    exact ⟨fun _ => held_looks (by rw [empty]; nofun) e he, absurd lingers⟩
  | append_singleton late j ih =>
    intro e he
    have among := List.mem_map_of_mem (f := Prod.fst) he
    rw [← keys, keys_late empty] at among
    -- what is still there has not been dropped by the last lookup
    have same : Lingers c.capacity early late e.1 ↔ Lingers c.capacity early (late ++ [j]) e.1 := by
      rw [lingers_concat]
      exact (and_iff_left among).symm
    refine Dated.congr same ?_
    rw [looks, List.foldl_append] at he
    obtain rfl | he := mem_look he
    · exact dated_answer (keys_late empty) ih
    · exact ih e he

end Cache

namespace Store

variable {s s' : Store} {fs fs' : FileSystem} {old t : Snapshot}

theorem exists_replica (home : s.home = .inl t) : ∃ r, s.Replicates r := by
  cases s with
  | memory m | whole m => exact ⟨m.replica, rfl⟩
  | file f => cases home

theorem replicates_sync (home : s.home = .inl t) : s.sync.Replicates t := by
  cases s with
  | memory m | whole m => exact Sum.inl.inj home
  | file f => cases home

theorem home_write (lag : s.lags = true) (latest : ∀ primary, s.home = .inl primary → primary = old)
    (h : s.write fs t (old.changes t) = (.ok (), s', fs')) : s'.home = .inl t := by
  cases s with
  | memory m | whole m =>
    cases h
    obtain rfl := latest m.primary rfl
    exact congrArg Sum.inl (MemoryStore.apply_changes _ _)
  | file f => cases lag

end Store

namespace Answer

def ids? : Answer → Option (List GroupId)
  | .ids found => some found
  | _ => none

def snapshot? : Answer → Option Snapshot
  | .snapshot (.ok s) => some s
  | _ => none

end Answer

def Operation.key? (s : Settings) : Operation → Option Key
  | lookup space raw | primary space raw =>
    if s.accepts space then some (.ofRaw space raw) else none
  | lookupKey k => some k
  | _ => none

namespace World

open Overlay (slot)
open Proc (Yields yields_bind yields_ask yields_pure)

variable {w w' : World} {s : Settings} {t r : Snapshot} {c : Cache} {k : Key} {op : Operation}

/-- A world whose replica is `r` where the latest snapshot is `t`. -/
structure Trails (w : World) (s : Settings) (t r : Snapshot) (c : Cache) : Prop
    extends Quiet w where
  settings : w.settings = s
  cache : w.cache = c
  bare : w.slots[slot]? = none
  latest : w.store.home = .inl t
  replica : w.store.Replicates r

theorem Trails.ofKey (hw : w.Trails s t r c) (k : Key) :
    ∃ v, Yields (reply idle) (Lookup.ofKey k) w (c.answer r k) v ∧ v.Trails s t r (c.look r k) := by
  obtain rfl := hw.cache
  unfold Cache.answer Cache.look
  cases hit : w.cache.find? k with
  | some ids =>
    exact ⟨_, ofKey_cached hit, ⟨hw.hooks, hw.failing⟩, hw.settings, rfl, hw.bare, hw.latest,
      hw.replica⟩
  | none =>
    exact ⟨_, ofKey_bare hit hw.bare (hw.replica.get k), ⟨hw.hooks, hw.failing⟩, hw.settings, rfl,
      hw.bare, hw.latest, hw.replica⟩

theorem Trails.groups (hw : w.Trails s t r c) (space : Namespace) (raw : String) :
    ∃ ids v, Yields (handle (play depth)) (Lookup.groups w.settings space raw) w ids v ∧
      (s.accepts space = true → ids = c.answer r (.ofRaw space raw)) ∧
      v.Trails s t r (c.looks r ((Operation.lookup space raw).key? s).toList) := by
  obtain rfl := hw.settings
  by_cases accepted : w.settings.accepts space = true
  · rw [Operation.key?, if_pos accepted]
    obtain ⟨v, hy, trails⟩ := hw.ofKey (.ofRaw space raw)
    exact ⟨_, v, yields_groups hw.toQuiet accepted hy, fun _ => rfl, trails⟩
  · rw [Operation.key?, if_neg accepted]
    exact ⟨_, _, yields_filtered accepted, fun passes => absurd passes accepted,
      ⟨hw.hooks, hw.failing⟩, rfl, hw.cache, hw.bare, hw.latest, hw.replica⟩

theorem Trails.sync (hw : w.Trails s t r c) : ((World.step .sync).run w).2.Trails s t t c :=
  ⟨⟨hw.hooks, hw.failing⟩, hw.settings, hw.cache, hw.bare, Store.home_sync.trans hw.latest,
    Store.replicates_sync hw.latest⟩

theorem Trails.step (hw : w.Trails s t r c) (hop : op.IsReading ∨ op = .sync ∧ r = t) :
    ((World.step op).run w).2.Trails s t r (c.looks r (op.key? s).toList) := by
  have clocked (now : Instant) : Trails { w with clock := now } s t r c :=
    ⟨⟨hw.hooks, hw.failing⟩, hw.settings, hw.cache, hw.bare, hw.latest, hw.replica⟩
  obtain hop | ⟨rfl, rfl⟩ := hop
  swap
  · exact hw.sync
  cases op with
  | lookup space raw =>
    obtain ⟨ids, v, hy, -, trails⟩ := hw.groups space raw
    rw [(step_groups hy).1]
    exact trails
  | primary space raw =>
    obtain ⟨ids, v, hy, -, trails⟩ := hw.groups space raw
    rw [(step_groups hy).2]
    exact trails
  | lookupKey k =>
    obtain ⟨v, hy, trails⟩ := hw.ofKey k
    have answered : (World.step (.lookupKey k)).run w = (.ids (c.answer r k), v) :=
      congrArg (fun r : List GroupId × World => (Answer.ids r.1, r.2)) (ofKey_quiet hw.toQuiet hy)
    rw [answered]
    exact trails
  | advance span => exact clocked _
  | setClock now => exact clocked now
  | _ => exact hop.elim

theorem Trails.steps {ops : List Operation} (hw : w.Trails s t r c)
    (hops : ∀ op ∈ ops, op.IsReading ∨ op = .sync ∧ r = t) :
    ((World.steps ops).run w).2.Trails s t r (c.looks r (ops.filterMap (·.key? s))) := by
  induction ops generalizing w c with
  | nil => exact hw
  | cons op ops ih =>
    have first := hw.step (hops op List.mem_cons_self)
    have rest := ih first fun op h => hops op (List.mem_cons_of_mem _ h)
    have keys : c.looks r ((op :: ops).filterMap (·.key? s)) =
        (c.looks r (op.key? s).toList).looks r (ops.filterMap (·.key? s)) := by
      rw [List.filterMap_cons]
      cases op.key? s <;> rfl
    rw [keys]
    exact rest

theorem steps_append (front back : List Operation) :
    ((steps (front ++ back)).run w).2 = ((steps back).run ((steps front).run w).2).2 := by
  induction front generalizing w with
  | nil => rfl
  | cons op front ih => exact ih

theorem Clears.trails (h : w.Clears w' t) (lag : w.store.lags = true) :
    ∃ r, w'.Trails w.settings t r w'.cache := by
  obtain ⟨built, published, old, moved, latest, wrote, stored⟩ := h.stored
  have lags : built.store.lags = true :=
    (Moves.same (f := fun w => w.store.lags) (fun _ w hm => lags_apply hm w) moved).trans lag
  have answer : (built.store.write built.files t (old.changes t)).1 = .ok () :=
    congrArg Prod.fst wrote
  have home : published.store.home = .inl t := by
    rw [← show _ = published from congrArg Prod.snd wrote]
    exact Store.home_write lags latest (Prod.ext answer rfl)
  rw [← stored] at home
  obtain ⟨r, replica⟩ := Store.exists_replica home
  exact ⟨r, h.toQuiet, h.settings, rfl, h.bare, home, replica⟩

/-- After a rebuild that left the overlay empty, with a replica that lags, keys are looked up, the
replica is synced, and keys are looked up again.  From the sync on a key is answered from what was
published, unless at no time since the sync it was missing among the keys looked up last, as many
as the cache has room for.  Then the answer is the one that it got before the sync, from what the
replica was when the rebuild ended. -/
theorem lagging_lookups (w : World) (undisturbed : w.Undisturbed) (lag : w.store.lags = true)
    (purge : Option Instant) (report : Report)
    (committed : ((step (.rebuild purge)).run w).1.committed? = some report)
    (left : report.overlay = some .empty ∨ ∃ keys, report.overlay = some (.purged keys))
    (before later : List Operation) (reading : ∀ op ∈ before, op.IsReading)
    (following : ∀ op ∈ later, op.IsReading ∨ op = .sync)
    (space : Namespace) (raw : String) (accepted : w.settings.accepts space = true) :
    let rebuilt := ((step (.rebuild purge)).run w).2
    let after := ((steps (before ++ .sync :: later)).run rebuilt).2
    let early := before.filterMap (·.key? w.settings)
    let late := later.filterMap (·.key? w.settings)
    let lingers := Cache.Lingers rebuilt.cache.capacity early late (.ofRaw space raw)
    ∃ old, ((step (.snapshot false)).run rebuilt).1 = .snapshot (.ok old) ∧
      ∃ ids, ((step (.lookup space raw)).run after).1 = .ids ids ∧
        ((step (.primary space raw)).run after).1 = .id ids.head? ∧
        (lingers → ids = old.idsOf (.ofRaw space raw)) ∧
        (¬ lingers → ids = report.snapshot.idsOf (.ofRaw space raw)) := by
  intro rebuilt after early late lingers
  have clears : w.Clears rebuilt report.snapshot := clears_committed undisturbed committed left
  obtain ⟨old, trails⟩ := clears.trails lag
  have read : ((step (.snapshot false)).run rebuilt).1 = .snapshot (.ok old) := by
    have answer : (handle (play depth) (.readStore false)).run rebuilt =
        (reply idle (.readStore false)).run rebuilt := trails.toQuiet.handle (by rintro _ _ ⟨⟩)
    change Answer.snapshot ((handle (play depth) (.readStore false)).run rebuilt).1 = _
    rw [answer]
    exact congrArg Answer.snapshot (trails.replica.serves rebuilt.files)
  have ended : after.Trails w.settings report.snapshot report.snapshot
      ((rebuilt.cache.looks old early).looks report.snapshot late) := by
    unfold after
    rw [steps_append]
    exact (trails.steps fun op h => .inl (reading op h)).sync.steps fun op h =>
      (following op h).imp_right (⟨·, rfl⟩)
  obtain ⟨ids, v, hy, answered, -⟩ := ended.groups space raw
  obtain ⟨groups, first⟩ := step_groups hy
  refine ⟨old, read, ids, congrArg Prod.fst groups, congrArg Prod.fst first, ?_⟩
  rw [answered accepted]
  exact Cache.dated_answer (Cache.keys_late clears.cache) (Cache.dated_late clears.cache)

def trailing : World where
  store := .memory { lagged := true }
  cache := .new 2
  registry := [.fixed "a" 8 ["Foo", "Bar", "Baz"] true]

theorem lagging_lookups_trailing : ∃ report,
    ((step (.rebuild none)).run trailing).1.committed? = some report ∧
    let rebuilt := ((step (.rebuild none)).run trailing).2
    let after := ((steps [.lookup 8 "Foo", .lookup 8 "Bar", .sync, .primary 8 "bar",
      .lookup 8 "Baz"]).run rebuilt).2
    ((step (.lookup 8 "Bar")).run after).1 = .ids [] ∧
      ((step (.lookup 8 "Foo")).run after).1 = .ids ["a"] := by
  have ran : (((step (.rebuild none)).run trailing).1.committed?.map fun report =>
      (report.overlay, report.snapshot.idsOf (.ofRaw 8 "Foo"))) =
        some (some .empty, ["a"]) := by decide +kernel
  have seen : (((step (.snapshot false)).run
      ((step (.rebuild none)).run trailing).2).1.snapshot?.map
        (·.idsOf (.ofRaw 8 "Bar"))) = some [] := by decide +kernel
  obtain ⟨report, committed, found⟩ := Option.map_eq_some_iff.1 ran
  obtain ⟨empty, published⟩ := Prod.mk.inj found
  have plain : trailing.Undisturbed := ⟨⟨rfl, rfl⟩, by decide⟩
  have looked (raw : String) := lagging_lookups trailing plain rfl none report committed
    (.inl empty) [.lookup 8 "Foo", .lookup 8 "Bar"] [.primary 8 "bar", .lookup 8 "Baz"]
    (by simp [Operation.IsReading]) (by simp [Operation.IsReading]) 8 raw (by decide +kernel)
  obtain ⟨old, read, ids, bar, -, lingers, -⟩ := looked "Bar"
  obtain ⟨-, -, ids', foo, -, -, gone⟩ := looked "Foo"
  rw [read] at seen
  have unseen : old.idsOf (.ofRaw 8 "Bar") = [] := Option.some.inj seen
  rw [lingers (by decide +kernel), unseen] at bar
  rw [gone (by decide +kernel), published] at foo
  exact ⟨report, committed, bar, foo⟩

/-- What was cached between the commit and the sync is given after the sync, too. -/
theorem not_caught_up : ¬ ∀ (w : World), w.Undisturbed → w.store.lags = true →
    ∀ (purge : Option Instant) (report : Report),
    ((step (.rebuild purge)).run w).1.committed? = some report →
    (report.overlay = some .empty ∨ ∃ keys, report.overlay = some (.purged keys)) →
    ∀ before later : List Operation, (∀ op ∈ before, op.IsReading) →
    (∀ op ∈ later, op.IsReading) →
    ∀ (space : Namespace) (raw : String), w.settings.accepts space = true →
    let after := ((steps (.rebuild purge :: before ++ .sync :: later)).run w).2
    ((step (.lookup space raw)).run after).1 = .ids (report.snapshot.idsOf (.ofRaw space raw)) := by
  intro caught
  have ran : (((step (.rebuild none)).run trailing).1.committed?.map fun report =>
      (report.overlay, report.snapshot.idsOf (.ofRaw 8 "Foo"))) =
        some (some .empty, ["a"]) := by decide +kernel
  have stale : ((step (.lookup 8 "Foo")).run
      ((steps [.rebuild none, .lookup 8 "Foo", .sync]).run trailing).2).1.ids? = some [] := by
    decide +kernel
  obtain ⟨report, committed, found⟩ := Option.map_eq_some_iff.1 ran
  obtain ⟨empty, published⟩ := Prod.mk.inj found
  have plain : trailing.Undisturbed := ⟨⟨rfl, rfl⟩, by decide⟩
  have fresh := caught trailing plain rfl none report committed (.inl empty) [.lookup 8 "Foo"] []
    (by simp [Operation.IsReading]) nofun 8 "Foo" (by decide +kernel)
  simp only [List.cons_append, List.nil_append, published] at fresh
  rw [fresh] at stale
  exact absurd stale (by decide)

end World
end ClaimIndex
