import ClaimIndex.Proofs.Atomicity
import ClaimIndex.Proofs.Requests
import ClaimIndex.Proofs.Serving

/-! How old an answer can be.  A lookup that finds nothing in the cache answers what the tiers below
hold at that moment; one that does gives an answer again that they held since the cache was cleared
last, and could be read for it. -/

namespace ClaimIndex

theorem Overlay.Slots.get_get (s : Slots) (name : String) (now : Instant) :
    ((s.get name now).2.get name now).1 = (s.get name now).1 := by
  unfold get
  cases held : s[name]? with
  | none => simp [held]
  | some slot =>
    by_cases expired : slot.expired now = true
    · simp [expired]
    · simp [expired, held]

theorem FileStore.read_read (f : FileStore) (fs : FileSystem) :
    ((f.read fs false).2.read fs false).1 = (f.read fs false).1 := by
  obtain ⟨path, copy⟩ := f
  cases copy with
  | some s => rfl
  | none =>
    unfold read
    cases loaded : load ⟨path, none⟩ fs with
    | error fault => simp [loaded]
    | ok s => rfl

theorem Store.get_get (s : Store) (fs : FileSystem) (k : Key) :
    ((s.get fs k).2.get fs k).1 = (s.get fs k).1 := by
  cases s with
  | memory m | whole m => rfl
  | file f => exact congrArg (fun answer => answer.map (·[k]?)) (f.read_read fs)

namespace World

open Overlay (slot)

open Proc (Yields yields_bind yields_ask yields_pure)

def overlaid (w : World) (k : Key) : Option GroupId := w.overlay?.bind (·.keys[k]?)

def stored (w : World) (k : Key) : Except Fault (List GroupId) :=
  (w.store.get w.files k).1.map fun found => (found.map Claimants.ids).getD []

def storeAnswer (w : World) (k : Key) : List GroupId :=
  if .storeGet ∈ w.failing then [] else (w.stored k).toOption.getD []

/-- The answer without the cache; a tier that fails is passed over. -/
def uncached (w : World) (k : Key) : List GroupId :=
  if .overlayGet ∈ w.failing then w.storeAnswer k
  else (w.overlaid k).elim (w.storeAnswer k) fun id => [id]

def StoreReadable (w : World) (k : Key) : Prop :=
  .storeGet ∉ w.failing ∧ ∃ ids, w.stored k = .ok ids

def Readable (w : World) (k : Key) : Prop :=
  .overlayGet ∉ w.failing ∧ (w.overlaid k = none → w.StoreReadable k)

def Undivided (w : World) : Prop := w.Unvisited [.overlayGet, .storeGet]

variable {w v : World} {player : Player} {k : Key}

def fetched (w : World) (k : Key) : World := { w with store := (w.store.get w.files k).2 }

theorem overlaid_peeked : w.peeked.overlaid k = w.overlaid k :=
  congrArg (fun entry : Option Overlay.Entry => entry.bind (·.keys[k]?))
    (Overlay.Slots.get_get w.slots slot w.clock)

theorem stored_fetched : (w.fetched k).stored k = w.stored k :=
  congrArg (fun answer => answer.map fun found => (Option.map Claimants.ids found).getD [])
    (w.store.get_get w.files k)

theorem Undivided.readKey (player : Player) (hw : w.Undivided) (k : Key) :
    (handle player (.readKey k)).run w =
    if .storeGet ∈ w.failing then (.error (.storage "store.get down"), w)
    else ((w.store.get w.files k).1, w.fetched k) :=
  handle_uninterrupted (e := .readKey k) rfl (Unvisited.uninterrupted hw rfl (by simp))

/-- How a lookup answers, and which answers it asks to be kept in the cache. -/
structure Looks (player : Player) (p : Proc (List GroupId)) (w : World) (ids : List GroupId)
    (Kept : UInt64 → Key → List GroupId → World → Prop) : Prop where
  answer : ((p.run (handle player)).run w).1 = ids
  kept : ∀ g k ids u, (.cache g k ids, u) ∈ p.calls (handle player) w → Kept g k ids u
  spared : (∀ g k ids u, ¬ Kept g k ids u) → ((p.run (handle player)).run w).2.cache = w.cache

namespace Looks

variable {Kept : UInt64 → Key → List GroupId → World → Prop} {ids : List GroupId}

theorem pure (ids : List GroupId) : Looks player (Pure.pure ids) w ids Kept :=
  ⟨rfl, fun _ _ _ _ h => (List.not_mem_nil h).elim, fun _ => rfl⟩

theorem bind {α : Type} {p : Proc α} {f : α → Proc (List GroupId)} {a : α}
    (first : Yields (handle player) p w a v) (same : v.cache = w.cache)
    (other : p.Within fun e => ∀ g k ids, e ≠ .cache g k ids)
    (rest : Looks player (f a) v ids Kept) : Looks player (p >>= f) w ids Kept := by
  have ran : ((p >>= f).run (handle player)).run w = ((f a).run (handle player)).run v :=
    yields_bind.2 ⟨a, v, first, rfl⟩
  refine ⟨ran ▸ rest.answer, fun g k ids u h => ?_, fun none => ?_⟩
  · rw [first.calls_bind] at h
    obtain h | h := List.mem_append.1 h
    · exact absurd rfl (other.calls h g k ids)
    · exact rest.kept g k ids u h
  · rw [ran, rest.spared none, same]

theorem ask {e : Effect} {r : e.Reply} {f : e.Reply → Proc (List GroupId)}
    (asked : (handle player e).run w = (r, v)) (same : v.cache = w.cache)
    (other : ∀ g k ids, e ≠ .cache g k ids) (rest : Looks player (f r) v ids Kept) :
    Looks player (Proc.ask e >>= f) w ids Kept :=
  .bind (yields_ask.2 asked) same (.ask other) rest

theorem cache {g : UInt64} {k : Key} {found : List GroupId} {f : Unit → Proc (List GroupId)}
    (kept : Kept g k found w) (rest : ∀ v, Looks player (f ()) v ids fun _ _ _ _ => False) :
    Looks player (discard (Proc.ask (.cache g k found)) >>= f) w ids Kept := by
  have first : Yields (handle player) (discard (Proc.ask (.cache g k found))) w ()
      ((handle player (.cache g k found)).run w).2 := rfl
  refine ⟨?_, fun g' k' ids' u h => ?_, fun none => absurd kept (none _ _ _ _)⟩
  · exact (congrArg Prod.fst (yields_bind.2 ⟨(), _, first, rfl⟩)).trans (rest _).answer
  · rw [first.calls_bind] at h
    obtain h | h := List.mem_append.1 h
    · cases List.mem_singleton.1 (show _ ∈ [((.cache g k found : Effect), w)] from h)
      exact kept
    · exact ((rest _).kept g' k' ids' u h).elim

theorem record {source : LookupSource} :
    Looks player (do Proc.ask (.record (.lookup source)); return ids) w ids Kept :=
  .ask (e := .record (.lookup source)) rfl rfl (by simp) (.pure ids)

theorem mono {Kept' : UInt64 → Key → List GroupId → World → Prop} {p : Proc (List GroupId)}
    (h : Looks player p w ids Kept) (sub : ∀ g k ids u, Kept g k ids u → Kept' g k ids u) :
    Looks player p w ids Kept' :=
  ⟨h.answer, fun g k ids u hc => sub _ _ _ _ (h.kept g k ids u hc),
    fun none => h.spared fun _ _ _ _ hk => none _ _ _ _ (sub _ _ _ _ hk)⟩

end Looks

theorem looks_fromStore (player : Player) (hw : w.Undivided) (k : Key)
    (generation : Option UInt64) :
    Looks player (Lookup.fromStore k generation) w (w.storeAnswer k) fun g k' ids u =>
      generation = some g ∧ k' = k ∧ w.StoreReadable k ∧ w.stored k = .ok ids ∧
        u = w.fetched k := by
  have read := hw.readKey player k
  by_cases fails : .storeGet ∈ w.failing
  · rw [if_pos fails] at read
    rw [storeAnswer, if_pos fails]
    exact .ask read rfl (by simp) (.ask (e := .report _) rfl rfl (by simp) .record)
  · rw [if_neg fails] at read
    rw [storeAnswer, if_neg fails]
    refine .ask read rfl (by simp) ?_
    cases found : (w.store.get w.files k).1 with
    | error fault =>
      have unread : w.stored k = .error fault := by rw [stored, found]; rfl
      rw [unread]
      exact .ask (e := .report _) rfl rfl (by simp) .record
    | ok found' =>
      have there : w.stored k = .ok ((found'.map Claimants.ids).getD []) := by
        rw [stored, found]
        rfl
      rw [there]
      cases generation with
      | none => exact .record
      | some g => exact .cache ⟨rfl, rfl, ⟨fails, _, there⟩, rfl, rfl⟩ fun v => .record

theorem Undivided.lookup (player : Player) (hw : w.Undivided) (k : Key) :
    Yields (handle player) (Overlay.lookup k).run w
      (if .overlayGet ∈ w.failing then .error (.storage "interim.get down")
        else .ok (w.overlaid k)) (if .overlayGet ∈ w.failing then w else w.peeked) := by
  have read := Unvisited.readOverlay player hw (by simp)
  rw [Overlay.lookup, ExceptT.run_bind]
  split
  · rw [if_pos ‹_›] at read
    exact yields_bind.2 ⟨_, _, yields_ask.2 read, rfl⟩
  · rw [if_neg ‹_›] at read
    exact yields_bind.2 ⟨_, _, yields_ask.2 read, rfl⟩

theorem looks_missed (player : Player) (hw : w.Undivided) (miss : w.cache.find? k = none) :
    Looks player (Lookup.ofKey k) w (w.uncached k) fun _ k' ids u =>
      k' = k ∧ w.Readable k ∧ u.Readable k ∧ ids = u.uncached k := by
  have cached : (handle player (.cached k)).run w = (none, w) := reply_cached_none miss
  refine .ask cached rfl (by simp) (.ask (e := .generation) rfl rfl (by simp) ?_)
  have looked := hw.lookup player k
  have aside : (Overlay.lookup k).run.Within fun e => ∀ g k ids, e ≠ .cache g k ids :=
    Proc.within_bindAttempt (.ask (E := fun e => ∀ g k ids, e ≠ .cache g k ids) (by simp))
      fun _ => .pure
  by_cases fails : .overlayGet ∈ w.failing
  · rw [if_pos fails, if_pos fails] at looked
    rw [uncached, if_pos fails]
    refine .bind looked rfl aside (.ask (e := .report _) rfl rfl (by simp) ?_)
    have noticed : Undivided { w with notices := w.notices ++ [.overlayLookupFailed k] } := hw
    have rest := looks_fromStore player noticed k none
    exact rest.mono fun _ _ _ _ hk => absurd hk.1 (by simp)
  · rw [if_neg fails, if_neg fails] at looked
    rw [uncached, if_neg fails]
    refine .bind looked rfl aside ?_
    have overlay (u : World) (slots : u.overlaid k = w.overlaid k) (same : u.failing = w.failing) :
        u.uncached k = (w.overlaid k).elim (u.storeAnswer k) fun id => [id] := by
      rw [uncached, same, if_neg fails, slots]
    cases found : w.overlaid k with
    | some id =>
      have readable (u : World) (slots : u.overlaid k = w.overlaid k)
          (same : u.failing = w.failing) : u.Readable k :=
        ⟨by rwa [same], fun absent => by rw [slots, found] at absent; cases absent⟩
      refine .cache ⟨rfl, readable w rfl rfl, readable _ overlaid_peeked rfl, ?_⟩ fun v => .record
      rw [overlay _ overlaid_peeked rfl, found]
      rfl
    | none =>
      have peeked : w.peeked.Undivided := hw
      have rest := looks_fromStore player peeked k (some w.cache.generation)
      refine rest.mono fun g k' ids u ⟨_, same, store, there, after⟩ => ?_
      subst after
      have slots : (w.peeked.fetched k).overlaid k = w.overlaid k := overlaid_peeked
      have kept : (w.peeked.fetched k).stored k = .ok ids := stored_fetched.trans there
      have works : .storeGet ∉ (w.peeked.fetched k).failing := store.1
      refine ⟨same, ⟨fails, fun _ => store⟩, ⟨fails, fun _ => ⟨works, ids, kept⟩⟩, ?_⟩
      rw [overlay _ slots rfl, found, Option.elim_none, storeAnswer, if_neg works, kept]
      rfl

theorem looks_hit {ids : List GroupId} (hit : w.cache.find? k = some ids) :
    (((Lookup.ofKey k).run (handle player)).run w).1 = ids ∧
      ∀ g k' ids' u, (.cache g k' ids', u) ∉ (Lookup.ofKey k).calls (handle player) w := by
  have cached : (handle player (.cached k)).run w =
      (some ids, { w with cache := w.cache.touch k ids }) := reply_cached_some hit
  have first := yields_ask.2 cached
  have ran : Yields (handle player) (Lookup.ofKey k) w ids _ := yields_bind.2 ⟨_, _, first, rfl⟩
  refine ⟨congrArg Prod.fst ran, fun g k' ids' u h => ?_⟩
  have counts : (do Proc.ask (.record (.lookup .cache)); return ids : Proc (List GroupId)).Within
      fun e => ∀ g k ids, e ≠ .cache g k ids :=
    .bind (.ask (E := fun e => ∀ g k ids, e ≠ .cache g k ids) (by simp)) fun _ => .pure
  rw [Lookup.ofKey, first.calls_bind] at h
  obtain h | h := List.mem_append.1 h
  · cases List.mem_singleton.1 (show _ ∈ [((.cached k : Effect), w)] from h)
  · exact counts.calls h g k' ids' rfl

def Kept (marks : List Mark) (k : Key) (ids : List GroupId) : Prop :=
  ∃ older newer g u, marks = older ++ .asks (.cache g k ids) u :: newer ∧
    ∀ x, .asks .clearCache x ∉ newer

theorem Kept.concat {marks : List Mark} {ids : List GroupId} {m : Mark} (h : Kept marks k ids)
    (other : ∀ x, m ≠ .asks .clearCache x) : Kept (marks ++ [m]) k ids := by
  obtain ⟨older, newer, g, u, rfl, uncleared⟩ := h
  refine ⟨older, newer ++ [m], g, u, by simp, fun x hx => ?_⟩
  obtain hx | hx := List.mem_append.1 hx
  · exact uncleared x hx
  · exact other x (List.mem_singleton.1 hx).symm

theorem mem_cache_reply {e : Effect} {entry : Key × List GroupId}
    (h : entry ∈ ((reply idle e).run w).2.cache.entries) :
    entry ∈ w.cache.entries ∧ e ≠ .clearCache ∨ ∃ g, e = .cache g entry.1 entry.2 := by
  cases e with
  | clearCache => exact (List.not_mem_nil h).elim
  | cached k =>
    refine .inl ⟨?_, by simp⟩
    cases hit : w.cache.find? k with
    | none => rwa [reply_cached_none hit] at h
    | some ids =>
      rw [reply_cached_some hit] at h
      obtain rfl | h := Cache.mem_touch h
      · exact Cache.mem_of_find? hit
      · exact h
  | cache g k ids =>
    obtain ⟨-, rfl⟩ | there := Cache.mem_putIf h
    · exact .inr ⟨g, rfl⟩
    · exact .inl ⟨there, by simp⟩
  | enqueue task =>
    obtain ⟨tasks, same⟩ := exists_tasks idle task w
    rw [same] at h
    exact .inl ⟨h, by simp⟩
  | _ => exact .inl ⟨h, by simp⟩

theorem cache_direct {m : Motion} (hm : m.Direct) (w : World) : (m.apply w).cache = w.cache := by
  cases m with
  | reply e =>
    obtain rfl | rfl := hm
    · rfl
    · rfl
  | _ => rfl

theorem kept_of_narrates {earlier marks : List Mark} (h : Narrates w marks v)
    (hw : ∀ entry ∈ w.cache.entries, Kept earlier entry.1 entry.2) :
    ∀ entry ∈ v.cache.entries, Kept (earlier ++ marks) entry.1 entry.2 := by
  induction h generalizing earlier with
  | done => rwa [List.append_nil]
  | moves direct _ ih => exact ih (by rwa [cache_direct direct])
  | @begins w v marks n op _ ih =>
    rw [List.append_cons]
    exact ih fun entry there => (hw entry there).concat (by simp)
  | @asks w v marks e _ ih =>
    rw [List.append_cons]
    refine ih fun entry there => ?_
    obtain ⟨there, other⟩ | ⟨g, rfl⟩ := mem_cache_reply there
    · exact (hw entry there).concat fun x same => other (Mark.asks.inj same).1
    · exact ⟨earlier, [], g, w, rfl, fun x hx => (List.not_mem_nil hx).elim⟩

end World

def Operation.telling (ids : List GroupId) : Operation → Answer
  | primary .. => .id ids.head?
  | _ => .ids ids

theorem Operation.perform_sought {op : Operation} {v : World} {k : Key}
    (sought : op.sought? v = some k) (h : Handler World) :
    (op.perform h).run v = (op.telling (((Lookup.ofKey k).run h).run v).1,
      (((Lookup.ofKey k).run h).run v).2) := by
  have accepts {space : Namespace} {raw : String} (sought : (if v.settings.accepts space then
      some (Key.ofRaw space raw) else none) = some k) :
      Lookup.groups v.settings space raw = Lookup.ofKey k := by
    split at sought
    · rw [Lookup.groups, if_pos ‹_›, Option.some.inj sought]
    · cases sought
  cases op with
  | lookup space raw =>
    rw [perform_body rfl, accepts sought, map_eq_pure_bind, Proc.run_bind]
    rfl
  | primary space raw =>
    rw [perform_body rfl, Lookup.primary, accepts sought, map_eq_pure_bind, map_eq_pure_bind,
      Proc.run_bind, Proc.run_bind]
    rfl
  | lookupKey key =>
    cases sought
    rw [perform_body rfl, map_eq_pure_bind, Proc.run_bind]
    rfl
  | _ => cases sought

namespace World

variable {w v : World} {k : Key}

theorem readable_of_owned {front : List Mark} {g : UInt64} {k : Key} {ids : List GroupId}
    {u : World} (h : Owned front (.cache g k ids) u)
    (undivided : ∀ n op v, .begins n op v ∈ front → (op.sought? v).isSome = true → v.Undivided) :
    u.Readable k ∧ ids = u.uncached k := by
  obtain ⟨place, calls, meets, -⟩ := h
  rename_i older n op v w prior later
  obtain rfl : u = w := meets
  have asked : ((.cache g k ids : Effect), u) ∈ op.calls n v := by
    rw [calls]
    exact List.mem_append_right _ (.head _)
  cases Operation.purpose_of_mem asked with
  | @lookup key sought asked =>
    have still := undivided n op v (by rw [place]; simp) (by rw [sought]; rfl)
    cases hit : v.cache.find? key with
    | none =>
      obtain ⟨rfl, -, readable, same⟩ := (looks_missed (play n) still hit).kept g k ids u asked
      exact ⟨readable, same⟩
    | some found => exact absurd asked ((looks_hit hit).2 g k ids u)
  | rebuild rebuilds asked =>
    have other := (Rebuild.requests_start _ _).calls asked
    simp [Rebuild.Requests, Rebuild.Aside, Rebuild.Guarding, Rebuild.Drafting] at other
  | merge merges asked =>
    have other := (Overlay.adding_add _ _).calls asked
    simp [Effect.Adding] at other
  | reads reads => exact reads.elim

/-- Wherever it is made, a lookup within which nothing waits for a moment answers what the tiers
below the cache give at its beginning, or else what they gave, when they could be read, at a moment
since the cache was cleared last.  An answer for which they could not be read is not kept. -/
theorem bounded_staleness (w : World) (empty : w.cache.entries = []) (ops : List Operation)
    (undivided : ∀ n op v, .begins n op v ∈ transcript ops w → (op.sought? v).isSome = true →
      v.Undivided)
    (front back : List Mark) (n : Nat) (op : Operation) (v : World) (k : Key)
    (moment : transcript ops w = front ++ .begins n op v :: back)
    (sought : op.sought? v = some k) :
    ∃ ids, ((op.perform (handle (play n))).run v).1 = op.telling ids ∧
      (v.cache.find? k = none ∧ ids = v.uncached k ∧
          (¬ v.Readable k → (after n op v).cache = v.cache) ∨
        v.cache.find? k = some ids ∧ ∃ older newer g u,
          front = older ++ .asks (.cache g k ids) u :: newer ∧
          (∀ x, .asks .clearCache x ∉ newer) ∧ u.Readable k ∧ ids = u.uncached k) := by
  have performed := Operation.perform_sought sought (handle (play n))
  refine ⟨_, congrArg Prod.fst performed, ?_⟩
  cases hit : v.cache.find? k with
  | none =>
    have still := undivided n op v (by rw [moment]; simp) (by rw [sought]; rfl)
    have looks := looks_missed (play n) still hit
    refine .inl ⟨rfl, looks.answer, fun unread => ?_⟩
    rw [after, performed]
    exact looks.spared fun _ _ _ _ kept => unread kept.2.1
  | some ids =>
    rw [(looks_hit hit).1]
    have run := narrates_steps ops w
    rw [moment] at run
    have begun : Narrates w front v := run.split.1
    have kept : ∀ entry ∈ v.cache.entries, Kept ([] ++ front) entry.1 entry.2 :=
      kept_of_narrates begun (by simp [empty])
    obtain ⟨older, newer, g, u, rfl, uncleared⟩ := kept _ (Cache.mem_of_find? hit)
    have ordered := (ordered_transcript ops w).asks older (.cache g k ids) u
      (newer ++ .begins n op v :: back) (by rw [moment]; simp)
    obtain ⟨readable, same⟩ := readable_of_owned ordered fun n op v there =>
      undivided n op v (by rw [moment]; simp at there ⊢; exact .inl there)
    exact .inr ⟨rfl, older, newer, g, u, rfl, uncleared, readable, same⟩

def lingering : World where
  store := .memory (.ofSnapshot ((∅ : Snapshot).insert ⟨"8:foo"⟩ (.single "old")))
  cache := .new 1

theorem bounded_staleness_lingering :
    let ops : List Operation :=
      [.lookup 8 "Foo", .store (.fixed "new" 8 [] true) ["Foo"], .fail .storeGet true]
    let v := ((steps ops).run lingering).2
    let k : Key := .ofRaw 8 "foo"
    ((step (.primary 8 "foo")).run v).1 = .id (some "old") ∧ v.uncached k = ["new"] ∧
      ∃ older newer g u, transcript ops lingering = older ++ .asks (.cache g k ["old"]) u :: newer ∧
        (∀ x, .asks .clearCache x ∉ newer) ∧ u.Readable k ∧ ["old"] = u.uncached k := by
  intro ops v k
  have unhooked : ((transcript (ops ++ [.primary 8 "foo"]) lingering).all
      fun m => m.world.hooks.isEmpty) = true := by decide +kernel
  have hit : v.cache.find? k = some ["old"] := by decide +kernel
  have fresh : v.uncached k = ["new"] := by decide +kernel
  obtain ⟨ids, answer, ⟨miss, -⟩ | ⟨found, kept⟩⟩ := bounded_staleness lingering rfl
    (ops ++ [.primary 8 "foo"])
    (fun n op v there _ waiting (hooked : waiting ∈ v.hooks) => by
      have none := List.all_eq_true.1 unhooked _ there
      rw [show v.hooks = [] from List.isEmpty_iff.1 none] at hooked
      cases hooked)
    (transcript ops lingering) _ depth (.primary 8 "foo") v k (transcript_concat ..) rfl
  · rw [hit] at miss
    cases miss
  · obtain rfl := Option.some.inj (hit.symm.trans found)
    exact ⟨answer, fresh, kept⟩

end World

end ClaimIndex
