import ClaimIndex.Proofs.Serving
import ClaimIndex.Proofs.Shared
import ClaimIndex.Setup

namespace ClaimIndex

namespace FileStore

variable {f : FileStore} {fs : FileSystem} {bytes : Bytes} {s : Snapshot} {latest : Bool}

theorem read_loaded (loaded : f.load fs = .ok s) (loads : latest = true ∨ f.copy = none) :
    f.read fs latest = (.ok s, { f with copy := some s }) := by
  unfold read
  split
  · obtain loads | loads := loads
    · cases loads
    · simp_all
  · rw [loaded]

theorem read_refused {fault : Fault} (refused : f.load fs = .error fault)
    (loads : latest = true ∨ f.copy = none) : f.read fs latest = (.error fault, f) := by
  unfold read
  split
  · obtain loads | loads := loads
    · cases loads
    · simp_all
  · rw [refused]

theorem load_refused (content : fs.read f.path = .ok bytes)
    (unreadable : ∀ s, Codec.decode bytes ≠ .ok (Codec.version, s)) :
    ∃ message, f.load fs = .error (.storage message) := by
  rw [load, if_pos (FileSystem.exists_of_read content)]
  cases decoded : Codec.decode bytes with
  | error detail =>
    simp only [content, decoded]
    exact ⟨_, rfl⟩
  | ok r =>
    obtain ⟨v, s⟩ := r
    have other : v ≠ Codec.version := by
      rintro rfl
      exact unreadable s decoded
    simp only [content, decoded, if_neg other]
    exact ⟨_, rfl⟩

end FileStore

namespace World

open Overlay (slot)

variable {w : World} {path : String} {s : Snapshot}

/-- An index that was just opened on a file: it has answered nothing yet, nothing was merged into
its overlay, and none of its calls fail. -/
structure Opened (w : World) (path : String) : Prop extends Quiet w where
  store : w.store = .file { path }
  fresh : w.cache.entries = []
  bare : w.slots[slot]? = none

theorem opened_of_openIndex {c : Config} {fs : FileSystem} {registry : List Group}
    (backend : c.storage.backend = "file") (h : c.openIndex fs registry = .ok w) :
    w.Opened c.storage.path ∧ w.files = fs := by
  have store : c.openStore = .ok (.file { path := c.storage.path }) := by
    rw [Config.openStore, backend]
    rfl
  unfold Config.openIndex at h
  rw [store] at h
  cases hl : c.openLock with
  | error fault => rw [hl] at h; cases h
  | ok lock =>
    cases hc : c.openCache with
    | error fault => rw [hl, hc] at h; cases h
    | ok cache =>
      rw [hl, hc] at h
      cases h
      have empty : cache.entries = [] := by
        simp only [Config.openCache] at hc
        split at hc
        · cases hc
        · split at hc
          · cases hc
          · cases hc
            rfl
      exact ⟨⟨⟨rfl, rfl⟩, rfl, empty, rfl⟩, rfl⟩

theorem Opened.serves (hw : w.Opened path)
    (loaded : FileStore.load { path } w.files = .ok s) : w.Serves s where
  toQuiet := hw.toQuiet
  cached e he := by
    rw [hw.fresh] at he
    cases he
  bare := hw.bare
  stored := by
    have read : FileStore.read { path } w.files false = (.ok s, _) :=
      FileStore.read_loaded loaded (.inr rfl)
    rw [hw.store]
    exact congrArg Prod.fst read

end World

/-- Whoever opens the path reads the snapshot: a store that has read nothing yet, a store that
reads again, and an index with its first lookup and all that follow. -/
structure Recovers (path : String) (fs : FileSystem) (s : Snapshot) : Prop where
  read : ∀ (f : FileStore) (latest : Bool), f.path = path → latest = true ∨ f.copy = none →
    f.read fs latest = (.ok s, { f with copy := some s })
  answers : ∀ w : World, w.Opened path → w.files = fs →
    ∀ later : List Operation, (∀ op ∈ later, op.IsReading) →
    ∀ (space : Namespace) (raw : String), w.settings.accepts space = true →
      let after := ((World.steps later).run w).2
      let ids := s.idsOf (.ofRaw space raw)
      ((World.step (.lookup space raw)).run after).1 = .ids ids ∧
        ((World.step (.primary space raw)).run after).1 = .id ids.head?

theorem recovers_of_load {path : String} {fs : FileSystem} {s : Snapshot}
    (loaded : ∀ f : FileStore, f.path = path → f.load fs = .ok s) : Recovers path fs s where
  read f latest same loads := FileStore.read_loaded (loaded f same) loads
  answers w opened files later reading space raw accepted := by
    intro after ids
    subst files
    obtain ⟨served, same⟩ := (opened.serves (loaded { path } rfl)).steps reading
    have passes : after.settings.accepts space = true := by
      rw [show after.settings = w.settings from same]
      exact accepted
    obtain ⟨_, groups, first, -⟩ := World.Serves.lookup (w := after) served space raw
    rw [if_pos passes] at groups first
    exact ⟨congrArg Prod.fst groups, congrArg Prod.fst first⟩

/-- Reading the file is a fault of the storage, after which the store still serves its copy. -/
structure FileStore.Refuses (f : FileStore) (fs : FileSystem) : Prop where
  read : ∃ message, ∀ latest, latest = true ∨ f.copy = none →
    f.read fs latest = (.error (.storage message), f)
  copy : ∀ t, f.copy = some t → (f.read fs true).2.read fs false = (.ok t, f)

theorem FileStore.refuses_of_load {f : FileStore} {fs : FileSystem} {message : String}
    (refused : f.load fs = .error (.storage message)) : f.Refuses fs where
  read := ⟨message, fun _ loads => read_refused refused loads⟩
  copy t copied := by
    rw [read_refused refused (.inl rfl)]
    exact read_copy copied

/-- The bytes are a snapshot's: a file that holds them is read back as it, and one that holds less
of them, or another version, is refused. -/
structure Survives (path : String) (bytes : Bytes) (s : Snapshot) : Prop where
  whole : ∀ fs : FileSystem, fs.read path = .ok bytes → Recovers path fs s
  torn : ∀ (fs : FileSystem) (part : Bytes), fs.read path = .ok part →
    (part <+: bytes ∧ part ≠ bytes) ∨ ¬ Codec.natural 4 Codec.version <+: part →
      ∀ f : FileStore, f.path = path → f.Refuses fs

theorem survives_encode {s : Snapshot} {entries : List (Key × Claimants)} (formed : s.WellFormed)
    (order : entries.Perm s.toList) (fits : (Codec.encode entries).length < 2 ^ 64)
    (path : String) : Survives path (Codec.encode entries) s where
  whole _ content := recovers_of_load fun _ same =>
    FileStore.load_of_read (same ▸ content) formed order fits
  torn fs part content broken f same := by
    have unreadable (t : Snapshot) : Codec.decode part ≠ .ok (Codec.version, t) := by
      intro decoded
      obtain ⟨⟨rest, split⟩, strict⟩ | other := broken
      · have cut : rest ≠ [] := by
          rintro rfl
          exact strict ((List.append_nil part).symm.trans split)
        rw [Codec.decode_cut (Codec.formed_of_perm formed order) fits split cut] at decoded
        cases decoded
      · exact other (Codec.natural_of_decode decoded)
    obtain ⟨message, refused⟩ := FileStore.load_refused (same ▸ content) unreadable
    exact FileStore.refuses_of_load refused

namespace FileStore

variable {f : FileStore} {fs : FileSystem}

theorem Ready.leaves (ready : f.Ready fs) (bytes : Bytes) :
    ∃ fs', f.publish fs bytes = (.ok (), fs') ∧ fs'.read f.path = .ok bytes := by
  have published : f.publish fs bytes = (.ok (), (f.publish fs bytes).2) :=
    Prod.ext (ready.publish bytes) rfl
  exact ⟨_, published, read_publish published⟩

theorem Ready.write (ready : f.Ready fs) (s : Snapshot) :
    ∃ fs', f.write fs s = (.ok (), { f with copy := some s }, fs') ∧
      fs'.read f.path = .ok (Codec.encode s.toList) := by
  obtain ⟨fs', published, content⟩ := ready.leaves (Codec.encode s.toList)
  refine ⟨fs', ?_, content⟩
  rw [FileStore.write, published]

theorem ready_of_publish {bytes : Bytes} (h : (f.publish fs bytes).1 = .ok ()) : f.Ready fs :=
  (publish_alike (V := fun _ => True) (.refl fs) (fun _ _ => trivial) [] bytes).1.trans h

theorem write_iff_ready (s : Snapshot) : (f.write fs s).1 = .ok () ↔ f.Ready fs := by
  constructor
  · intro wrote
    exact ready_of_publish (congrArg Prod.fst (publish_of_write wrote).1)
  · intro ready
    obtain ⟨fs', wrote, -⟩ := ready.write s
    rw [wrote]

end FileStore

/-- A snapshot is written whenever a file can be published in its place, and what is left there
outlives the process, as it would with its entries in any other order.  No length is cut short as
long as the bytes number less than 2 ^ 64. -/
theorem durable_snapshot (s : Snapshot) (formed : s.WellFormed) (entries : List (Key × Claimants))
    (order : entries.Perm s.toList) (fits : (Codec.encode entries).length < 2 ^ 64)
    (f : FileStore) (fs : FileSystem) :
    ((f.write fs s).1 = .ok () ↔ f.Ready fs) ∧
    (f.Ready fs → ∃ fs', f.write fs s = (.ok (), { f with copy := some s }, fs') ∧
      fs'.read f.path = .ok (Codec.encode s.toList) ∧ Recovers f.path fs' s ∧
      Survives f.path (Codec.encode s.toList) s) ∧
    (f.Ready fs → ∃ fs', f.publish fs (Codec.encode entries) = (.ok (), fs') ∧
      fs'.read f.path = .ok (Codec.encode entries) ∧ Recovers f.path fs' s) ∧
    Survives f.path (Codec.encode entries) s := by
  have survives := survives_encode formed order fits f.path
  rw [Codec.length_encode_of_perm order] at fits
  have written := survives_encode formed (.refl _) fits f.path
  refine ⟨FileStore.write_iff_ready s, fun ready => ?_, fun ready => ?_, survives⟩
  · obtain ⟨fs', wrote, content⟩ := ready.write s
    exact ⟨fs', wrote, content, written.whole fs' content, written⟩
  · obtain ⟨fs', published, content⟩ := ready.leaves (Codec.encode entries)
    exact ⟨fs', published, content, survives.whole fs' content⟩

def archive : Snapshot :=
  let first := ((∅ : Snapshot).claim ⟨"8:foo_bar"⟩ "b").2
  ((first.claim ⟨"8:ärger"⟩ "c").2.claim ⟨"8:foo_bar"⟩ "a").2

def drawer : FileStore where
  path := "data/index.bin"
  copy := some ((∅ : Snapshot).insert ⟨"8:old"⟩ (.single "a"))

theorem durable_snapshot_archive :
    let wrote := drawer.write {} archive
    let bytes := Codec.encode archive.toList
    let config : Config := {
      storage := { path := drawer.path }
      lock := { backend := "memory" } }
    wrote.1 = .ok () ∧ wrote.2.1.copy = some archive ∧
      wrote.2.2.read drawer.path = .ok bytes ∧
      (∃ w, config.openIndex wrote.2.2 [] = .ok w ∧
        ((World.step (.lookup 8 "foo bar")).run
          ((World.steps [.lookup 8 "ärger", .setClock (.ofNat 2)]).run w).2).1 = .ids ["b", "a"]) ∧
      ∃ torn, wrote.2.2.write drawer.path (bytes.take 20) = .ok torn ∧ wrote.2.1.Refuses torn := by
  intro wrote bytes config
  have formed : archive.WellFormed := Snapshot.wellFormed_empty.claim.claim.claim
  have fits : (Codec.encode archive.toList.reverse).length < 2 ^ 64 := by decide +kernel
  have ready : drawer.Ready {} := by
    unfold FileStore.Ready
    decide +kernel
  obtain ⟨-, writes, -, -⟩ := durable_snapshot archive formed archive.toList.reverse
    (List.reverse_perm _) fits drawer {}
  obtain ⟨held, same, content, recovers, survives⟩ := writes ready
  have same : wrote = (.ok (), { drawer with copy := some archive }, held) := same
  rw [same]
  have opened : config.openIndex held [] = .ok _ := rfl
  refine ⟨rfl, rfl, content, ⟨_, opened, ?_⟩, ?_⟩
  · have answers := recovers.answers _ (World.opened_of_openIndex rfl opened).1 rfl
      [.lookup 8 "ärger", .setClock (.ofNat 2)] (by simp [Operation.IsReading]) 8 "foo bar" rfl
    refine answers.1.trans (congrArg Answer.ids ?_)
    decide +kernel
  · have left : wrote.2.2 = held := congrArg (·.2.2) same
    have content : (wrote.2.2.write drawer.path (bytes.take 20) >>= fun torn =>
        torn.read drawer.path) = .ok (bytes.take 20) := by decide +kernel
    rw [left] at content
    cases written : held.write drawer.path (bytes.take 20) with
    | error fault =>
      rw [written] at content
      cases content
    | ok torn =>
      rw [written] at content
      have part : bytes.take 20 <+: bytes ∧ bytes.take 20 ≠ bytes :=
        ⟨List.take_prefix 20 bytes, by decide +kernel⟩
      exact ⟨torn, rfl, survives.torn torn _ content (.inl part) _ rfl⟩

end ClaimIndex
