import ClaimIndex.Proofs.Likeness
import ClaimIndex.Proofs.Publication

namespace ClaimIndex

namespace FileStore

open FileSystem (Alike Confined Grows course route)

variable {f : FileStore} {V : List String → Prop} {fs fs' gs : FileSystem} {bytes : Bytes}

def reach (f : FileStore) : List (List String) :=
  route (FileSystem.parent f.path) ++ (course f.temporary ++ course f.path)

theorem route_subset {names : List String} (h : names ∈ route (FileSystem.parent f.path)) :
    names ∈ f.reach := List.mem_append_left _ h

theorem draft_subset {names : List String} (h : names ∈ course f.temporary) : names ∈ f.reach :=
  List.mem_append_right _ (List.mem_append_left _ h)

theorem course_subset {names : List String} (h : names ∈ course f.path) : names ∈ f.reach :=
  List.mem_append_right _ (List.mem_append_right _ h)

theorem publish_alike (h : Alike none V fs fs') (hV : ∀ names ∈ f.reach, V names)
    (bytes bytes' : Bytes) : (f.publish fs bytes).1 = (f.publish fs' bytes').1 ∧
      Alike none V (f.publish fs bytes).2 (f.publish fs' bytes').2 := by
  have made := h.createDirectories fun names hn => hV names (route_subset hn)
  unfold publish
  cases hc : fs.createDirectories (FileSystem.parent f.path) with
  | mk answer gs =>
  cases hc' : fs'.createDirectories (FileSystem.parent f.path) with
  | mk answer' gs' =>
  rw [hc, hc'] at made
  obtain ⟨rfl, made⟩ : answer = answer' ∧ Alike none V gs gs' := made
  cases answer with
  | error fault => exact ⟨rfl, made⟩
  | ok u =>
    have first : ∀ names ∈ course f.temporary, V names := fun names hn =>
      hV names (draft_subset hn)
    have wrote := made.write first bytes bytes'
    dsimp only
    generalize hw : gs.write f.temporary bytes = result at wrote
    generalize gs'.write f.temporary bytes' = result' at wrote
    cases wrote with
    | error fault => exact ⟨rfl, made⟩
    | ok wrote =>
      have moved := wrote.rename first (fun names hn => hV names (course_subset hn))
        (FileSystem.write_eq_ok hw).1
      dsimp only
      rename_i drafted drafted'
      generalize drafted.rename f.temporary f.path = result at moved
      generalize drafted'.rename f.temporary f.path = result' at moved
      cases moved with
      | error fault => exact ⟨rfl, wrote⟩
      | ok moved => exact ⟨rfl, moved⟩

theorem publish_eq_ok : f.publish fs bytes = (.ok (), gs) ↔
    ∃ made drafted, fs.createDirectories (FileSystem.parent f.path) = (.ok (), made) ∧
      made.write f.temporary bytes = .ok drafted ∧
      drafted.rename f.temporary f.path = .ok gs := by
  unfold publish
  constructor
  · intro h
    split at h
    · cases h
    · split at h
      · cases h
      · split at h
        · cases h
        · cases h
          exact ⟨_, _, ‹_›, ‹_›, ‹_›⟩
  · rintro ⟨made, drafted, hmade, hwrite, hrename⟩
    rw [hmade]
    dsimp only
    rw [hwrite]
    dsimp only
    rw [hrename]

theorem publish_keeps {I : FileSystem → Prop}
    (made : I (fs.createDirectories (FileSystem.parent f.path)).2)
    (wrote : ∀ {fs gs}, I fs → fs.write f.temporary bytes = .ok gs → I gs)
    (moved : ∀ {fs gs}, I fs → FileSystem.place f.temporary ≠ [] →
      fs.node? (FileSystem.place f.temporary) = some (.file bytes) →
      fs.rename f.temporary f.path = .ok gs → I gs) : I (f.publish fs bytes).2 := by
  unfold publish
  split
  · rename_i h
    rwa [h] at made
  · rename_i h
    rw [h] at made
    split
    · exact made
    · rename_i written
      split
      · exact wrote made written
      · rename_i renamed
        obtain ⟨ne, put⟩ := FileSystem.write_eq_ok written
        refine moved (wrote made written) ne ?_ renamed
        rw [put, FileSystem.node?_put ne, if_pos rfl]

theorem now_publish (f : FileStore) (fs : FileSystem) (bytes : Bytes) :
    (f.publish fs bytes).2.now = fs.now :=
  publish_keeps (I := fun gs => gs.now = fs.now) FileSystem.now_createDirectories
    (fun same h => (FileSystem.now_write h).trans same)
    fun same _ _ h => (FileSystem.now_rename h).trans same

theorem grows_publish (f : FileStore) (fs : FileSystem) (bytes : Bytes) :
    Grows fs (f.publish fs bytes).2 := by
  refine publish_keeps (I := Grows fs) ?_ ?_ ?_
  · have kept : FileSystem.Retains (fun _ => False) fs
        (fs.createDirectories (FileSystem.parent f.path)).2 := .createDirectories
    exact kept.directory
  · exact fun grown h names dir => FileSystem.grows_write h names (grown names dir)
  · exact fun grown ne file h names dir =>
      FileSystem.grows_rename ne (by simp [file]) h names (grown names dir)

theorem retains_publish {fault : IoFault} (h : f.publish fs bytes = (.error fault, gs)) :
    FileSystem.Retains (· = FileSystem.place f.temporary) fs gs := by
  have made : FileSystem.Retains (· = FileSystem.place f.temporary) fs
      (fs.createDirectories (FileSystem.parent f.path)).2 := .createDirectories
  unfold publish at h
  split at h
  · rename_i failed
    cases h
    rwa [failed] at made
  · rename_i done
    rw [done] at made
    split at h
    · cases h
      exact made
    · rename_i written
      split at h
      · cases h
        exact made.trans (FileSystem.retains_write written)
      · cases h

theorem confined_publish (f : FileStore) (fs : FileSystem) (bytes : Bytes) :
    Confined (· ∈ f.reach) fs (f.publish fs bytes).2 :=
  publish_keeps (I := Confined (· ∈ f.reach) fs) (.createDirectories fun _ => route_subset)
    (fun confined h => confined.trans (.write (fun _ => draft_subset) h))
    fun confined ne _ h =>
      confined.trans (.rename ne (fun _ => draft_subset) (fun _ => course_subset) h)

/-- Snapshots can be published.  Whether they can does not depend on their bytes. -/
def Ready (f : FileStore) (fs : FileSystem) : Prop := (f.publish fs []).1 = .ok ()

theorem Ready.of_alike (h : f.Ready fs) (alike : Alike none (· ∈ f.reach) fs fs') : f.Ready fs' :=
  (publish_alike alike (fun _ => id) [] []).1.symm.trans h

theorem Ready.publish (h : f.Ready fs) (bytes : Bytes) : (f.publish fs bytes).1 = .ok () :=
  (publish_alike (V := fun _ => True) (.refl fs) (fun _ _ => trivial) bytes []).1.trans h

theorem ready_of_reached (made : fs.createDirectories (FileSystem.parent f.path) = (.ok (), gs))
    (draft : gs.locateFile f.temporary = .ok (FileSystem.place f.temporary))
    (vacant : gs.node? (FileSystem.place f.temporary) ≠ some .directory)
    (target : gs.locate f.path = .ok (FileSystem.place f.path))
    (free : gs.node? (FileSystem.place f.path) ≠ some .directory) : f.Ready fs := by
  have ne := FileSystem.ne_nil_of_node? vacant
  have wrote :
      gs.write f.temporary [] = .ok (gs.put (FileSystem.place f.temporary) (.file [])) := by
    rw [FileSystem.write_of_ok draft, if_neg]
    exact fun dir => vacant (FileSystem.node?_of_kind? dir)
  have grown := FileSystem.grows_write wrote
  have there : (gs.put (FileSystem.place f.temporary) (.file [])).entries[
      FileSystem.place f.temporary]?.map FileSystem.Entry.node = some (.file []) := by
    rw [← FileSystem.node?_eq_map ne, FileSystem.node?_put ne, if_pos rfl]
  obtain ⟨entry, found, -⟩ := Option.map_eq_some_iff.1 there
  have vacated : (gs.put (FileSystem.place f.temporary) (.file [])).kind?
      (FileSystem.place f.path) ≠ some true := by
    intro dir
    have dir := FileSystem.node?_of_kind? dir
    rw [FileSystem.node?_put ne] at dir
    split at dir
    · cases dir
    · exact free dir
  have moved := FileSystem.rename_of_ok
    (FileSystem.locate_of_locate grown (FileSystem.locate_of_locateFile draft))
    (FileSystem.locate_of_locate grown target)
  rw [found] at moved
  split at moved
  · rename_i missing
    cases missing
  · exact absurd ‹_› vacated
  · exact congrArg Prod.fst (publish_eq_ok.2 ⟨_, _, made, wrote, moved⟩)

theorem Ready.published (h : f.Ready fs) (bytes : Bytes) : f.Ready (f.publish fs bytes).2 := by
  have done := h.publish bytes
  cases published : f.publish fs bytes with
  | mk answer gs =>
  rw [published] at done
  obtain rfl : answer = .ok () := done
  obtain ⟨made, drafted, hmade, hwrite, hrename⟩ := publish_eq_ok.1 published
  have ne := (FileSystem.write_eq_ok hwrite).1
  have file : drafted.node? (FileSystem.place f.temporary) = some (.file bytes) := by
    rw [(FileSystem.write_eq_ok hwrite).2, FileSystem.node?_put ne, if_pos rfl]
  have moved : Grows drafted gs := FileSystem.grows_rename ne (by simp [file]) hrename
  have grown : Grows made gs := fun names dir =>
    moved names (FileSystem.grows_write hwrite names dir)
  obtain ⟨-, -, target, -, -⟩ := FileSystem.rename_eq_ok hrename
  refine ready_of_reached (FileSystem.createDirectories_again hmade grown)
    (FileSystem.locateFile_of_grows grown (FileSystem.write_free hwrite).1) ?_
    (FileSystem.locate_of_locate moved target) ?_
  · rw [FileSystem.node?_rename ne hrename]
    split
    · simp [file]
    · simp
  · rw [FileSystem.node?_rename ne hrename, if_pos rfl, file]
    simp

end FileStore

theorem Store.write_failed {s : Store} {fs : FileSystem} {new : Snapshot} {c : Changes}
    {fault : Fault} (failed : (s.write fs new c).1 = .error fault) :
    (s.write fs new c).2.1 = s ∧ ∃ f : FileStore, s = .file f ∧
      FileSystem.Retains (· = FileSystem.place f.temporary) fs (s.write fs new c).2.2 := by
  cases s with
  | memory m | whole m => cases failed
  | file f =>
    cases published : f.publish fs (Codec.encode new.toList) with
    | mk answer gs =>
    simp only [write, FileStore.write, published] at failed ⊢
    cases answer with
    | ok u => cases failed
    | error fault => exact ⟨rfl, f, rfl, FileStore.retains_publish published⟩

namespace FileLock

open FileSystem (Alike Confined course route place)

variable {l : FileLock} {V : List String → Prop} {fs fs' gs : FileSystem}

def reach (l : FileLock) : List (List String) :=
  route (FileSystem.parent l.path) ++ course l.path

theorem isStale_alike (h : Alike (some (place l.path)) V fs fs')
    (hV : ∀ names ∈ course l.path, V names) : l.isStale fs = l.isStale fs' := by
  have aged (fs : FileSystem) : l.isStale fs = ((fs.find? l.path).map
      FileSystem.Entry.modified).any fun time => time + l.staleAfter.toNanos < fs.now := by
    unfold isStale
    cases fs.find? l.path <;> rfl
  rw [aged, aged, (h.find? hV).2 rfl, h.clock (by simp)]

theorem attempt_alike (h : Alike (some (place l.path)) V fs fs')
    (hV : ∀ names ∈ course l.path, V names) : (l.attempt fs).1 = (l.attempt fs').1 ∧
      Alike (some (place l.path)) V (l.attempt fs).2 (l.attempt fs').2 := by
  have created {fs fs'} (h : Alike (some (place l.path)) V fs fs') :
      Outcomes (Alike (some (place l.path)) V) (l.create fs) (l.create fs') :=
    h.create hV (Bytes.ofString (toString l.owner ++ "\n"))
  have first := created h
  unfold attempt
  rw [isStale_alike h hV]
  generalize l.create fs = made at first
  generalize l.create fs' = made' at first
  cases first with
  | ok alike => exact ⟨rfl, alike⟩
  | error fault =>
    cases fault with
    | alreadyExists =>
      dsimp only
      split
      · have broken := h.remove hV
        generalize fs.remove l.path = removed at broken
        generalize fs'.remove l.path = removed' at broken
        cases broken with
        | error fault => exact ⟨rfl, h⟩
        | ok alike =>
          have again := created alike
          dsimp only
          generalize l.create _ = made at again
          generalize l.create _ = made' at again
          cases again with
          | error fault => exact ⟨rfl, alike⟩
          | ok alike => exact ⟨rfl, alike⟩
      · exact ⟨rfl, h⟩
    | _ => exact ⟨rfl, h⟩

theorem retry_alike (n : Nat) (h : Alike (some (place l.path)) V fs fs')
    (hV : ∀ names ∈ course l.path, V names) : (l.retry n fs).1 = (l.retry n fs').1 ∧
      Alike (some (place l.path)) V (l.retry n fs).2 (l.retry n fs').2 := by
  induction n generalizing fs fs' with
  | zero => exact attempt_alike h hV
  | succ n ih =>
    have first := attempt_alike h hV
    unfold retry
    cases ha : l.attempt fs with
    | mk answer gs =>
    cases ha' : l.attempt fs' with
    | mk answer' gs' =>
    rw [ha, ha'] at first
    obtain ⟨rfl, alike⟩ : answer = answer' ∧ Alike _ V gs gs' := first
    cases answer with
    | error fault => exact ⟨rfl, alike⟩
    | ok taken =>
      cases taken with
      | false => exact ih (alike.wait _)
      | true => exact ⟨rfl, alike⟩

theorem acquire_alike (h : Alike (some (place l.path)) V fs fs')
    (hV : ∀ names ∈ l.reach, V names) : (l.acquire fs).1 = (l.acquire fs').1 ∧
      Alike (some (place l.path)) V (l.acquire fs).2 (l.acquire fs').2 := by
  have made := h.createDirectories fun names hn => hV names (List.mem_append_left _ hn)
  unfold acquire
  cases hc : fs.createDirectories (FileSystem.parent l.path) with
  | mk answer gs =>
  cases hc' : fs'.createDirectories (FileSystem.parent l.path) with
  | mk answer' gs' =>
  rw [hc, hc'] at made
  obtain ⟨rfl, alike⟩ : answer = answer' ∧ Alike _ V gs gs' := made
  cases answer with
  | error fault => exact ⟨rfl, alike⟩
  | ok u => exact retry_alike _ alike fun names hn => hV names (List.mem_append_right _ hn)

theorem release_alike (h : Alike (some (place l.path)) V fs fs')
    (hV : ∀ names ∈ l.reach, V names) : (l.release fs).1 = (l.release fs').1 ∧
      Alike (some (place l.path)) V (l.release fs).2 (l.release fs').2 := by
  have removed := h.remove fun names hn => hV names (List.mem_append_right _ hn)
  unfold release
  generalize fs.remove l.path = gone at removed
  generalize fs'.remove l.path = gone' at removed
  cases removed with
  | ok alike => exact ⟨rfl, alike⟩
  | error fault => cases fault <;> exact ⟨rfl, h⟩

theorem confined_attempt (hV : ∀ names ∈ course l.path, V names) :
    Confined V fs (l.attempt fs).2 := by
  have created {fs gs} (h : l.create fs = .ok gs) : Confined V fs gs := by
    unfold create at h
    exact .create hV h
  unfold attempt
  split
  · exact created ‹_›
  · split
    · split
      · exact .refl fs
      · rename_i removed
        split
        · exact (Confined.remove hV removed).trans (created ‹_›)
        · exact .remove hV removed
    · exact .refl fs
  · exact .refl fs

theorem confined_retry (n : Nat) (hV : ∀ names ∈ course l.path, V names) :
    Confined V fs (l.retry n fs).2 := by
  induction n generalizing fs with
  | zero => exact confined_attempt hV
  | succ n ih =>
    have first : Confined V fs (l.attempt fs).2 := confined_attempt hV
    unfold retry
    split
    · rename_i h
      rw [h] at first
      exact (first.trans (.wait _)).trans ih
    · exact first

theorem confined_acquire : Confined (· ∈ l.reach) fs (l.acquire fs).2 := by
  have made : Confined (· ∈ l.reach) fs
      (fs.createDirectories (FileSystem.parent l.path)).2 :=
    .createDirectories fun names hn => List.mem_append_left _ hn
  unfold acquire
  split
  · rename_i h
    rwa [h] at made
  · rename_i h
    rw [h] at made
    exact made.trans (confined_retry _ fun names hn => List.mem_append_right _ hn)

theorem confined_release : Confined (· ∈ l.reach) fs (l.release fs).2 := by
  unfold release
  split
  · exact .remove (fun names hn => List.mem_append_right _ hn) ‹_›
  · exact .refl fs
  · exact .refl fs

end FileLock

namespace Lock

open FileSystem (Alike Confined Grows)

variable {l : Lock} {f : FileStore} {fs fs' : FileSystem}

def reach : Lock → List (List String)
  | memory _ => []
  | file l => l.reach

def mark : Lock → Option (List String)
  | memory _ => none
  | file l => some (FileSystem.place l.path)

theorem acquire_file (l : FileLock) (fs : FileSystem) :
    (file l).acquire fs = ((l.acquire fs).1, file l, (l.acquire fs).2) := by
  unfold Lock.acquire
  dsimp only

theorem release_file (l : FileLock) (fs : FileSystem) :
    (file l).release fs = ((l.release fs).1, file l, (l.release fs).2) := by
  unfold Lock.release
  dsimp only

def Agree (l : Lock) (fs fs' : FileSystem) : Prop := Alike l.mark (· ∈ l.reach) fs fs'

theorem agree_acquire (h : l.Agree fs fs') :
    (l.acquire fs).1 = (l.acquire fs').1 ∧ (l.acquire fs).2.1 = (l.acquire fs').2.1 ∧
      (l.acquire fs).2.1.Agree (l.acquire fs).2.2 (l.acquire fs').2.2 := by
  cases l with
  | memory held => exact ⟨rfl, rfl, h⟩
  | file l =>
    obtain ⟨answer, alike⟩ := FileLock.acquire_alike h fun _ => id
    rw [acquire_file, acquire_file]
    exact ⟨answer, rfl, alike⟩

theorem agree_release (h : l.Agree fs fs') :
    (l.release fs).1 = (l.release fs').1 ∧ (l.release fs).2.1 = (l.release fs').2.1 ∧
      (l.release fs).2.1.Agree (l.release fs).2.2 (l.release fs').2.2 := by
  cases l with
  | memory held => exact ⟨rfl, rfl, h⟩
  | file l =>
    obtain ⟨answer, alike⟩ := FileLock.release_alike h fun _ => id
    rw [release_file, release_file]
    exact ⟨answer, rfl, alike⟩

theorem agree_isHeld (h : l.Agree fs fs') : l.isHeld fs = l.isHeld fs' := by
  cases l with
  | memory held => rfl
  | file l => exact Alike.exists? h fun _ hn => List.mem_append_right _ hn

/-- A lock and a store do not get in each other's way: the file of the lock is none of the store's
places, and where both depend on a place, there is a directory. -/
structure Apart (l : Lock) (f : FileStore) (fs : FileSystem) : Prop where
  own : ∀ place ∈ l.mark, place ∉ f.reach
  shared : ∀ names ∈ l.reach, names ∈ f.reach → fs.node? names = some .directory

namespace Apart

theorem grows (h : l.Apart f fs) (grown : Grows fs fs') : l.Apart f fs' where
  own := h.own
  shared names hl hf := grown names (h.shared names hl hf)

theorem still (h : l.Apart f fs) (grown : Grows fs fs') (confined : Confined (· ∈ l.reach) fs fs')
    {names : List String} (hf : names ∈ f.reach) : fs'.node? names = fs.node? names := by
  by_cases hl : names ∈ l.reach
  · have dir := h.shared names hl hf
    rw [dir, grown names dir]
  · exact confined.node hl

theorem acquire (h : l.Apart f fs) : (l.acquire fs).2.1.Apart f (l.acquire fs).2.2 ∧
    ∀ names ∈ f.reach, (l.acquire fs).2.2.node? names = fs.node? names := by
  cases l with
  | memory held => exact ⟨⟨h.own, h.shared⟩, fun _ _ => rfl⟩
  | file l =>
    have grown := (l.retains_acquire fs).directory
    rw [acquire_file]
    exact ⟨h.grows grown, fun _ => h.still grown FileLock.confined_acquire⟩

theorem release (h : l.Apart f fs) : (l.release fs).2.1.Apart f (l.release fs).2.2 ∧
    ∀ names ∈ f.reach, (l.release fs).2.2.node? names = fs.node? names := by
  cases l with
  | memory held => exact ⟨⟨h.own, h.shared⟩, fun _ _ => rfl⟩
  | file l =>
    have grown := (l.retains_release fs).directory
    rw [release_file]
    exact ⟨h.grows grown, fun _ => h.still grown FileLock.confined_release⟩

theorem publish (h : l.Apart f fs') (agree : l.Agree fs fs') (bytes : Bytes) :
    l.Apart f (f.publish fs' bytes).2 ∧ l.Agree fs (f.publish fs' bytes).2 := by
  have grown := f.grows_publish fs' bytes
  refine ⟨h.grows grown, fun hm => ?_, fun names hl => ?_⟩
  · rw [f.now_publish]
    exact agree.clock hm
  · rw [agree.same names hl]
    by_cases hf : names ∈ f.reach
    · have dir := h.shared names hl hf
      have seen {fs : FileSystem} (dir : fs.node? names = some .directory) :
          FileSystem.look l.mark fs names = some (true, none) := by
        obtain ⟨entry, there, node⟩ := Option.map_eq_some_iff.1 dir
        rw [FileSystem.look, there, Option.map_some, node, if_neg]
        · rfl
        · exact fun marked => h.own names marked hf
      rw [seen dir, seen (grown names dir)]
    · unfold FileSystem.look
      rw [f.confined_publish fs' bytes names hf]

end Apart

end Lock

end ClaimIndex
