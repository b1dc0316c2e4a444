import ClaimIndex.Proofs.Durability
import ClaimIndex.Proofs.Interlude
import ClaimIndex.Proofs.Residue

namespace ClaimIndex

open FileSystem (place)

namespace Bytes

theorem ofString_eq (s : String) : ofString s = s.toList.flatMap String.utf8EncodeChar := by
  conv_lhs => rw [← String.ofList_toList (s := s)]
  exact List.toList_data_toByteArray

theorem mem_ofString {s : String} {b : UInt8} (ascii : ∀ c ∈ s.toList, c.val ≤ 127)
    (h : b ∈ ofString s) : ∃ c ∈ s.toList, b = c.val.toUInt8 := by
  rw [ofString_eq] at h
  obtain ⟨c, there, coded⟩ := List.mem_flatMap.1 h
  rw [String.utf8EncodeChar_eq_singleton (Char.utf8Size_eq_one_iff.2 (ascii c there))] at coded
  exact ⟨c, there, List.mem_singleton.1 coded⟩

end Bytes

theorem FileSystem.node?_created {fs gs : FileSystem} {path : String} {content : Bytes}
    (created : fs.create path content = .ok gs) : gs.node? (place path) = some (.file content) := by
  cases found : fs.locateFile path with
  | error fault => cases (FileSystem.create_of_error found).symm.trans created
  | ok names =>
    obtain rfl := FileSystem.eq_place_of_locateFile found
    rw [FileSystem.create_of_ok found] at created
    split at created
    · rename_i free
      cases created
      have ne : place path ≠ [] := by
        intro root
        rw [root] at free
        cases free
      rw [FileSystem.node?_put ne, if_pos rfl]
    · cases created

namespace FileLock

variable (l : FileLock) {fs gs : FileSystem}

def content : Bytes := Bytes.ofString (toString l.owner ++ "\n")

theorem mem_owner {c : Char} (h : c ∈ (toString l.owner ++ "\n").toList) :
    c.isDigit = true ∨ c = '\n' := by
  rw [String.toList_append] at h
  obtain digit | last := List.mem_append.1 h
  · have written : toString l.owner = String.ofList (Nat.toDigits 10 l.owner) := rfl
    rw [written, String.toList_ofList] at digit
    exact .inl (Nat.isDigit_of_mem_toDigits (by decide) (by decide) digit)
  · exact .inr (List.mem_singleton.1 last)

theorem one_notMem_content : 1 ∉ l.content := by
  intro there
  have bounds {c : Char} (h : c ∈ (toString l.owner ++ "\n").toList) :
      10 ≤ c.val.toNat ∧ c.val.toNat ≤ 57 := by
    obtain digit | rfl := l.mem_owner h
    · rw [Char.isDigit, Bool.and_eq_true, decide_eq_true_iff, decide_eq_true_iff] at digit
      have low := UInt32.le_iff_toNat_le.1 digit.1
      have high := UInt32.le_iff_toNat_le.1 digit.2
      exact ⟨le_trans (by decide) low, high⟩
    · exact ⟨by decide, by decide⟩
  obtain ⟨c, written, same⟩ := Bytes.mem_ofString (fun c h =>
    UInt32.le_iff_toNat_le.2 (le_trans (bounds h).2 (by decide))) there
  have equal := congrArg UInt8.toNat same
  rw [UInt32.toNat_toUInt8] at equal
  have := bounds written
  have : (1 : UInt8).toNat = 1 := rfl
  omega

theorem undecodable (s : Snapshot) : Codec.decode l.content ≠ .ok (Codec.version, s) := by
  intro decoded
  obtain ⟨rest, split⟩ := Codec.natural_of_decode decoded
  refine l.one_notMem_content ?_
  rw [← split]
  exact .head _

variable {l}

theorem held_create (created : l.create fs = .ok gs) :
    gs.node? (place l.path) = some (.file l.content) :=
  FileSystem.node?_created created

theorem held_attempt (taken : (l.attempt fs).1 = .ok true) :
    (l.attempt fs).2.node? (place l.path) = some (.file l.content) := by
  unfold attempt at taken ⊢
  split at taken
  · rename_i created
    exact held_create created
  · split at taken
    · split at taken
      · cases taken
      · split at taken
        · rename_i stale _ _ removed _ _ created
          rw [if_pos stale]
          exact held_create created
        · cases taken
    · cases taken
  · cases taken

theorem held_retry {n : Nat} (taken : (l.retry n fs).1 = .ok true) :
    (l.retry n fs).2.node? (place l.path) = some (.file l.content) := by
  induction n generalizing fs with
  | zero => exact held_attempt taken
  | succ n ih =>
    rw [retry] at taken ⊢
    have first : (l.attempt fs).1 = .ok true → _ := held_attempt
    split at taken
    · exact ih taken
    · exact first taken

theorem held_acquire (taken : (l.acquire fs).1 = .ok true) :
    (l.acquire fs).2.node? (place l.path) = some (.file l.content) := by
  unfold acquire at taken ⊢
  split at taken
  · cases taken
  · exact held_retry taken

end FileLock

theorem Store.unread {s : Store} {fs : FileSystem} {path : String} {l : FileLock}
    (home : s.home = .inr path) (there : fs.read path = .ok l.content) (t : Snapshot) :
    (s.read fs true).1 ≠ .ok t := by
  cases s with
  | memory m | whole m => cases home
  | file f =>
    obtain rfl : f.path = path := Sum.inr.inj home
    obtain ⟨message, refused⟩ := FileStore.load_refused there l.undecodable
    intro answered
    cases refused.symm.trans ((f.read_true fs).symm.trans answered)

namespace World

variable {w v : World} {groups : List Group} {player : Player} {path : String} {s : Settings}
  {purge : Option Instant} {report : Report}

structure Reaches (w : World) (path : String) : Prop where
  home : w.store.home = .inr path
  reached : w.files.locate path = .ok (place path)

theorem Reaches.moves (h : w.Reaches path) (hm : Moves Motion.Tame w v) : v.Reaches path :=
  ⟨(Moves.home hm).trans h.home,
    FileSystem.locate_of_locate (Preserves.moves hm).files.directory h.reached⟩

theorem reaches_course (hp : player.Tame) (home : w.store.home = .inr path)
    (hc : Rebuild.Course (handle player) s purge w v report) : v.Reaches path := by
  refine since_course (I := fun w => w.Reaches path) hp (fun m w hm h => h.moves (.one hm))
    (fun _ _ h => ⟨h.home, h.reached⟩) hc fun old x y moved latest wrote => ?_
  rw [reply_writeStore] at wrote
  obtain ⟨done, rfl⟩ := Prod.mk.inj wrote
  obtain ⟨holds, stays⟩ := Store.holds_write latest (Prod.ext done rfl)
  have there := (stays path).2 ((Moves.home moved).trans home)
  exact ⟨there, (FileSystem.read_eq_ok.1 ((Store.holds_inr there).1 holds)).1⟩

structure Collides (w : World) (path : String) : Prop extends Reaches w path where
  lock : ∃ lock, w.lock.path? = some lock ∧ place path = place lock

theorem Collides.moves (h : w.Collides path) (hm : Moves Motion.Tame w v) : v.Collides path :=
  ⟨h.toReaches.moves hm, (Preserves.moves hm).lock ▸ h.lock⟩

theorem Collides.acquire (h : w.Collides path)
    (taken : (reply player .acquire).run w = (.ok true, v)) :
    v.Collides path ∧ ∃ l : FileLock, v.files.read path = .ok l.content := by
  obtain ⟨⟨home, reached⟩, lock, held, same⟩ := h
  rw [reply_acquire] at taken
  obtain ⟨answer, rfl⟩ := Prod.mk.inj taken
  cases found : w.lock with
  | memory there =>
    rw [found] at held
    cases held
  | file l =>
    rw [found] at held
    obtain rfl : l.path = lock := Option.some.inj held
    rw [found, Lock.acquire_file] at answer
    dsimp only
    rw [Lock.acquire_file]
    have made := (l.retains_acquire (w.files.wait 1)).directory
    have located := FileSystem.locate_of_locate (fun names dir =>
      made names ((FileSystem.node?_wait 1).trans dir)) reached
    refine ⟨⟨⟨home, located⟩, l.path, rfl, same⟩, l,
      FileSystem.read_eq_ok.2 ⟨located, ?_⟩⟩
    rw [same]
    exact FileLock.held_acquire answer

theorem acquired_of_lock {times : Nat × Nat × Instant}
    (hy : (Rebuild.lock s).Yields (handle player) w (.ok times) v) : ∃ acquired,
      (handle player .acquire).run w = (.ok true, acquired) ∧
        v = { acquired with cache := acquired.cache.clear } := by
  obtain ⟨waiting, acquired, entered, dated, asked, took, timed, read, cleared, -⟩ :=
    Rebuild.yields_taken hy
  obtain rfl : w = waiting := congrArg Prod.snd asked
  obtain rfl : acquired = entered := congrArg Prod.snd timed
  obtain rfl : acquired = dated := congrArg Prod.snd read
  exact ⟨acquired, took, (congrArg Prod.snd cleared).symm⟩

theorem Collides.not_course (h : w.Collides path) (hp : player.Minor) (stands : w.Stands groups) :
    ¬ Rebuild.Course (handle player) s purge w v report := by
  rintro ⟨enter, -, lock, publish, -, -, -⟩
  rename_i entered locked published released settled asked taken left begun commit
  obtain rfl : { w with running := true } = entered := congrArg Prod.snd enter
  have standing : Stands { w with running := true } groups := ⟨stands.registry, stands.waiting⟩
  have entered : Collides { w with running := true } path := ⟨⟨h.home, h.reached⟩, h.lock⟩
  obtain ⟨acquired, acquire, rfl⟩ := acquired_of_lock lock
  obtain ⟨x, y, before, took, after⟩ :=
    standing.replied hp acquire nofun (by rintro _ _ ⟨⟩; simp)
  have tame {u v : World} (hm : Moves Motion.Minor u v) : Moves Motion.Tame u v :=
    hm.mono fun _ => Motion.Minor.tame
  obtain ⟨collides, l, held⟩ := (entered.moves (tame before)).acquire took
  have stood := standing.asked hp acquire nofun
  have cleared : Stands { acquired with cache := acquired.cache.clear } groups :=
    ⟨stood.registry, stood.waiting⟩
  obtain ⟨old, _, _, _, _, read, -⟩ := Rebuild.yields_publish publish
  obtain ⟨x', y', waited, answered, -⟩ :=
    cleared.replied hp read nofun (by rintro _ _ ⟨⟩; simp)
  have home : x'.store.home = .inr path :=
    (Moves.home (tame waited)).trans (collides.moves (tame after)).home
  have there : x'.files.read path = .ok l.content := by
    rw [Moves.files waited]
    exact (congrArg (·.read path) (Moves.files after)).trans held
  exact Store.unread home there old (congrArg Prod.fst answered)

end World

end ClaimIndex
