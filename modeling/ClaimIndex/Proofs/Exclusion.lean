import ClaimIndex.Proofs.Likeness

/-! Who holds a lock whose state is one file.  A handle that has taken the lock lately is the only
one that has, as long as every handle that gives the lock back has not held it for too long: a
release removes the lock's file whoever has made it. -/

namespace ClaimIndex

open FileSystem (Retains place)

namespace FileSystem

variable {fs gs : FileSystem} {path : String}

theorem create_eq_ok {content : Bytes} (h : fs.create path content = .ok gs) :
    fs.locateFile path = .ok (place path) ∧ fs.node? (place path) = none ∧
      gs = fs.put (place path) (.file content) := by
  unfold create at h
  cases found : fs.locateFile path with
  | error fault =>
    rw [found] at h
    cases h
  | ok names =>
    obtain rfl := eq_place_of_locateFile found
    rw [found] at h
    simp only [bind, Except.bind] at h
    split at h
    · cases h
    · cases h
      exact ⟨rfl, ‹_›, rfl⟩

theorem entry?_put {names : List String} (ne : names ≠ []) (node : Node) :
    FileSystem.entry? (fs.put names node) names = some ⟨node, fs.now⟩ := by
  have now (seen : Bool) : (if seen then fs else fs.touchParent names).now = fs.now := by
    cases seen
    · exact now_touch
    · rfl
  rw [put, entry?_set ne, if_pos rfl, now]

theorem now_remove (h : fs.remove path = .ok gs) : gs.now = fs.now := by
  cases located : fs.locate path with
  | error fault => cases (remove_of_error located).symm.trans h
  | ok names =>
    rw [remove_of_ok located] at h
    split at h
    · cases h
    · cases h
    · cases h
      exact now_touch

structure Stamped (path : String) (time : Int) (fs : FileSystem) : Prop where
  ready : fs.createDirectories (parent path) = (.ok (), fs)
  located : fs.locateFile path = .ok (place path)
  stamp : (fs.entry? (place path)).map Entry.modified = some time

namespace Stamped

variable {time : Int} {content : Bytes}

theorem wait (h : Stamped path time fs) (nanos : Nat) : Stamped path time (fs.wait nanos) := by
  have grown : Grows fs (fs.wait nanos) := fun names dir => (node?_wait nanos).trans dir
  refine ⟨createDirectories_again h.ready grown, locateFile_of_grows grown h.located, ?_⟩
  rw [← h.stamp]
  cases place path <;> rfl

theorem create (ready : fs.createDirectories (parent path) = (.ok (), fs))
    (created : fs.create path content = .ok gs) : Stamped path gs.now gs := by
  obtain ⟨located, free, rfl⟩ := create_eq_ok created
  have grown := (Retains.create created).directory
  have ne : place path ≠ [] := by
    intro root
    rw [root] at free
    cases free
  refine ⟨createDirectories_again ready grown, locateFile_of_grows grown located, ?_⟩
  rw [entry?_put ne, now_put]
  rfl

theorem exists_entry (h : Stamped path time fs) : ∃ entry,
    fs.find? path = some entry ∧ entry.modified = time := by
  obtain ⟨entry, there, stamp⟩ := Option.map_eq_some_iff.1 h.stamp
  refine ⟨entry, ?_, stamp⟩
  unfold find?
  rw [locate_of_locateFile h.located]
  exact there

theorem refuses (h : Stamped path time fs) :
    fs.create path content = .error .alreadyExists := by
  obtain ⟨entry, there, -⟩ := Option.map_eq_some_iff.1 h.stamp
  have taken : fs.kind? (place path) ≠ none := by
    unfold kind? node?
    rw [there]
    simp
  rw [create_of_ok h.located, if_neg taken]

end Stamped

end FileSystem

namespace FileLock

open FileSystem (Stamped)

variable {l : FileLock} {fs gs : FileSystem} {time : Int}

theorem now_attempt : (l.attempt fs).2.now = fs.now := by
  have created {fs gs : FileSystem} (h : l.create fs = .ok gs) : gs.now = fs.now := by
    obtain ⟨-, -, rfl⟩ := FileSystem.create_eq_ok h
    exact FileSystem.now_put _
  unfold attempt
  split
  · exact created ‹_›
  · split
    · split
      · rfl
      · rename_i removed
        split
        · exact (created ‹_›).trans (FileSystem.now_remove removed)
        · exact FileSystem.now_remove removed
    · rfl
  · rfl

theorem now_retry (n : Nat) : fs.now ≤ (l.retry n fs).2.now := by
  induction n generalizing fs with
  | zero => exact Int.le_of_eq now_attempt.symm
  | succ n ih =>
    have same : (l.attempt fs).2.now = fs.now := now_attempt
    unfold retry
    split
    · rename_i gs attempted
      rw [attempted] at same
      have later : (gs.wait l.interval.toNanos).now ≤ _ := ih
      have waited : (gs.wait l.interval.toNanos).now = gs.now + l.interval.toNanos := rfl
      dsimp only at same
      omega
    · exact Int.le_of_eq same.symm

theorem now_acquire : fs.now ≤ (l.acquire fs).2.now := by
  have same : (fs.createDirectories (FileSystem.parent l.path)).2.now = fs.now :=
    FileSystem.now_createDirectories
  unfold acquire
  split
  · rename_i made
    rw [made] at same
    exact Int.le_of_eq same.symm
  · rename_i made
    rw [made] at same
    exact same ▸ now_retry _

theorem now_release : (l.release fs).2.now = fs.now := by
  unfold release
  split
  · exact FileSystem.now_remove ‹_›
  · rfl
  · rfl

theorem stamped_attempt (ready : fs.createDirectories (FileSystem.parent l.path) = (.ok (), fs))
    (taken : (l.attempt fs).1 = .ok true) :
    Stamped l.path (l.attempt fs).2.now (l.attempt fs).2 := by
  unfold attempt at taken ⊢
  cases created : l.create fs with
  | ok gs => exact .create ready created
  | error fault =>
    rw [created] at taken
    cases fault with
    | alreadyExists =>
      dsimp only at taken ⊢
      split
      · rename_i stale
        rw [if_pos stale] at taken
        cases removed : fs.remove l.path with
        | error fault =>
          rw [removed] at taken
          cases taken
        | ok gs =>
          rw [removed] at taken
          dsimp only at taken ⊢
          cases again : l.create gs with
          | error fault =>
            rw [again] at taken
            cases taken
          | ok made =>
            have still :=
              FileSystem.createDirectories_again ready (Retains.remove removed).directory
            exact .create still again
      · rename_i fresh
        rw [if_neg fresh] at taken
        cases taken
    | _ => cases taken

theorem stamped_retry {n : Nat}
    (ready : fs.createDirectories (FileSystem.parent l.path) = (.ok (), fs))
    (taken : (l.retry n fs).1 = .ok true) :
    Stamped l.path (l.retry n fs).2.now (l.retry n fs).2 := by
  induction n generalizing fs with
  | zero => exact stamped_attempt ready taken
  | succ n ih =>
    have grown := (l.retains_attempt fs).directory
    have first := stamped_attempt (l := l) ready
    unfold retry at taken ⊢
    split
    · rename_i gs attempted
      rw [attempted] at taken grown
      refine ih (FileSystem.createDirectories_again ready fun names dir => ?_) taken
      exact (FileSystem.node?_wait _).trans (grown names dir)
    · rename_i refused
      split at taken
      · exact absurd ‹_› (refused _)
      · exact first taken

theorem stamped_acquire (taken : (l.acquire fs).1 = .ok true) :
    Stamped l.path (l.acquire fs).2.now (l.acquire fs).2 := by
  unfold acquire at taken ⊢
  split
  · rename_i made
    rw [made] at taken
    cases taken
  · rename_i made
    rw [made] at taken
    exact stamped_retry (FileSystem.createDirectories_again made fun _ => id) taken

section Fresh

variable (h : Stamped l.path time fs)

include h

theorem attempt_stamped (fresh : fs.now ≤ time + l.staleAfter.toNanos) :
    l.attempt fs = (.ok false, fs) := by
  obtain ⟨entry, there, stamp⟩ := h.exists_entry
  have unbroken : l.isStale fs = false := by
    unfold isStale
    rw [there]
    exact decide_eq_false (by omega)
  unfold attempt create
  rw [h.refuses]
  dsimp only
  rw [unbroken]
  rfl

theorem retry_stamped {n : Nat} (fresh : (l.retry n fs).2.now ≤ time + l.staleAfter.toNanos) :
    (l.retry n fs).1 = .ok false ∧ Stamped l.path time (l.retry n fs).2 := by
  have early : fs.now ≤ time + l.staleAfter.toNanos := Int.le_trans (now_retry n) fresh
  have refused := attempt_stamped h early
  induction n generalizing fs with
  | zero =>
    rw [retry, refused]
    exact ⟨rfl, h⟩
  | succ n ih =>
    rw [retry, refused] at fresh ⊢
    have later := Int.le_trans (now_retry n) fresh
    exact ih (h.wait _) fresh later (attempt_stamped (h.wait _) later)

theorem acquire_stamped (fresh : (l.acquire fs).2.now ≤ time + l.staleAfter.toNanos) :
    (l.acquire fs).1 = .ok false ∧ Stamped l.path time (l.acquire fs).2 := by
  have ready := h.ready
  unfold acquire at fresh ⊢
  rw [ready] at fresh ⊢
  exact retry_stamped h fresh

end Fresh

end FileLock

structure Handles where
  lock : Nat → FileLock
  path : String
  staleAfter : Span
  path_eq (i : Nat) : (lock i).path = path
  staleAfter_eq (i : Nat) : (lock i).staleAfter = staleAfter

namespace Handles

inductive Turn
  | wait (nanos : Nat)
  | acquire (i : Nat)
  | release (i : Nat)

structure State where
  files : FileSystem
  since : Nat → Option Int := fun _ => none

variable (hs : Handles) (s : State)

def take (i : Nat) : State :=
  match (hs.lock i).acquire s.files with
  | (.ok true, files) => ⟨files, fun k => if k = i then some files.now else s.since k⟩
  | (_, files) => { s with files }

def give (i : Nat) : State :=
  match s.since i with
  | none => s
  | some _ => ⟨((hs.lock i).release s.files).2, fun k => if k = i then none else s.since k⟩

def turn : Turn → State
  | .wait nanos => { s with files := s.files.wait nanos }
  | .acquire i => hs.take s i
  | .release i => hs.give s i

def run (turns : List Turn) : State := turns.foldl hs.turn s

def isTimely : Turn → Bool
  | .release i => (s.since i).all fun since => s.files.now ≤ since + hs.staleAfter.toNanos
  | _ => true

def areTimely (s : State) : List Turn → Bool
  | [] => true
  | t :: ts => hs.isTimely s t && areTimely (hs.turn s t) ts

def Fresh (i : Nat) (time : Int) : Prop :=
  s.since i = some time ∧ s.files.now ≤ time + hs.staleAfter.toNanos

/-- Whoever has taken the lock lately is the only one, and the lock's file tells when. -/
def Exclusive : Prop := ∀ i time, hs.Fresh s i time →
  FileSystem.Stamped hs.path time s.files ∧ ∀ j since, hs.Fresh s j since → j = i

variable {hs s} {i : Nat} {time : Int}

theorem Fresh.stamped (h : hs.Exclusive s) (fresh : hs.Fresh s i time) (j : Nat) :
    FileSystem.Stamped (hs.lock j).path time s.files :=
  hs.path_eq j ▸ (h i time fresh).1

theorem Exclusive.refuses (h : hs.Exclusive s) (held : s.since i = some time) (j : Nat)
    (early : ((hs.lock j).acquire s.files).2.now ≤ time + hs.staleAfter.toNanos) :
    ((hs.lock j).acquire s.files).1 = .ok false ∧
      FileSystem.Stamped hs.path time ((hs.lock j).acquire s.files).2 := by
  have fresh : hs.Fresh s i time := ⟨held, Int.le_trans FileLock.now_acquire early⟩
  rw [← hs.staleAfter_eq j] at early
  rw [← hs.path_eq j]
  exact FileLock.acquire_stamped (fresh.stamped h j) early

theorem Exclusive.wait (h : hs.Exclusive s) (nanos : Nat) :
    hs.Exclusive (hs.turn s (.wait nanos)) := by
  have before {i : Nat} {time : Int} (fresh : hs.Fresh (hs.turn s (.wait nanos)) i time) :
      hs.Fresh s i time := by
    obtain ⟨held, early⟩ := fresh
    change s.files.now + nanos ≤ _ at early
    exact ⟨held, by omega⟩
  intro i time fresh
  obtain ⟨stamped, alone⟩ := h i time (before fresh)
  exact ⟨stamped.wait nanos, fun j since other => alone j since (before other)⟩

theorem Exclusive.take (h : hs.Exclusive s) (i : Nat) : hs.Exclusive (hs.take s i) := by
  have later : s.files.now ≤ ((hs.lock i).acquire s.files).2.now := FileLock.now_acquire
  have taken : ((hs.lock i).acquire s.files).1 = .ok true →
      FileSystem.Stamped (hs.lock i).path ((hs.lock i).acquire s.files).2.now
        ((hs.lock i).acquire s.files).2 := FileLock.stamped_acquire
  have refuses {k : Nat} {time : Int} (held : s.since k = some time) := h.refuses held i
  unfold Handles.take
  split
  · rename_i files got
    rw [got] at later taken
    -- whoever had the lock lately has had it for too long by now
    have expired {k : Nat} {time : Int} (held : s.since k = some time)
        (early : files.now ≤ time + hs.staleAfter.toNanos) : False := by
      obtain ⟨refused, -⟩ := refuses held (by rwa [got])
      rw [got] at refused
      cases refused
    have only {k : Nat} {time : Int} (fresh : hs.Fresh
        ⟨files, fun k => if k = i then some files.now else s.since k⟩ k time) :
        k = i ∧ time = files.now := by
      obtain ⟨held, early⟩ := fresh
      by_cases same : k = i
      · subst same
        exact ⟨rfl, (Option.some.inj ((if_pos rfl).symm.trans held)).symm⟩
      · exact (expired ((if_neg same).symm.trans held) early).elim
    intro k time fresh
    obtain ⟨rfl, rfl⟩ := only fresh
    exact ⟨hs.path_eq k ▸ taken rfl, fun j since other => (only other).1⟩
  · rename_i answer files untaken refused
    rw [refused] at later
    intro k time fresh
    obtain ⟨held, early⟩ := fresh
    have before {k : Nat} {time : Int} (fresh : hs.Fresh { s with files } k time) :
        hs.Fresh s k time := ⟨fresh.1, Int.le_trans later fresh.2⟩
    obtain ⟨-, stamped⟩ := refuses held (by rwa [refused])
    rw [refused] at stamped
    exact ⟨stamped, fun j since other =>
      (h k time (before ⟨held, early⟩)).2 j since (before other)⟩

theorem Exclusive.give (h : hs.Exclusive s) (timely : hs.isTimely s (.release i) = true) :
    hs.Exclusive (hs.give s i) := by
  unfold Handles.give
  split
  · exact h
  · rename_i since held
    have own : hs.Fresh s i since := by
      change (s.since i).all _ = true at timely
      rw [held] at timely
      exact ⟨held, of_decide_eq_true timely⟩
    -- it was the only one
    rintro k time ⟨kept, early⟩
    rw [FileLock.now_release] at early
    by_cases same : k = i
    · cases (if_pos same).symm.trans kept
    · exact absurd ((h i since own).2 k time ⟨(if_neg same).symm.trans kept, early⟩) same

theorem Exclusive.turn (h : hs.Exclusive s) (t : Turn) (timely : hs.isTimely s t = true) :
    hs.Exclusive (hs.turn s t) := by
  cases t with
  | wait nanos => exact h.wait nanos
  | acquire i => exact h.take i
  | release i => exact h.give timely

theorem Exclusive.run (h : hs.Exclusive s) {turns : List Turn}
    (timely : hs.areTimely s turns = true) : hs.Exclusive (hs.run s turns) := by
  induction turns generalizing s with
  | nil => exact h
  | cons t ts ih =>
    obtain ⟨first, rest⟩ := Bool.and_eq_true_iff.1 timely
    exact ih (h.turn t first) rest

/-- As long as nobody gives the lock back after holding it for too long, a handle that has taken
the lock lately is not displaced: nobody else gets it, in whatever order handles ask for it and
give it back. -/
theorem fresh_holder_kept (hs : Handles) (files : FileSystem) (turns : List Turn)
    (timely : hs.areTimely { files } turns = true) (i : Nat) (time : Int)
    (held : (hs.run { files } turns).since i = some time) (j : Nat) :
    let answer := (hs.lock j).acquire (hs.run { files } turns).files
    answer.2.now ≤ time + hs.staleAfter.toNanos → answer.1 = .ok false := by
  intro answer early
  have vacant : hs.Exclusive { files } := by
    rintro i time ⟨held, -⟩
    cases held
  exact ((vacant.run timely).refuses held j early).1

def shift : Handles where
  lock i := {
    path := "index.lock"
    timeout := .ofMillis 3
    staleAfter := .ofSeconds 60
    owner := i }
  path := "index.lock"
  staleAfter := .ofSeconds 60
  path_eq _ := rfl
  staleAfter_eq _ := rfl

theorem fresh_holder_kept_shift :
    let s := shift.run { files := {} } [.acquire 0, .wait (100000000000), .acquire 1,
      .wait (1000000000)]
    s.since 1 = some (100000000000) ∧ ((shift.lock 2).acquire s.files).1 = .ok false := by
  have timely : shift.areTimely { files := {} } [.acquire 0, .wait (100000000000), .acquire 1,
      .wait (1000000000)] = true := by decide +kernel
  have held : (shift.run { files := {} } [.acquire 0, .wait (100000000000), .acquire 1,
      .wait (1000000000)]).since 1 = some (100000000000) := by decide +kernel
  exact ⟨held, fresh_holder_kept shift {} _ timely 1 _ held 2 (by decide +kernel)⟩

/-- A handle that gives the lock back late removes the file of the one that has broken it. -/
theorem fresh_holder_displaced :
    let s := shift.run { files := {} } [.acquire 0, .wait (100000000000), .acquire 1, .release 0]
    let answer := (shift.lock 2).acquire s.files
    s.since 1 = some s.files.now ∧ answer.1.toOption = some true ∧
      answer.2.now ≤ s.files.now + shift.staleAfter.toNanos := by
  decide +kernel

end Handles

end ClaimIndex
