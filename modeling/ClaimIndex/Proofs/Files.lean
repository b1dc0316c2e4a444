import ClaimIndex.Lock
import ClaimIndex.Store.File

namespace ClaimIndex

namespace FileSystem

variable {fs fs' fs'' : FileSystem} {names : List String} {lost : List String → Prop}
  {path : String} {time : Int}

@[simp] theorem node?_nil : fs.node? [] = some .directory := rfl

theorem node?_eq_map (h : names ≠ []) : fs.node? names = fs.entries[names]?.map Entry.node := by
  cases names with
  | nil => exact absurd rfl h
  | cons name names => rfl

theorem ne_nil_of_node? (h : fs.node? names ≠ some .directory) : names ≠ [] := by
  rintro rfl
  exact h rfl

@[simp] theorem node?_wait (nanos : Nat) : (fs.wait nanos).node? names = fs.node? names := by
  cases names <;> rfl

section Entries

variable {place : List String}

@[simp] theorem now_touch : (fs.touch time place).now = fs.now := by
  cases place <;> rfl

@[simp] theorem now_put (node : Node) : (fs.put place node).now = fs.now := by
  unfold put
  split
  · rfl
  · exact now_touch

theorem entry?_of_one {gs : FileSystem} {value : Option Entry} (h : place ≠ [])
    (root : gs.rootModified = fs.rootModified) (there : ∀ names : List String,
      gs.entries[names]? = if compare place names = .eq then value else fs.entries[names]?) :
    gs.entry? names = if names = place then value else fs.entry? names := by
  cases names with
  | nil =>
    rw [if_neg h.symm]
    exact congrArg (fun time => some (Entry.mk .directory time)) root
  | cons name names =>
    change gs.entries[name :: names]? = _
    rw [there]
    simp only [Std.LawfulEqCmp.compare_eq_iff_eq, eq_comm (b := name :: names)]
    rfl

theorem entry?_touch : FileSystem.entry? (fs.touch time place) names =
    if names = place then (fs.entry? names).map ({ · with modified := time }) else
      fs.entry? names := by
  cases place with
  | nil =>
    cases names with
    | nil => rfl
    | cons name names => rw [if_neg (List.cons_ne_nil _ _)]; rfl
  | cons part parts =>
    have touched : FileSystem.entry? (fs.touch time (part :: parts)) names =
        if names = part :: parts then
          fs.entries[part :: parts]?.map ({ · with modified := time })
        else fs.entry? names :=
      entry?_of_one (List.cons_ne_nil _ _) rfl fun _ => Std.ExtTreeMap.getElem?_modify
    rw [touched]
    split
    · subst names
      rfl
    · rfl

theorem entry?_set (h : place ≠ []) (entry : Entry) :
    FileSystem.entry? (fs.set place entry) names = if names = place then some entry else
      fs.entry? names :=
  entry?_of_one h rfl fun _ => Std.ExtTreeMap.getElem?_insert

theorem entry?_erase (h : place ≠ []) :
    FileSystem.entry? (fs.erase place) names = if names = place then none else fs.entry? names :=
  entry?_of_one h rfl fun _ => Std.ExtTreeMap.getElem?_erase

@[simp] theorem node?_touch (place : List String) :
    (fs.touch time place).node? names = fs.node? names := by
  unfold node?
  rw [entry?_touch]
  split
  · rw [Option.map_map]
    rfl
  · rfl

@[simp] theorem node?_touchParent (place : List String) :
    (fs.touchParent place).node? names = fs.node? names :=
  node?_touch _

theorem node?_set (h : place ≠ []) (entry : Entry) :
    (fs.set place entry).node? names =
      if names = place then some entry.node else fs.node? names := by
  unfold node?
  rw [entry?_set h]
  split <;> rfl

theorem node?_erase (h : place ≠ []) :
    (fs.erase place).node? names = if names = place then none else fs.node? names := by
  unfold node?
  rw [entry?_erase h]
  split <;> rfl

theorem node?_put (h : place ≠ []) (node : Node) :
    (fs.put place node).node? names = if names = place then some node else fs.node? names := by
  unfold put
  rw [node?_set h]
  split
  · rfl
  · split <;> simp

end Entries

def place (path : String) : List String := (components path).foldl advance []

def follow (fs : FileSystem) (names : List String) (part : String) :
    Except IoFault (List String) := do
  fs.checkDirectory names
  checkName part
  return advance names part

theorem follow_eq_ok {part : String} {found : List String} : fs.follow names part = .ok found ↔
    fs.node? names = some .directory ∧ checkName part = .ok () ∧ advance names part = found := by
  unfold follow checkDirectory
  match fs.node? names with
  | none => simp [bind, Except.bind]
  | some (.file c) => simp [bind, Except.bind]
  | some .directory => cases checkName part <;> simp [bind, Except.bind, pure, Except.pure]

theorem locate_eq_ok : fs.locate path = .ok names ↔
    checkPath path = .ok () ∧ path ≠ "" ∧
      (components path).foldlM fs.follow [] = .ok names := by
  change (do checkPath path; if path = "" then throw .notFound
             (components path).foldlM fs.follow [] : Except IoFault (List String)) = _ ↔ _
  cases checkPath path with
  | error fault => simp [bind, Except.bind]
  | ok u =>
    by_cases hp : path = "" <;> simp [hp, bind, Except.bind]

theorem foldlM_follow {parts : List String} {start : List String}
    (dirs : ∀ names, fs.node? names = some .directory → fs'.node? names = some .directory)
    (h : parts.foldlM fs.follow start = .ok names) :
    parts.foldlM fs'.follow start = .ok names ∧ names = parts.foldl advance start := by
  induction parts generalizing start with
  | nil => cases h; exact ⟨rfl, rfl⟩
  | cons part parts ih =>
    rw [List.foldlM_cons] at h ⊢
    cases hf : fs.follow start part with
    | error fault => rw [hf] at h; cases h
    | ok found =>
      rw [hf] at h
      obtain ⟨dir, name, rfl⟩ := follow_eq_ok.1 hf
      rw [follow_eq_ok.2 ⟨dirs _ dir, name, rfl⟩]
      exact ih h

theorem eq_place (h : fs.locate path = .ok names) : names = place path := by
  obtain ⟨_, _, hfold⟩ := locate_eq_ok.1 h
  exact (foldlM_follow (fun _ dir => dir) hfold).2

theorem locate_of_locateFile (h : fs.locateFile path = .ok names) :
    fs.locate path = .ok names := by
  unfold locateFile at h
  split at h
  · cases h
  · exact h

theorem eq_place_of_locateFile (h : fs.locateFile path = .ok names) :
    names = FileSystem.place path :=
  eq_place (locate_of_locateFile h)

theorem locate_of_locate
    (dirs : ∀ names, fs.node? names = some .directory → fs'.node? names = some .directory)
    (h : fs.locate path = .ok names) : fs'.locate path = .ok names := by
  obtain ⟨hpath, hempty, hfold⟩ := locate_eq_ok.1 h
  exact locate_eq_ok.2 ⟨hpath, hempty, (foldlM_follow dirs hfold).1⟩

theorem read_eq_ok {content : Bytes} : fs.read path = .ok content ↔
    fs.locate path = .ok (place path) ∧ fs.node? (place path) = some (.file content) := by
  unfold read
  cases h : fs.locate path with
  | error fault => simp [bind, Except.bind]
  | ok names =>
    obtain rfl := eq_place h
    simp only [bind, Except.bind, true_and]
    match fs.node? (place path) with
    | none => simp
    | some .directory => simp
    | some (.file c) => simp

theorem exists_of_read {content : Bytes} (h : fs.read path = .ok content) :
    fs.exists? path = true := by
  obtain ⟨located, node⟩ := read_eq_ok.1 h
  rw [exists?, find?, located]
  exact (Option.isSome_map (f := Entry.node)).symm.trans (congrArg Option.isSome node)

theorem write_eq_ok {content : Bytes} (h : fs.write path content = .ok fs') :
    place path ≠ [] ∧ fs' = fs.put (place path) (.file content) := by
  unfold write locateFile at h
  split at h
  · cases h
  · cases hl : fs.locate path with
    | error fault => rw [hl] at h; cases h
    | ok names =>
      obtain rfl := eq_place hl
      rw [hl] at h
      simp only [bind, Except.bind] at h
      split at h
      · cases h
      · rename_i hn
        cases h
        exact ⟨ne_nil_of_node? hn, rfl⟩

theorem rename_eq_ok {source target : String} (h : fs.rename source target = .ok fs') :
    ∃ entry, fs.entries[place source]? = some entry ∧ fs.locate target = .ok (place target) ∧
      fs.node? (place target) ≠ some .directory ∧
      fs' = (((fs.erase (place source)).touchParent (place source)).set (place target)
        entry).touchParent (place target) := by
  unfold rename at h
  cases hs : fs.locate source with
  | error fault => rw [hs] at h; cases h
  | ok names =>
    obtain rfl := eq_place hs
    cases ht : fs.locate target with
    | error fault => rw [hs, ht] at h; cases h
    | ok there =>
      obtain rfl := eq_place ht
      rw [hs, ht] at h
      simp only [bind, Except.bind] at h
      split at h
      · cases h
      · cases h
      · rename_i entry moved free
        cases h
        exact ⟨entry, moved, rfl, free, rfl⟩

theorem read_write_rename {draft : String} {content : Bytes}
    (written : fs.write draft content = .ok fs') (renamed : fs'.rename draft path = .ok fs'') :
    fs''.read path = .ok content := by
  obtain ⟨hdraft, rfl⟩ := write_eq_ok written
  obtain ⟨entry, moved, located, free, rfl⟩ := rename_eq_ok renamed
  have node : entry.node = .file content := by
    have hn : (fs.put (place draft) (.file content)).node? (place draft) =
        some (.file content) := by
      rw [node?_put hdraft, if_pos rfl]
    rw [node?_eq_map hdraft, moved] at hn
    exact Option.some.inj hn
  have hpath : place path ≠ [] := ne_nil_of_node? free
  rw [read_eq_ok]
  constructor
  · refine locate_of_locate (fun names hd => ?_) located
    have away : names ≠ place draft := by
      rintro rfl
      rw [node?_put hdraft, if_pos rfl] at hd
      cases hd
    rw [node?_touchParent, node?_set hpath, if_neg, node?_touchParent, node?_erase hdraft,
      if_neg away, hd]
    rintro rfl
    exact free hd
  · rw [node?_touchParent, node?_set hpath, if_pos rfl, node]

/-- Directories stay, and but for some places files stay as they are and none comes. -/
structure Retains (lost : List String → Prop) (fs fs' : FileSystem) : Prop where
  directory : ∀ names, fs.node? names = some .directory → fs'.node? names = some .directory
  file : ∀ names content, ¬ lost names →
    (fs'.node? names = some (.file content) ↔ fs.node? names = some (.file content))

namespace Retains

theorem of_node? (h : ∀ names, fs'.node? names = fs.node? names) : Retains lost fs fs' where
  directory names := (h names).trans
  file names _ _ := by rw [h names]

theorem refl (fs : FileSystem) : Retains lost fs fs := of_node? fun _ => rfl

theorem trans (h : Retains lost fs fs') (h' : Retains lost fs' fs'') : Retains lost fs fs'' where
  directory names hn := h'.directory names (h.directory names hn)
  file names content hl := (h'.file names content hl).trans (h.file names content hl)

theorem mono {more : List String → Prop} (h : Retains lost fs fs')
    (sub : ∀ names, lost names → more names) : Retains more fs fs' :=
  ⟨h.directory, fun names content apart => h.file names content fun hl => apart (sub names hl)⟩

theorem put {node : Node} (h : fs.node? names ≠ some .directory)
    (apart : ¬ lost names → node = .directory ∧ fs.node? names = none) :
    Retains lost fs (fs.put names node) := by
  have hne : names ≠ [] := ne_nil_of_node? h
  constructor
  · intro names' hd
    rw [node?_put hne, if_neg, hd]
    rintro rfl
    exact h hd
  · intro names' content hl
    rw [node?_put hne]
    split
    · rename_i here
      obtain ⟨rfl, absent⟩ := apart (here ▸ hl)
      simp [here, absent]
    · exact Iff.rfl

theorem erase {content : Bytes} (h : fs.node? names = some (.file content)) :
    Retains (· = names) fs (fs.erase names) := by
  have hne : names ≠ [] := by
    rintro rfl
    simp at h
  constructor
  · intro names' hd
    rw [node?_erase hne, if_neg, hd]
    rintro rfl
    simp [h] at hd
  · intro names' content hl
    rw [node?_erase hne, if_neg hl]

theorem read {content : Bytes} (h : Retains lost fs fs') (apart : ¬ lost (place path))
    (hread : fs.read path = .ok content) : fs'.read path = .ok content := by
  obtain ⟨hloc, hnode⟩ := read_eq_ok.1 hread
  exact read_eq_ok.2 ⟨locate_of_locate h.directory hloc, (h.file _ _ apart).2 hnode⟩

theorem createAlong {parts : List String} (start : List String) :
    Retains lost fs (fs.createAlong start parts).2 := by
  induction parts generalizing fs start with
  | nil => exact refl fs
  | cons part parts ih =>
    unfold FileSystem.createAlong
    dsimp only
    split
    · exact ih _
    · exact refl fs
    · rename_i absent
      split
      · exact refl fs
      · exact (put (by simp [absent]) fun _ => ⟨rfl, absent⟩).trans (ih _)

theorem createDirectories : Retains lost fs (fs.createDirectories path).2 := by
  unfold FileSystem.createDirectories
  split
  · exact refl fs
  · exact createAlong _

theorem create {content : Bytes} (h : fs.create path content = .ok fs') :
    Retains (· = place path) fs fs' := by
  unfold FileSystem.create at h
  cases hl : fs.locateFile path with
  | error fault => rw [hl] at h; cases h
  | ok names =>
    obtain rfl := eq_place_of_locateFile hl
    rw [hl] at h
    simp only [bind, Except.bind] at h
    split at h
    · cases h
    · rename_i absent
      cases h
      exact put (by simp [absent]) fun apart => absurd rfl apart

theorem remove (h : fs.remove path = .ok fs') : Retains (· = place path) fs fs' := by
  unfold FileSystem.remove at h
  cases hl : fs.locate path with
  | error fault => rw [hl] at h; cases h
  | ok names =>
    obtain rfl := eq_place hl
    rw [hl] at h
    simp only [bind, Except.bind] at h
    split at h
    · cases h
    · cases h
    · cases h
      exact (erase ‹_›).trans (of_node? fun _ => node?_touchParent _)

end Retains

end FileSystem

namespace FileLock

open FileSystem (Retains place)

variable (l : FileLock) (fs : FileSystem)

theorem retains_attempt : Retains (· = place l.path) fs (l.attempt fs).2 := by
  unfold attempt
  split
  · exact .create ‹_›
  · split
    · split
      · exact .refl fs
      · rename_i removed
        split
        · exact (Retains.remove removed).trans (.create ‹_›)
        · exact .remove removed
    · exact .refl fs
  · exact .refl fs

theorem retains_retry (n : Nat) : Retains (· = place l.path) fs (l.retry n fs).2 := by
  induction n generalizing fs with
  | zero => exact l.retains_attempt fs
  | succ n ih =>
    have first := l.retains_attempt fs
    unfold retry
    split
    · rename_i h
      rw [h] at first
      exact first.trans (.trans (.of_node? fun _ => FileSystem.node?_wait _) (ih _))
    · exact first

theorem retains_acquire : Retains (· = place l.path) fs (l.acquire fs).2 := by
  have made : Retains (· = place l.path) fs (fs.createDirectories (FileSystem.parent l.path)).2 :=
    .createDirectories
  unfold acquire
  split
  · rename_i h
    rwa [h] at made
  · rename_i h
    rw [h] at made
    exact made.trans (l.retains_retry _ _)

theorem retains_release : Retains (· = place l.path) fs (l.release fs).2 := by
  unfold release
  split
  · exact .remove ‹_›
  · exact .refl fs
  · exact .refl fs

end FileLock

theorem FileStore.read_publish {f : FileStore} {fs fs' : FileSystem} {bytes : Bytes}
    (h : f.publish fs bytes = (.ok (), fs')) : fs'.read f.path = .ok bytes := by
  unfold publish at h
  split at h
  · cases h
  · split at h
    · cases h
    · rename_i written
      split at h
      · cases h
      · rename_i renamed
        cases h
        exact FileSystem.read_write_rename written renamed

end ClaimIndex
