import ClaimIndex.Proofs.Files

/-! How far a path leads, and what an operation on it comes to, depends on where there are files
and directories and on nothing that the files hold. -/

namespace ClaimIndex

inductive Outcomes {ε α β : Type} (R : α → β → Prop) : Except ε α → Except ε β → Prop
  | error (fault : ε) : Outcomes R (.error fault) (.error fault)
  | ok {a : α} {b : β} (h : R a b) : Outcomes R (.ok a) (.ok b)

namespace FileSystem

variable {mark : Option (List String)} {V : List String → Prop} {fs fs' gs : FileSystem}
  {names place : List String} {path : String}

def Node.isDirectory : Node → Bool
  | directory => true
  | file _ => false

def kind? (fs : FileSystem) (names : List String) : Option Bool :=
  (fs.node? names).map Node.isDirectory

theorem kind?_nil : fs.kind? [] = some true := rfl

theorem node?_of_kind? (h : fs.kind? names = some true) : fs.node? names = some .directory := by
  unfold kind? at h
  match hn : fs.node? names, h with
  | some .directory, _ => rfl
  | some (.file _), h => cases h
  | none, h => cases h

theorem kind?_of_node? (h : fs.node? names = some .directory) : fs.kind? names = some true := by
  rw [kind?, h]
  rfl

theorem createAlong_cons (fs : FileSystem) (start : List String) (part : String)
    (parts : List String) : fs.createAlong start (part :: parts) =
      match fs.kind? (advance start part) with
      | some true => fs.createAlong (advance start part) parts
      | some false => (.error .notADirectory, fs)
      | none =>
        match checkName part with
        | .error fault => (.error fault, fs)
        | .ok () =>
          (fs.put (advance start part) .directory).createAlong (advance start part) parts := by
  rw [createAlong]
  unfold kind?
  match fs.node? (advance start part) with
  | none => rfl
  | some (.file _) => rfl
  | some .directory => rfl

theorem write_of_error {content : Bytes} {fault : IoFault}
    (h : fs.locateFile path = .error fault) : fs.write path content = .error fault := by
  rw [write, h]
  rfl

theorem write_of_ok {content : Bytes} (h : fs.locateFile path = .ok names) :
    fs.write path content = if fs.kind? names = some true then .error .isADirectory
      else .ok (fs.put names (.file content)) := by
  rw [write, h]
  simp only [bind, Except.bind]
  unfold kind?
  cases fs.node? names with
  | none => rfl
  | some node => cases node <;> rfl

theorem create_of_error {content : Bytes} {fault : IoFault}
    (h : fs.locateFile path = .error fault) : fs.create path content = .error fault := by
  rw [create, h]
  rfl

theorem create_of_ok {content : Bytes} (h : fs.locateFile path = .ok names) :
    fs.create path content = if fs.kind? names = none then .ok (fs.put names (.file content))
      else .error .alreadyExists := by
  rw [create, h]
  simp only [bind, Except.bind]
  unfold kind?
  cases fs.node? names with
  | none => rfl
  | some node => cases node <;> rfl

theorem remove_of_error {fault : IoFault} (h : fs.locate path = .error fault) :
    fs.remove path = .error fault := by
  rw [remove, h]
  rfl

theorem remove_of_ok (h : fs.locate path = .ok names) :
    fs.remove path = match fs.kind? names with
      | none => .error .notFound
      | some true => .error .isADirectory
      | some false => .ok ((fs.erase names).touchParent names) := by
  rw [remove, h]
  simp only [bind, Except.bind]
  unfold kind?
  cases fs.node? names with
  | none => rfl
  | some node => cases node <;> rfl

theorem rename_of_ok {source target : String} {there : List String}
    (hs : fs.locate source = .ok names) (ht : fs.locate target = .ok there) :
    fs.rename source target = match fs.entries[names]?, fs.kind? there with
      | none, _ => .error .notFound
      | some _, some true => .error .isADirectory
      | some entry, _ => .ok ((((fs.erase names).touchParent names).set there entry).touchParent
        there) := by
  rw [rename, hs, ht]
  simp only [bind, Except.bind]
  unfold kind?
  match fs.entries[names]?, fs.node? there with
  | none, _ => rfl
  | some _, none => rfl
  | some _, some (.file _) => rfl
  | some _, some .directory => rfl

/-- What is seen of a place: whether there is a directory, if there is anything, and in the
marked place the time of the last change. -/
def look (mark : Option (List String)) (fs : FileSystem) (names : List String) :
    Option (Bool × Option Int) :=
  (fs.entry? names).map fun e =>
    (e.node.isDirectory, if mark = some names then some e.modified else none)

theorem kind?_eq_look (mark : Option (List String)) (fs : FileSystem) (names : List String) :
    fs.kind? names = (look mark fs names).map Prod.fst := by
  rw [kind?, node?, look, Option.map_map, Option.map_map]
  rfl

theorem look_touch (time : Int) : look mark (fs.touch time place) names =
    if names = place then (look mark fs names).map fun l => (l.1, l.2.map fun _ => time) else
      look mark fs names := by
  by_cases there : names = place
  · unfold look
    rw [entry?_touch, if_pos there, if_pos there, Option.map_map, Option.map_map]
    congr 1
    funext e
    by_cases marked : mark = some names <;> simp [marked]
  · rw [if_neg there, look, entry?_touch, if_neg there]
    rfl

structure Alike (mark : Option (List String)) (V : List String → Prop) (fs fs' : FileSystem) :
    Prop where
  clock : mark ≠ none → fs.now = fs'.now
  same : ∀ names, V names → look mark fs names = look mark fs' names

namespace Alike

theorem refl (fs : FileSystem) : Alike mark V fs fs := ⟨fun _ => rfl, fun _ _ => rfl⟩

theorem of_kind (h : ∀ names, V names → fs.kind? names = fs'.kind? names) :
    Alike none V fs fs' := by
  refine ⟨fun hm => absurd rfl hm, fun names hV => ?_⟩
  have same := congrArg (Option.map fun directory => (directory, (none : Option Int))) (h names hV)
  rw [kind?, kind?, node?, node?, Option.map_map, Option.map_map, Option.map_map,
    Option.map_map] at same
  exact same

theorem kind (h : Alike mark V fs fs') (hV : V names) : fs.kind? names = fs'.kind? names := by
  rw [kind?_eq_look mark, kind?_eq_look mark, h.same names hV]

theorem touch (h : Alike mark V fs fs') {time time' : Int} (ht : mark ≠ none → time = time')
    (place : List String) : Alike mark V (fs.touch time place) (fs'.touch time' place) := by
  refine ⟨fun hm => by simpa using h.clock hm, fun names hV => ?_⟩
  rw [look_touch, look_touch, h.same names hV]
  split
  · cases mark with
    | none =>
      unfold look
      cases fs'.entry? names <;> rfl
    | some m => rw [ht (by simp)]
  · rfl

theorem touchParent (h : Alike mark V fs fs') (place : List String) :
    Alike mark V (fs.touchParent place) (fs'.touchParent place) :=
  h.touch h.clock _

theorem wait (h : Alike mark V fs fs') (nanos : Nat) :
    Alike mark V (fs.wait nanos) (fs'.wait nanos) := by
  refine ⟨fun hm => congrArg (· + (nanos : Int)) (h.clock hm), fun names hV => ?_⟩
  have same := h.same names hV
  cases names <;> exact same

theorem set (h : Alike mark V fs fs') (hplace : place ≠ []) {entry entry' : Entry}
    (node : entry.node.isDirectory = entry'.node.isDirectory)
    (time : mark = some place → entry.modified = entry'.modified) :
    Alike mark V (fs.set place entry) (fs'.set place entry') := by
  refine ⟨h.clock, fun names hV => ?_⟩
  have same := h.same names hV
  unfold look at same ⊢
  rw [entry?_set hplace, entry?_set hplace]
  by_cases there : names = place
  · rw [if_pos there, if_pos there, Option.map_some, Option.map_some, node]
    by_cases marked : mark = some names
    · rw [time (there ▸ marked)]
    · rw [if_neg marked, if_neg marked]
  · rwa [if_neg there, if_neg there]

theorem erase (h : Alike mark V fs fs') (hplace : place ≠ []) :
    Alike mark V (fs.erase place) (fs'.erase place) := by
  refine ⟨h.clock, fun names hV => ?_⟩
  have same := h.same names hV
  unfold look at same ⊢
  rw [entry?_erase hplace, entry?_erase hplace]
  by_cases there : names = place
  · rw [if_pos there, if_pos there]
  · rwa [if_neg there, if_neg there]

theorem put (h : Alike mark V fs fs') (hV : V place) (hplace : place ≠ []) (node node' : Node)
    (same : node.isDirectory = node'.isDirectory) :
    Alike mark V (fs.put place node) (fs'.put place node') := by
  have there : (fs.node? place).isSome = (fs'.node? place).isSome := by
    have kinds := congrArg Option.isSome (h.kind hV)
    simpa only [kind?, Option.isSome_map] using kinds
  unfold FileSystem.put
  dsimp only
  rw [there]
  split
  · exact h.set hplace same fun hm => h.clock (by simp [hm])
  · refine (h.touchParent place).set hplace same fun hm => ?_
    exact (now_touch).trans ((h.clock (by simp [hm])).trans (now_touch).symm)

theorem checkDirectory (h : Alike mark V fs fs') (hV : V names) :
    fs.checkDirectory names = fs'.checkDirectory names := by
  have byKind (fs : FileSystem) : fs.checkDirectory names = match fs.kind? names with
      | none => .error .notFound
      | some false => .error .notADirectory
      | some true => .ok () := by
    unfold FileSystem.checkDirectory kind?
    match fs.node? names with
    | none => rfl
    | some (.file _) => rfl
    | some .directory => rfl
  rw [byKind, byKind, h.kind hV]

theorem follow (h : Alike mark V fs fs') (hV : V names) (part : String) :
    fs.follow names part = fs'.follow names part := by
  unfold FileSystem.follow
  rw [h.checkDirectory hV]

theorem foldlM_follow (h : Alike mark V fs fs') (parts : List String) {start : List String}
    (hV : ∀ names ∈ parts.scanl advance start, V names) :
    parts.foldlM fs.follow start = parts.foldlM fs'.follow start := by
  induction parts generalizing start with
  | nil => rfl
  | cons part parts ih =>
    rw [List.scanl_cons] at hV
    have first := h.follow (hV start (by simp)) part
    rw [List.foldlM_cons, List.foldlM_cons, first]
    cases found : fs'.follow start part with
    | error fault => rfl
    | ok next =>
      obtain ⟨-, -, rfl⟩ := follow_eq_ok.1 found
      exact ih fun names hn => hV names (by simp [hn])

end Alike

def course (path : String) : List (List String) := (components path).scanl advance []

def route (path : String) : List (List String) := (parts path).scanl advance []

theorem foldl_mem_scanl (parts : List String) (start : List String) :
    parts.foldl advance start ∈ parts.scanl advance start := by
  induction parts generalizing start with
  | nil => simp
  | cons part parts ih => simp [ih]

theorem place_mem_course (path : String) : FileSystem.place path ∈ course path :=
  foldl_mem_scanl _ _

theorem nil_mem_scanl (parts : List String) : [] ∈ parts.scanl advance [] := by
  cases parts <;> simp

theorem prefix_mem_scanl {parts : List String} {start above : List String}
    (h : names ∈ parts.scanl advance start) (ha : above <+: names) :
    above ∈ parts.scanl advance start ∨ above <+: start := by
  induction parts generalizing start with
  | nil =>
    rw [List.scanl_nil, List.mem_singleton] at h
    exact .inr (h ▸ ha)
  | cons part parts ih =>
    rw [List.scanl_cons, List.mem_cons] at h ⊢
    obtain rfl | h := h
    · exact .inr ha
    obtain found | found := ih h
    · exact .inl (.inr found)
    have first : advance start part ∈ parts.scanl advance (advance start part) := by
      cases parts <;> simp
    by_cases whole : above = advance start part
    · exact .inl (.inr (whole ▸ first))
    right
    unfold advance at found whole
    split at found
    · exact found
    split at found
    · exact found.trans (List.dropLast_prefix _)
    · rw [if_neg ‹_›, if_neg ‹_›] at whole
      exact (List.prefix_concat_iff.1 found).resolve_left whole

theorem above_mem_scanl {parts : List String} (h : names ∈ parts.scanl advance []) :
    names.dropLast ∈ parts.scanl advance [] := by
  obtain found | root := prefix_mem_scanl h (List.dropLast_prefix names)
  · exact found
  · rw [List.prefix_nil.1 root]
    exact nil_mem_scanl parts

namespace Alike

theorem locate (h : Alike mark V fs fs') (hV : ∀ names ∈ course path, V names) :
    fs.locate path = fs'.locate path := by
  change (do checkPath path; if path = "" then throw .notFound
             (components path).foldlM fs.follow [] : Except IoFault (List String)) =
    (do checkPath path; if path = "" then throw .notFound
        (components path).foldlM fs'.follow [])
  rw [h.foldlM_follow _ hV]

theorem find? (h : Alike mark V fs fs') (hV : ∀ names ∈ course path, V names) :
    (fs.find? path).isSome = (fs'.find? path).isSome ∧
      (mark = some (FileSystem.place path) →
        (fs.find? path).map Entry.modified = (fs'.find? path).map Entry.modified) := by
  unfold FileSystem.find?
  rw [h.locate hV]
  cases found : fs'.locate path with
  | error fault => exact ⟨rfl, fun _ => rfl⟩
  | ok names =>
    obtain rfl := eq_place found
    have same := h.same _ (hV _ (place_mem_course path))
    unfold look at same
    constructor
    · have there := congrArg Option.isSome same
      rwa [Option.isSome_map, Option.isSome_map] at there
    · intro marked
      simp only [marked, if_true] at same
      change (fs.entry? _).map Entry.modified = (fs'.entry? _).map Entry.modified
      have times := congrArg (Option.bind · Prod.snd) same
      rw [Option.map_eq_bind, Option.map_eq_bind]
      simpa only [Option.bind_map, Function.comp_def] using times

theorem exists? (h : Alike mark V fs fs') (hV : ∀ names ∈ course path, V names) :
    fs.exists? path = fs'.exists? path :=
  (h.find? hV).1

theorem createAlong (h : Alike mark V fs fs') (parts : List String) {start : List String}
    (hV : ∀ names ∈ parts.scanl advance start, V names) :
    (fs.createAlong start parts).1 = (fs'.createAlong start parts).1 ∧
      Alike mark V (fs.createAlong start parts).2 (fs'.createAlong start parts).2 := by
  induction parts generalizing fs fs' start with
  | nil => exact ⟨rfl, h⟩
  | cons part parts ih =>
    rw [List.scanl_cons] at hV
    have rest : ∀ names ∈ parts.scanl advance (advance start part), V names :=
      fun names hn => hV names (by simp [hn])
    have there : V (advance start part) := rest _ (by cases parts <;> simp)
    rw [createAlong_cons, createAlong_cons, ← h.kind there]
    split
    · exact ih h rest
    · exact ⟨rfl, h⟩
    · rename_i absent
      have ne : advance start part ≠ [] := by
        intro root
        rw [root] at absent
        cases absent
      split
      · exact ⟨rfl, h⟩
      · exact ih (h.put there ne _ _ rfl) rest

theorem createDirectories (h : Alike mark V fs fs') (hV : ∀ names ∈ route path, V names) :
    (fs.createDirectories path).1 = (fs'.createDirectories path).1 ∧
      Alike mark V (fs.createDirectories path).2 (fs'.createDirectories path).2 := by
  unfold FileSystem.createDirectories
  split
  · exact ⟨rfl, h⟩
  · exact h.createAlong _ hV

theorem locateFile (h : Alike mark V fs fs') (hV : ∀ names ∈ course path, V names) :
    fs.locateFile path = fs'.locateFile path := by
  unfold FileSystem.locateFile
  rw [h.locate hV]

theorem write (h : Alike mark V fs fs') (hV : ∀ names ∈ course path, V names)
    (content content' : Bytes) :
    Outcomes (Alike mark V) (fs.write path content) (fs'.write path content') := by
  cases found : fs'.locateFile path with
  | error fault =>
    rw [write_of_error found, write_of_error ((h.locateFile hV).trans found)]
    exact .error _
  | ok names =>
    obtain rfl := eq_place_of_locateFile found
    have there := hV _ (place_mem_course path)
    rw [write_of_ok found, write_of_ok ((h.locateFile hV).trans found), ← h.kind there]
    split
    · exact .error _
    · rename_i free
      refine .ok (h.put there ?_ _ _ rfl)
      intro root
      exact free (root ▸ kind?_nil)

theorem create (h : Alike mark V fs fs') (hV : ∀ names ∈ course path, V names)
    (content : Bytes) :
    Outcomes (Alike mark V) (fs.create path content) (fs'.create path content) := by
  cases found : fs'.locateFile path with
  | error fault =>
    rw [create_of_error found, create_of_error ((h.locateFile hV).trans found)]
    exact .error _
  | ok names =>
    obtain rfl := eq_place_of_locateFile found
    have there := hV _ (place_mem_course path)
    rw [create_of_ok found, create_of_ok ((h.locateFile hV).trans found), ← h.kind there]
    split
    · rename_i free
      refine .ok (h.put there ?_ _ _ rfl)
      intro root
      rw [root] at free
      cases free
    · exact .error _

theorem remove (h : Alike mark V fs fs') (hV : ∀ names ∈ course path, V names) :
    Outcomes (Alike mark V) (fs.remove path) (fs'.remove path) := by
  cases found : fs'.locate path with
  | error fault =>
    rw [remove_of_error found, remove_of_error ((h.locate hV).trans found)]
    exact .error _
  | ok names =>
    obtain rfl := eq_place found
    rw [remove_of_ok found, remove_of_ok ((h.locate hV).trans found),
      ← h.kind (hV _ (place_mem_course path))]
    split
    · exact .error _
    · exact .error _
    · rename_i file
      refine .ok ((h.erase ?_).touchParent _)
      intro root
      rw [root] at file
      cases file

theorem rename {source target : String} (h : Alike none V fs fs')
    (hsource : ∀ names ∈ course source, V names) (htarget : ∀ names ∈ course target, V names)
    (ne : FileSystem.place source ≠ []) :
    Outcomes (Alike none V) (fs.rename source target) (fs'.rename source target) := by
  cases hs : fs'.locate source with
  | error fault =>
    unfold FileSystem.rename
    rw [h.locate hsource, hs]
    exact .error fault
  | ok names =>
    obtain rfl := eq_place hs
    cases ht : fs'.locate target with
    | error fault =>
      unfold FileSystem.rename
      rw [h.locate hsource, h.locate htarget, hs, ht]
      exact .error fault
    | ok there =>
      obtain rfl := eq_place ht
      have moving := h.kind (hsource _ (place_mem_course source))
      unfold kind? at moving
      rw [node?_eq_map ne, node?_eq_map ne, Option.map_map, Option.map_map] at moving
      rw [rename_of_ok hs ht, rename_of_ok ((h.locate hsource).trans hs)
        ((h.locate htarget).trans ht), h.kind (htarget _ (place_mem_course target))]
      cases he : fs.entries[FileSystem.place source]? with
      | none =>
        rw [he] at moving
        rw [Option.map_eq_none_iff.1 moving.symm]
        exact .error _
      | some entry =>
        rw [he] at moving
        obtain ⟨entry', he', same⟩ := Option.map_eq_some_iff.1 moving.symm
        rw [he']
        have moved (free : fs'.kind? (FileSystem.place target) ≠ some true) :=
          have root : FileSystem.place target ≠ [] := fun root => free (root ▸ kind?_nil)
          (((h.erase ne).touchParent (FileSystem.place source)).set root
            (show entry.node.isDirectory = entry'.node.isDirectory from same.symm)
            nofun).touchParent (FileSystem.place target)
        cases landing : fs'.kind? (FileSystem.place target) with
        | none => exact .ok (moved (by simp [landing]))
        | some directory =>
          cases directory with
          | false => exact .ok (moved (by simp [landing]))
          | true => exact .error _

end Alike

def Confined (V : List String → Prop) (fs fs' : FileSystem) : Prop :=
  ∀ names, ¬ V names → fs'.entry? names = fs.entry? names

namespace Confined

theorem refl (fs : FileSystem) : Confined V fs fs := fun _ _ => rfl

theorem trans (h : Confined V fs fs') (h' : Confined V fs' gs) : Confined V fs gs :=
  fun names hV => (h' names hV).trans (h names hV)

theorem node (h : Confined V fs fs') (hV : ¬ V names) : fs'.node? names = fs.node? names :=
  congrArg (Option.map Entry.node) (h names hV)

theorem wait (nanos : Nat) : Confined V fs (fs.wait nanos) := fun names _ => by
  cases names <;> rfl

theorem touch (time : Int) (hV : V place) : Confined V fs (fs.touch time place) := by
  intro names out
  rw [entry?_touch, if_neg]
  rintro rfl
  exact out hV

theorem set (hplace : place ≠ []) (hV : V place) (entry : Entry) :
    Confined V fs (fs.set place entry) := by
  intro names out
  rw [entry?_set hplace, if_neg]
  rintro rfl
  exact out hV

theorem erase (hplace : place ≠ []) (hV : V place) : Confined V fs (fs.erase place) := by
  intro names out
  rw [entry?_erase hplace, if_neg]
  rintro rfl
  exact out hV

theorem put (hplace : place ≠ []) (hV : V place) (above : V place.dropLast) (node : Node) :
    Confined V fs (fs.put place node) := by
  unfold FileSystem.put
  dsimp only
  split
  · exact set hplace hV _
  · exact (touch _ above).trans (set hplace hV _)

theorem createAlong (parts : List String) (start : List String)
    (hV : ∀ names ∈ parts.scanl advance start, V names ∧ V names.dropLast) :
    Confined V fs (fs.createAlong start parts).2 := by
  induction parts generalizing fs start with
  | nil => exact refl fs
  | cons part parts ih =>
    rw [List.scanl_cons] at hV
    have rest : ∀ names ∈ parts.scanl advance (advance start part), V names ∧ V names.dropLast :=
      fun names hn => hV names (by simp [hn])
    have there := rest (advance start part) (by cases parts <;> simp)
    rw [createAlong_cons]
    split
    · exact ih _ rest
    · exact refl fs
    · rename_i absent
      have ne : advance start part ≠ [] := by
        intro root
        rw [root] at absent
        cases absent
      split
      · exact refl fs
      · exact (put ne there.1 there.2 _).trans (ih _ rest)

theorem createDirectories (hV : ∀ names ∈ route path, V names) :
    Confined V fs (fs.createDirectories path).2 := by
  unfold FileSystem.createDirectories
  split
  · exact refl fs
  · exact createAlong _ _ fun names hn => ⟨hV names hn, hV _ (above_mem_scanl hn)⟩

theorem write {content : Bytes} (hV : ∀ names ∈ course path, V names)
    (h : fs.write path content = .ok fs') : Confined V fs fs' := by
  obtain ⟨ne, rfl⟩ := write_eq_ok h
  have there := place_mem_course path
  exact put ne (hV _ there) (hV _ (above_mem_scanl there)) _

theorem create {content : Bytes} (hV : ∀ names ∈ course path, V names)
    (h : fs.create path content = .ok fs') : Confined V fs fs' := by
  cases found : fs.locateFile path with
  | error fault =>
    rw [create_of_error found] at h
    cases h
  | ok names =>
    obtain rfl := eq_place_of_locateFile found
    rw [create_of_ok found] at h
    split at h
    · rename_i free
      cases h
      have there := place_mem_course path
      refine put ?_ (hV _ there) (hV _ (above_mem_scanl there)) _
      intro root
      rw [root] at free
      cases free
    · cases h

theorem remove (hV : ∀ names ∈ course path, V names) (h : fs.remove path = .ok fs') :
    Confined V fs fs' := by
  cases found : fs.locate path with
  | error fault =>
    rw [remove_of_error found] at h
    cases h
  | ok names =>
    obtain rfl := eq_place found
    rw [remove_of_ok found] at h
    split at h
    · cases h
    · cases h
    · rename_i file
      cases h
      have there := place_mem_course path
      refine (erase ?_ (hV _ there)).trans (touch _ (hV _ (above_mem_scanl there)))
      intro root
      rw [root] at file
      cases file

theorem rename {source target : String} (ne : FileSystem.place source ≠ [])
    (hsource : ∀ names ∈ course source, V names) (htarget : ∀ names ∈ course target, V names)
    (h : fs.rename source target = .ok fs') : Confined V fs fs' := by
  obtain ⟨entry, -, -, free, rfl⟩ := rename_eq_ok h
  have root : FileSystem.place target ≠ [] := ne_nil_of_node? free
  have there := place_mem_course source
  have here := place_mem_course target
  exact (((erase ne (hsource _ there)).trans (touch _ (hsource _ (above_mem_scanl there)))).trans
    (set root (htarget _ here) entry)).trans (touch _ (htarget _ (above_mem_scanl here)))

end Confined

theorem createAlong_again {parts : List String} {start : List String}
    (made : fs.createAlong start parts = (.ok (), fs'))
    (dirs : ∀ names, fs'.node? names = some .directory → gs.node? names = some .directory) :
    gs.createAlong start parts = (.ok (), gs) := by
  induction parts generalizing fs start with
  | nil => rfl
  | cons part parts ih =>
    have stays {fs : FileSystem} {start : List String} {parts : List String}
        (made : fs.createAlong start parts = (.ok (), fs')) (names : List String)
        (h : fs.node? names = some .directory) : fs'.node? names = some .directory := by
      have kept : Retains (fun _ => False) fs (fs.createAlong start parts).2 := .createAlong start
      rw [made] at kept
      exact kept.directory names h
    rw [createAlong_cons] at made ⊢
    split at made
    · rename_i there
      rw [kind?_of_node? (dirs _ (stays made _ (node?_of_kind? there)))]
      exact ih made
    · cases made
    · rename_i absent
      have ne : advance start part ≠ [] := by
        intro root
        rw [root] at absent
        cases absent
      split at made
      · cases made
      · have there := stays made (advance start part) (by rw [node?_put ne, if_pos rfl])
        rw [kind?_of_node? (dirs _ there)]
        exact ih made

theorem createDirectories_again (made : fs.createDirectories path = (.ok (), fs'))
    (dirs : ∀ names, fs'.node? names = some .directory → gs.node? names = some .directory) :
    gs.createDirectories path = (.ok (), gs) := by
  unfold createDirectories at made ⊢
  split at made
  · cases made
  · exact createAlong_again made dirs

theorem now_createAlong (fs : FileSystem) (start parts : List String) :
    (fs.createAlong start parts).2.now = fs.now := by
  induction parts generalizing fs start with
  | nil => rfl
  | cons part parts ih =>
    rw [createAlong_cons]
    split
    · exact ih _ _
    · rfl
    · split
      · rfl
      · rw [ih, now_put]

theorem now_createDirectories : (fs.createDirectories path).2.now = fs.now := by
  unfold createDirectories
  split
  · rfl
  · exact now_createAlong fs _ _

theorem now_write {content : Bytes} (h : fs.write path content = .ok fs') : fs'.now = fs.now := by
  rw [(write_eq_ok h).2, now_put]

theorem now_rename {source target : String} (h : fs.rename source target = .ok fs') :
    fs'.now = fs.now := by
  obtain ⟨entry, -, -, -, rfl⟩ := rename_eq_ok h
  exact now_touch.trans (show FileSystem.now _ = fs.now from now_touch)

def Grows (fs fs' : FileSystem) : Prop :=
  ∀ names, fs.node? names = some .directory → fs'.node? names = some .directory

theorem grows_put (hplace : place ≠ []) (node : Node) (free : fs.node? place ≠ some .directory) :
    Grows fs (fs.put place node) := by
  intro names dir
  rw [node?_put hplace, if_neg, dir]
  rintro rfl
  exact free dir

theorem write_free {content : Bytes} (h : fs.write path content = .ok fs') :
    fs.locateFile path = .ok (FileSystem.place path) ∧
      fs.node? (FileSystem.place path) ≠ some .directory := by
  cases found : fs.locateFile path with
  | error fault =>
    rw [write_of_error found] at h
    cases h
  | ok names =>
    obtain rfl := eq_place_of_locateFile found
    refine ⟨rfl, fun dir => ?_⟩
    rw [write_of_ok found, if_pos (kind?_of_node? dir)] at h
    cases h

theorem grows_write {content : Bytes} (h : fs.write path content = .ok fs') : Grows fs fs' := by
  obtain ⟨ne, rfl⟩ := write_eq_ok h
  exact grows_put ne _ (write_free h).2

theorem retains_write {content : Bytes} (h : fs.write path content = .ok fs') :
    Retains (· = FileSystem.place path) fs fs' := by
  obtain ⟨-, rfl⟩ := write_eq_ok h
  exact .put (write_free h).2 fun apart => absurd rfl apart

theorem node?_rename {source target : String} (ne : FileSystem.place source ≠ [])
    (h : fs.rename source target = .ok fs') : fs'.node? names =
      if names = FileSystem.place target then fs.node? (FileSystem.place source) else
        if names = FileSystem.place source then none else fs.node? names := by
  obtain ⟨entry, moved, -, free, rfl⟩ := rename_eq_ok h
  have root : FileSystem.place target ≠ [] := ne_nil_of_node? free
  rw [node?_touchParent, node?_set root, node?_touchParent, node?_erase ne,
    node?_eq_map ne, moved]
  rfl

theorem grows_rename {source target : String} (ne : FileSystem.place source ≠ [])
    (file : fs.node? (FileSystem.place source) ≠ some .directory)
    (h : fs.rename source target = .ok fs') : Grows fs fs' := by
  obtain ⟨-, -, -, free, -⟩ := rename_eq_ok h
  intro names dir
  rw [node?_rename ne h, if_neg, if_neg, dir]
  · rintro rfl
    exact file dir
  · rintro rfl
    exact free dir

theorem locateFile_of_grows (dirs : Grows fs fs') (h : fs.locateFile path = .ok names) :
    fs'.locateFile path = .ok names := by
  unfold locateFile at h ⊢
  split
  · rw [if_pos ‹_›] at h
    cases h
  · rw [if_neg ‹_›] at h
    exact locate_of_locate dirs h

end FileSystem

end ClaimIndex
