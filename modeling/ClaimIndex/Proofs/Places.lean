import ClaimIndex.Proofs.Files

namespace ClaimIndex.FileSystem

variable {path part : String} {names : List String}

theorem advance_of_length (h : 2 < part.length) : advance names part = names ++ [part] := by
  have long {other : String} (short : other.length ≤ 2) : part ≠ other := by
    rintro rfl
    omega
  rw [advance, if_neg, if_neg (long (by decide))]
  rintro (same | same)
  · exact long (by decide) same
  · exact long (by decide) same

theorem components_append (front back : String) :
    components (front ++ "/" ++ back) = components front ++ components back := by
  have text : (front ++ "/" ++ back).toList = front.toList ++ '/' :: back.toList := by simp
  rw [components, text, List.splitOn_append_cons_self, List.map_append]
  rfl

theorem components_of_notMem (h : '/' ∉ part.toList) : components part = [part] := by
  rw [components, List.splitOn_eq_singleton h, List.map_singleton, String.ofList_toList]

theorem notMem_of_mem_splitOn {c : Char} {cs : List Char} : ∀ s ∈ cs.splitOn c, c ∉ s := by
  induction cs with
  | nil => simp
  | cons d cs ih =>
    rw [List.splitOn_cons_eq_if_modifyHead]
    split
    · rintro s hs
      obtain rfl | hs := List.mem_cons.1 hs
      · simp
      · exact ih s hs
    · rename_i other
      cases found : cs.splitOn c with
      | nil => simp
      | cons front rest =>
        rw [found] at ih
        rintro s hs
        obtain rfl | hs := List.mem_cons.1 hs
        · have apart : c ≠ d := fun same => other (by simp [same])
          simpa [apart] using ih front List.mem_cons_self
        · exact ih s (List.mem_cons_of_mem _ hs)

theorem slash_notMem_of_mem_parts (h : part ∈ parts path) : '/' ∉ part.toList := by
  obtain ⟨s, hs, rfl⟩ := List.mem_map.1 (List.mem_filter.1 h).1
  rw [String.toList_ofList]
  exact notMem_of_mem_splitOn s hs

theorem components_intercalate {ps : List String} (h : ∀ p ∈ ps, '/' ∉ p.toList) (ne : ps ≠ []) :
    components ("/".intercalate ps) = ps := by
  rw [components, String.toList_intercalate]
  change ((['/'].intercalate (ps.map String.toList)).splitOn '/').map String.ofList = ps
  rw [List.splitOn_intercalate]
  · simp
  · rintro s hs
    obtain ⟨p, hp, rfl⟩ := List.mem_map.1 hs
    exact h p hp
  · simpa using ne

theorem place_eq : place path = (parts path).foldl advance [] := by
  rw [place, parts, List.foldl_filter]
  congr 1
  funext names part
  by_cases idle : part = "" ∨ part = "."
  · rw [advance, if_pos idle]
    rcases idle with rfl | rfl <;> rfl
  · rw [not_or] at idle
    simp [idle]

theorem place_join {ps : List String} (h : ∀ p ∈ ps, '/' ∉ p.toList) (ne : ps ≠ []) :
    place (join path ps) = ps.foldl advance [] := by
  unfold join place
  split
  · have rooted : "/" ++ "/".intercalate ps = "" ++ "/" ++ "/".intercalate ps := by simp
    rw [rooted, components_append, components_intercalate h ne]
    rfl
  · rw [String.empty_append, components_intercalate h ne]

theorem parts_ne {name : String} (h : name ∈ parts path) : name ≠ "" ∧ name ≠ "." := by
  simpa using (List.mem_filter.1 h).2

theorem place_sibling_ne {ending : String} (slashless : '/' ∉ ending.toList)
    (long : 2 < ending.length) : place (sibling path ending) ≠ place path := by
  have below : place (path ++ "/" ++ ending) = place path ++ [ending] := by
    rw [place, components_append, components_of_notMem slashless, List.foldl_append]
    exact advance_of_length long
  unfold sibling
  split
  · rw [below]
    simp
  · rw [below]
    simp
  · rename_i name up last
    obtain ⟨front, hfront⟩ := List.getLast?_eq_some_iff.1 last
    have known : name ∈ parts path := List.mem_of_getLast? last
    obtain ⟨ne, here⟩ := parts_ne known
    have old : place path = front.foldl advance [] ++ [name] := by
      rw [place_eq, hfront, List.foldl_append, List.foldl_cons, List.foldl_nil, advance,
        if_neg (not_or.2 ⟨ne, here⟩), if_neg up]
    have new : place (join path ((parts path).dropLast ++ [name ++ ending])) =
        front.foldl advance [] ++ [name ++ ending] := by
      rw [place_join _ (by simp), hfront, List.dropLast_concat, List.foldl_append,
        List.foldl_cons, List.foldl_nil, advance_of_length]
      · rw [String.length_append]
        omega
      · intro p hp
        obtain hp | hp := List.mem_append.1 hp
        · exact slash_notMem_of_mem_parts (List.dropLast_subset _ hp)
        · rw [List.mem_singleton.1 hp, String.toList_append, List.mem_append, not_or]
          exact ⟨slash_notMem_of_mem_parts known, slashless⟩
    rw [old, new]
    intro same
    have longer := congrArg String.length (List.singleton_inj.1 (List.append_cancel_left same))
    rw [String.length_append] at longer
    omega

end ClaimIndex.FileSystem

theorem ClaimIndex.FileStore.place_temporary_ne (f : FileStore) :
    FileSystem.place f.temporary ≠ FileSystem.place f.path :=
  FileSystem.place_sibling_ne (by decide) (by decide)
