import ClaimIndex.Proofs.Pages

namespace ClaimIndex

namespace Lowercase

abbrev Run := Nat × Nat × Nat × Int

namespace Run

def covers (r : Run) (n : Nat) : Bool := r.1 ≤ n && n ≤ r.2.1 && (n - r.1) % r.2.2.1 = 0

def low (r : Run) : Nat := (r.1 + r.2.2.2).toNat

def high (r : Run) : Nat := (r.2.1 + r.2.2.2).toNat

def lands (r : Run) : Bool :=
  0 ≤ r.1 + r.2.2.2 && (r.high < 0xD800 || 0xDFFF < r.low && r.high < 0x110000)

/-- No code point of the run is moved into `s`: they come to stand before `s`, behind it, or
between its members. -/
def misses (r s : Run) : Bool :=
  r.high.blt s.1 || s.2.1.blt r.low ||
    s.2.2.1 = 2 && (r.2.2.1 = 2 || r.1 = r.2.1) && (r.low + s.1) % 2 = 1

variable {r s : Run} {n : Nat}

theorem covers_iff : r.covers n = true ↔ r.1 ≤ n ∧ n ≤ r.2.1 ∧ (n - r.1) % r.2.2.1 = 0 := by
  simp [covers, and_assoc]

theorem moved_of_lands (lands : r.lands = true) (h : r.covers n = true) :
    (n + r.2.2.2).toNat = r.low + (n - r.1) ∧ (n + r.2.2.2).toNat ≤ r.high ∧
      (n + r.2.2.2).toNat.isValidChar := by
  obtain ⟨least, most, -⟩ := covers_iff.1 h
  simp only [Run.lands, Bool.and_eq_true, Bool.or_eq_true, decide_eq_true_iff] at lands
  unfold low high at *
  unfold Nat.isValidChar
  omega

theorem not_covers_of_misses (lands : r.lands = true) (misses : r.misses s = true)
    (h : r.covers n = true) : s.covers (n + r.2.2.2).toNat = false := by
  obtain ⟨least, most, place⟩ := covers_iff.1 h
  obtain ⟨moved, bounded, -⟩ := moved_of_lands lands h
  rw [Bool.eq_false_iff, Ne, covers_iff]
  rintro ⟨above, below, there⟩
  simp only [Run.misses, Bool.and_eq_true, Bool.or_eq_true, decide_eq_true_iff, Nat.blt_eq]
    at misses
  obtain (before | behind) | ⟨⟨two, apart⟩, odd⟩ := misses
  · omega
  · omega
  · rw [two] at there
    obtain two | one := apart
    · rw [two] at place
      omega
    · omega

end Run

def dotted : Run := (0x130, 0x130, 1, 0)

theorem lands_runs : ∀ r ∈ runs, Run.lands r = true ∧ Run.misses r dotted = true := by
  decide +kernel

theorem misses_runs : ∀ r ∈ runs, runs.all (Run.misses r) = true := by decide +kernel

variable {c : Char}

theorem ofChar_eq (ne : c ≠ 'İ') : ofChar c =
    ((runs.find? (Run.covers · c.toNat)).map fun r =>
      [Char.ofNat ((c.toNat : Int) + r.2.2.2).toNat]).getD [c] := by
  have same : (fun (first, last, stride, _) => first ≤ c.toNat && c.toNat ≤ last &&
      (c.toNat - first) % stride = 0 : Run → Bool) = (Run.covers · c.toNat) := by
    funext ⟨first, last, stride, shift⟩
    rfl
  rw [ofChar, if_neg ne]
  change (match runs.find? (fun (first, last, stride, _) => first ≤ c.toNat && c.toNat ≤ last &&
      (c.toNat - first) % stride = 0 : Run → Bool) with
    | some (_, _, _, shift) => [Char.ofNat (c.toNat + shift).toNat]
    | none => [c]) = _
  rw [same]
  cases runs.find? (Run.covers · c.toNat) <;> rfl

theorem ofChar_of_free (ne : c ≠ 'İ') (free : ∀ r ∈ runs, Run.covers r c.toNat = false) :
    ofChar c = [c] := by
  have unfound : runs.find? (Run.covers · c.toNat) = none :=
    List.find?_eq_none.2 fun r hr => Bool.eq_false_iff.1 (free r hr)
  rw [ofChar_eq ne, unfound]
  rfl

theorem toNat_ofNat {n : Nat} (h : n.isValidChar) : (Char.ofNat n).toNat = n := by
  rw [Char.ofNat, dif_pos h]
  rfl

theorem exists_ofChar (c : Char) : ∃ d rest, ofChar c = d :: rest ∧ ofChar d = [d] := by
  by_cases capital : c = 'İ'
  · subst capital
    exact ⟨'i', ['\u0307'], rfl, by decide +kernel⟩
  cases found : runs.find? (Run.covers · c.toNat) with
  | none =>
    have own : ofChar c = [c] := ofChar_of_free capital fun r hr =>
      Bool.eq_false_iff.2 (List.find?_eq_none.1 found r hr)
    exact ⟨c, [], own, own⟩
  | some r =>
    have known := List.mem_of_find?_eq_some found
    have covers : Run.covers r c.toNat = true := by simpa using List.find?_some found
    obtain ⟨lands, apart⟩ := lands_runs r known
    have moved := toNat_ofNat (Run.moved_of_lands lands covers).2.2
    have lower : ofChar c = [Char.ofNat (c.toNat + r.2.2.2).toNat] := by
      rw [ofChar_eq capital, found]
      rfl
    refine ⟨_, [], lower, ofChar_of_free ?_ fun s hs => ?_⟩
    · intro same
      have missed := Run.not_covers_of_misses lands apart covers
      rw [← moved, same] at missed
      exact absurd missed (by decide)
    · rw [moved]
      exact Run.not_covers_of_misses lands (List.all_eq_true.1 (misses_runs r known) s hs) covers

end Lowercase

namespace Key

theorem underscore_underscore (c : Char) : underscore (underscore c) = underscore c := by
  by_cases blank : c = ' ' <;> simp [underscore, blank]

theorem ofChar_underscore {c : Char} (own : Lowercase.ofChar c = [c]) :
    Lowercase.ofChar (underscore c) = [underscore c] := by
  by_cases blank : c = ' '
  · subst blank
    decide +kernel
  · rwa [underscore, if_neg blank]

theorem fold_fold (cs : List Char) : fold (fold cs) = fold cs := by
  cases cs with
  | nil => rfl
  | cons c cs =>
    obtain ⟨d, rest, lower, own⟩ := Lowercase.exists_ofChar c
    have folded : fold (c :: cs) = underscore d :: (rest ++ cs).map underscore := by
      rw [fold, lower, List.cons_append, List.map_cons]
    rw [folded, fold, ofChar_underscore own, List.singleton_append, List.map_cons,
      underscore_underscore, List.map_map]
    congr 2
    funext c
    exact underscore_underscore c

/-- The folded form of a raw key: its first character in lower case, which may be more than one
character, and an underscore for each space. -/
inductive Folded : List Char → List Char → Prop
  | empty : Folded [] []
  | spelled (c : Char) (cs : List Char) :
    Folded (c :: cs) ((Lowercase.ofChar c ++ cs).map fun d => if d = ' ' then '_' else d)

theorem folded_iff {cs form : List Char} : Folded cs form ↔ form = fold cs := by
  constructor
  · intro folded
    cases folded with
    | empty => rfl
    | spelled c cs => rfl
  · rintro rfl
    cases cs with
    | nil => exact .empty
    | cons c cs => exact .spelled c cs

/-- The page of a raw key's key is its namespace and its folded form, is shown as the key, and has
that key again.  So raw keys share a key exactly if they share the namespace and the folded
form. -/
theorem ofRaw_faithful :
    (∀ (n : Namespace) (raw : String), ∃ page, (ofRaw n raw).page? = some page ∧
      page.space = n ∧ Folded raw.toList page.title.toList ∧ page.text = (ofRaw n raw).text ∧
      ofRaw n page.title = ofRaw n raw) ∧
    ∀ (n m : Namespace) (raw other : String), ofRaw n raw = ofRaw m other ↔
      n = m ∧ ∃ form, Folded raw.toList form ∧ Folded other.toList form := by
  refine ⟨fun n raw => ?_, fun n m raw other => ⟨fun same => ?_, ?_⟩⟩
  · have title : (String.ofList (fold raw.toList)).toList = fold raw.toList := String.toList_ofList
    refine ⟨_, page?_ofRaw n raw, rfl, folded_iff.2 title, ?_, ?_⟩
    · rw [Page.text, title]
      rfl
    · rw [ofRaw, title, fold_fold]
      rfl
  · have pages := congrArg page? same
    rw [page?_ofRaw, page?_ofRaw] at pages
    obtain ⟨space, title⟩ := Page.mk.inj (Option.some.inj pages)
    exact ⟨space, _, folded_iff.2 rfl, folded_iff.2 (String.ofList_injective title)⟩
  · rintro ⟨rfl, form, folded, folded'⟩
    rw [ofRaw, ← folded_iff.1 folded, folded_iff.1 folded']
    rfl

theorem ofRaw_faithful_dotted :
    (ofRaw (-8) "İ b:C").page? = some ⟨-8, "i\u0307_b:C"⟩ ∧
      (ofRaw (-8) "İ b:C").text = "-8:i\u0307_b:C" ∧
      ofRaw (-8) "İ b:C" = ofRaw (-8) "i\u0307_b:C" ∧
      ofRaw (-8) "İ b:C" ≠ ofRaw (-8) "İ b:c" := by
  obtain ⟨pages, shares⟩ := ofRaw_faithful
  obtain ⟨page, found, space, folded, text, again⟩ := pages (-8) "İ b:C"
  have title : page.title = "i\u0307_b:C" := by
    refine String.toList_inj.1 ?_
    generalize page.title.toList = form at folded
    cases folded
    decide +kernel
  obtain rfl : page = ⟨-8, "i\u0307_b:C"⟩ := by rw [← space, ← title]
  refine ⟨found, text.symm, again.symm, fun same => ?_⟩
  obtain ⟨-, form, capital, small⟩ := (shares _ _ _ _).1 same
  cases capital
  cases small

end Key

end ClaimIndex
