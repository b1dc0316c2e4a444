import ClaimIndex.Proofs.Built
import Mathlib.Data.List.Basic
import Mathlib.Data.List.TakeDrop
import Mathlib.Data.List.TakeWhile

namespace ClaimIndex

namespace Decimal

variable {c : Char} {n : Nat}

theorem digit?_eq_some (h : c.isDigit = true) : digit? c = some (c.toNat - '0'.toNat) := by
  rw [Char.isDigit, Bool.and_eq_true, decide_eq_true_iff, decide_eq_true_iff] at h
  exact if_pos h

theorem isDigit_of_mem_digits (h : c ∈ digits n) : c.isDigit = true :=
  Nat.isDigit_of_mem_toDigits (by decide) (by decide) h

theorem value_eq {s : List Char} (h : ∀ c ∈ s, c.isDigit = true) :
    value s = Nat.ofDigitChars 10 s 0 := by
  rw [value, Nat.ofDigitChars_eq_foldl]
  refine List.foldl_ext _ _ _ fun n c hc => ?_
  rw [digit?_eq_some (h c hc), Option.getD_some]

theorem natural?_digits (n : Nat) : natural? (digits n) = some n := by
  have digital (c : Char) (hc : c ∈ digits n) : c.isDigit = true := isDigit_of_mem_digits hc
  have all : (digits n).all isDigit = true := by
    refine List.all_eq_true.2 fun c hc => ?_
    rw [isDigit, digit?_eq_some (digital c hc)]
    rfl
  have some : (digits n).isEmpty = false := List.isEmpty_eq_false_iff.2 Nat.toDigits_ne_nil
  rw [natural?, all, some, value_eq digital]
  exact congrArg Option.some Nat.ofDigitChars_ten_toDigits

theorem splitSign_digits (n : Nat) : splitSign (digits n) = (false, digits n) := by
  have digital (c : Char) (hc : c ∈ digits n) : c.isDigit = true := isDigit_of_mem_digits hc
  unfold splitSign
  split
  · rename_i h
    exact absurd (digital '-' (h ▸ List.mem_cons_self)) (by decide)
  · rename_i h
    exact absurd (digital '+' (h ▸ List.mem_cons_self)) (by decide)
  · rfl

theorem integer?_digits (n : Nat) : integer? (digits n) = some (n : Int) := by
  rw [integer?, splitSign_digits]
  dsimp only
  rw [natural?_digits]
  rfl

theorem integer?_neg_digits (n : Nat) : integer? ('-' :: digits n) = some (-n : Int) := by
  rw [integer?, splitSign]
  dsimp only
  rw [natural?_digits]
  rfl

end Decimal

namespace Namespace

theorem integer?_text (n : Namespace) : Decimal.integer? n.text = some n.toInt := by
  unfold text
  split
  · rename_i negative
    rw [Decimal.integer?_neg_digits]
    congr 1
    omega
  · rename_i natural
    rw [Decimal.integer?_digits]
    congr 1
    omega

theorem read?_text (n : Namespace) : read? n.text = some n := by
  rw [read?, integer?_text]
  change ofInt? n.toInt = some n
  rw [ofInt?, if_pos ⟨n.minValue_le_toInt, n.toInt_le⟩, Int32.ofInt_toInt]

theorem colon_notMem_text (n : Namespace) : ':' ∉ n.text := by
  have digital {m : Nat} : ':' ∉ Decimal.digits m := fun h =>
    absurd (Decimal.isDigit_of_mem_digits h) (by decide)
  unfold text
  split
  · rw [List.mem_cons, not_or]
    exact ⟨by decide, digital⟩
  · exact digital

end Namespace

namespace Key

variable {k k' : Key}

theorem ne_colon_of_notMem {s : List Char} (h : ':' ∉ s) (c : Char) (hc : c ∈ s) :
    decide (c ≠ ':') = true := by
  rw [decide_eq_true_iff]
  rintro rfl
  exact h hc

theorem page?_of_notMem (none : ':' ∉ k.text.toList) : k.page? = Option.none := by
  have split : k.text.toList.span (· ≠ ':') = (k.text.toList, []) := by
    rw [List.span_eq_takeWhile_dropWhile, List.takeWhile_eq_self_iff.2 (ne_colon_of_notMem none),
      List.dropWhile_eq_nil_iff.2 (ne_colon_of_notMem none)]
  rw [page?, split]

theorem page?_of_split {front rest : List Char} (text : k.text.toList = front ++ ':' :: rest)
    (first : ':' ∉ front) : k.page? = (Namespace.read? front).map (⟨·, .ofList rest⟩) := by
  have split : k.text.toList.span (· ≠ ':') = (front, ':' :: rest) := by
    rw [text, List.span_eq_takeWhile_dropWhile,
      List.takeWhile_append_of_pos (ne_colon_of_notMem first),
      List.dropWhile_append_of_pos (ne_colon_of_notMem first)]
    simp
  rw [page?, split]

theorem page?_ofRaw (n : Namespace) (raw : String) :
    (ofRaw n raw).page? = some ⟨n, .ofList (fold raw.toList)⟩ := by
  have text : (ofRaw n raw).text.toList = n.text ++ ':' :: fold raw.toList := String.toList_ofList
  rw [page?_of_split text n.colon_notMem_text, Namespace.read?_text]
  rfl

def Addressed (k : Key) : Prop := k.page?.map Page.text = some k.text

theorem addressed_ofRaw (n : Namespace) (raw : String) : (ofRaw n raw).Addressed := by
  rw [Addressed, page?_ofRaw, Option.map_some, Page.text, String.toList_ofList]
  rfl

theorem Addressed.page (h : k.Addressed) : ∃ page, k.page? = some page :=
  (Option.map_eq_some_iff.1 h).imp fun _ => And.left

theorem Addressed.inj (h : k.Addressed) (h' : k'.Addressed) (same : k.page? = k'.page?) :
    k = k' := by
  have text : some k.text = some k'.text := by
    rw [← h, ← h', same]
  cases k
  cases k'
  exact congrArg Key.mk (Option.some.inj text)

end Key

def Snapshot.Addressed (s : Snapshot) : Prop := ∀ k ∈ s, k.Addressed

theorem Snapshot.addressed_empty : (∅ : Snapshot).Addressed :=
  fun _ hk => absurd hk Std.ExtTreeMap.not_mem_empty

theorem Build.addressed_outcome (groups : List Group) : (outcome groups).snapshot.Addressed := by
  intro k hk
  obtain ⟨id, hid⟩ := List.exists_mem_of_ne_nil _ ((mem_outcome groups k).1 hk)
  have claimed : ∃ g ∈ groups, g.claims k = true := by
    obtain found | found := List.mem_append.1 (mem_distinct.1 hid) <;>
    · obtain ⟨g, hg, -⟩ := List.mem_map.1 found
      obtain ⟨known, claims⟩ := List.mem_filter.1 hg
      exact ⟨g, known, (Bool.and_eq_true_iff.1 claims).2⟩
  obtain ⟨g, -, claims⟩ := claimed
  obtain ⟨raw, -, same⟩ := List.any_eq_true.1 (Bool.and_eq_true_iff.1 claims).2
  rw [← of_decide_eq_true same]
  exact Key.addressed_ofRaw g.space raw

end ClaimIndex
