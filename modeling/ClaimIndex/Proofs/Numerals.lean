import ClaimIndex.Proofs.Pages
import Mathlib.Algebra.Group.Int.Defs

namespace ClaimIndex

namespace Decimal

/-- Decimal digits, at least one and perhaps zeros at first, and the number that they write. -/
structure Writes (digits : List Char) (n : Nat) : Prop where
  some : digits ≠ []
  digital : ∀ c ∈ digits, c.isDigit = true
  number : Nat.ofDigitChars 10 digits 0 = n

def signed (negative : Bool) (n : Nat) : Int := if negative then -n else n

end Decimal

inductive Numeral : List Char → Int → Prop
  | plain {digits : List Char} {n : Nat} (h : Decimal.Writes digits n) : Numeral digits n
  | plus {digits : List Char} {n : Nat} (h : Decimal.Writes digits n) : Numeral ('+' :: digits) n
  | minus {digits : List Char} {n : Nat} (h : Decimal.Writes digits n) :
    Numeral ('-' :: digits) (-n)

namespace Decimal

variable {s : List Char} {c : Char} {m : Nat} {n : Int}

theorem isDigit_eq (c : Char) : isDigit c = c.isDigit := by
  by_cases digit : c.isDigit = true
  · rw [isDigit, digit?_eq_some digit, digit, Option.isSome_some]
  · rw [Bool.eq_false_iff.2 digit]
    rw [Char.isDigit, Bool.and_eq_true, decide_eq_true_iff, decide_eq_true_iff] at digit
    exact congrArg Option.isSome (if_neg digit)

theorem natural?_eq_some : natural? s = some m ↔ Writes s m := by
  have digital : s.all isDigit = true ↔ ∀ c ∈ s, c.isDigit = true := by
    simp only [List.all_eq_true, isDigit_eq]
  unfold natural?
  split
  · rename_i refused
    refine iff_of_false nofun fun h => ?_
    simp [h.some, digital.2 h.digital] at refused
  · rename_i accepted
    simp only [Bool.or_eq_true, List.isEmpty_iff, Bool.not_eq_true', not_or, Bool.not_eq_false,
      digital] at accepted
    rw [value_eq accepted.2, Option.some.injEq]
    exact ⟨fun number => ⟨accepted.1, accepted.2, number⟩, Writes.number⟩

theorem integer?_eq : integer? s = (natural? (splitSign s).2).map (signed (splitSign s).1) := by
  unfold integer?
  obtain ⟨negative, digits⟩ := splitSign s
  dsimp only
  cases natural? digits <;> rfl

theorem integer?_eq_some : integer? s = some n ↔ Numeral s n := by
  simp only [integer?_eq, Option.map_eq_some_iff, natural?_eq_some]
  -- a sign is no digit, so a numeral is read in one way only
  fun_cases splitSign s with
  | case1 digits =>
    constructor
    · rintro ⟨m, h, rfl⟩
      exact .minus h
    · intro numeral
      cases numeral with
      | plain h => exact absurd (h.digital '-' (.head _)) (by decide)
      | minus h => exact ⟨_, h, rfl⟩
  | case2 digits =>
    constructor
    · rintro ⟨m, h, rfl⟩
      exact .plus h
    · intro numeral
      cases numeral with
      | plain h => exact absurd (h.digital '+' (.head _)) (by decide)
      | plus h => exact ⟨_, h, rfl⟩
  | case3 digits minus plus =>
    constructor
    · rintro ⟨m, h, rfl⟩
      exact .plain h
    · intro numeral
      cases numeral with
      | plain h => exact ⟨_, h, rfl⟩
      | plus => exact absurd rfl (plus _)
      | minus => exact absurd rfl (minus _)

theorem value_concat : value (s ++ [c]) = 10 * value s + (digit? c).getD 0 := by
  rw [value, List.foldl_append]
  rfl

end Decimal

namespace Namespace

variable {n : Int} {m : Namespace} {s : List Char}

theorem ofInt?_eq_some : ofInt? n = some m ↔ m.toInt = n := by
  unfold ofInt?
  constructor
  · intro fits
    split at fits
    · rename_i range
      cases fits
      exact Int32.toInt_ofInt_of_le range.1 (Int.lt_of_le_of_lt range.2 (by decide))
    · cases fits
  · rintro rfl
    rw [if_pos ⟨m.minValue_le_toInt, m.toInt_le⟩, Int32.ofInt_toInt]

theorem ofInt?_eq_none : ofInt? n = none ↔ n < -2 ^ 31 ∨ 2 ^ 31 - 1 < n := by
  change (if -2 ^ 31 ≤ n ∧ n ≤ 2 ^ 31 - 1 then some (Int32.ofInt n) else none) = none ↔ _
  split
  · exact iff_of_false nofun (by omega)
  · exact iff_of_true rfl (by omega)

theorem read?_eq_some : read? s = some m ↔ Numeral s m.toInt := by
  rw [read?, Option.bind_eq_bind, Option.bind_eq_some_iff]
  constructor
  · rintro ⟨n, read, fits⟩
    rw [ofInt?_eq_some.1 fits]
    exact Decimal.integer?_eq_some.1 read
  · intro numeral
    exact ⟨_, Decimal.integer?_eq_some.2 numeral, ofInt?_eq_some.2 rfl⟩

/-- Put a digit behind a number: the number is multiplied, then the digit is added to it, or taken
from it if the number has a minus.  Neither result may leave the 32 bits. -/
def feed (negative : Bool) (n : Namespace) (c : Char) : Option Namespace := do
  let tens ← ofInt? (10 * n.toInt)
  let digit ← Decimal.digit? c
  ofInt? (tens.toInt + Decimal.signed negative digit)

def scan? (s : List Char) : Option Namespace :=
  let (negative, digits) := Decimal.splitSign s
  if digits.isEmpty then none else digits.foldlM (feed negative) 0

section Scan

open Decimal (signed digit? isDigit value)

variable {negative : Bool} {m n : Nat}

theorem outgrown (none : ofInt? (signed negative m) = none) (le : m ≤ n) :
    ofInt? (signed negative n) = Option.none := by
  rw [ofInt?_eq_none] at none ⊢
  cases negative <;> simp only [signed, Bool.false_eq_true, if_true, if_false] at none ⊢ <;> omega

theorem bind_feed (c : Char) : (ofInt? (signed negative n) >>= (feed negative · c)) =
    digit? c >>= fun d => ofInt? (signed negative (10 * n + d)) := by
  have shifted : 10 * signed negative n = signed negative (10 * n) := by
    unfold signed
    split <;> omega
  have summed (d : Nat) :
      signed negative (10 * n) + signed negative d = signed negative (10 * n + d) := by
    unfold signed
    split <;> omega
  have doomed (m : Nat) (none : ofInt? (signed negative m) = none) (le : m ≤ 10 * n) :
      (digit? c >>= fun d => ofInt? (signed negative (10 * n + d))) = Option.none := by
    cases digit? c with
    | none => rfl
    | some d => exact outgrown none (by omega)
  cases now : ofInt? (signed negative n) with
  | none => exact (doomed n now (by omega)).symm
  | some m =>
    change feed negative m c = _
    rw [feed, ofInt?_eq_some.1 now, shifted]
    cases tens : ofInt? (signed negative (10 * n)) with
    | none => exact (doomed (10 * n) tens (Nat.le_refl _)).symm
    | some t =>
      change (digit? c >>= fun d => ofInt? (t.toInt + signed negative d)) = _
      simp only [ofInt?_eq_some.1 tens, summed]

theorem foldlM_feed (digits : List Char) : digits.foldlM (feed negative) 0 =
    if digits.all isDigit then ofInt? (signed negative (value digits)) else none := by
  induction digits using List.reverseRecOn with
  | nil => cases negative <;> rfl
  | append_singleton digits c ih =>
    simp only [List.foldlM_append, ih, List.foldlM_cons, List.foldlM_nil, bind_pure]
    by_cases all : digits.all isDigit = true
    · rw [if_pos all, bind_feed, Decimal.value_concat]
      cases digit : digit? c <;> simp [all, isDigit, digit]
    · simp [all]

theorem read?_eq_scan? (s : List Char) : read? s = scan? s := by
  rw [read?, Decimal.integer?_eq, scan?, Decimal.natural?]
  obtain ⟨negative, digits⟩ := Decimal.splitSign s
  dsimp only
  rw [foldlM_feed]
  by_cases empty : digits.isEmpty = true
  · simp [empty]
  · by_cases all : digits.all isDigit = true
    · simp [empty, all]
    · simp [empty, all]

end Scan

end Namespace

namespace Key

variable {k : Key} {page : Page}

theorem page?_eq_some : k.page? = some page ↔
    ∃ front, k.text.toList = front ++ ':' :: page.title.toList ∧ ':' ∉ front ∧
      Numeral front page.space.toInt := by
  constructor
  · intro found
    by_cases there : ':' ∈ k.text.toList
    · obtain ⟨front, rest, text, first⟩ := List.eq_append_cons_of_mem there
      rw [page?_of_split text first] at found
      obtain ⟨space, read, rfl⟩ := Option.map_eq_some_iff.1 found
      exact ⟨front, by rwa [String.toList_ofList], first, Namespace.read?_eq_some.1 read⟩
    · rw [page?_of_notMem there] at found
      cases found
  · rintro ⟨front, text, first, numeral⟩
    rw [page?_of_split text first, Namespace.read?_eq_some.2 numeral, String.ofList_toList]
    rfl

/-- A text addresses a page exactly if it has a colon and a whole number that fits 32 bits stands
before the first one, written with one sign or none and with digits only, of which there may be any
number; that number and all that stands behind the colon make up the page.  The number may be read
digit by digit within 32 bits: what no longer fits then does not fit in the end either, and zeros
in front do no harm. -/
theorem pages_exact (text : String) :
    ((page? ⟨text⟩).isSome ↔ ∃ front rest n,
      text.toList = front ++ ':' :: rest ∧ ':' ∉ front ∧
      Numeral front n ∧ -2 ^ 31 ≤ n ∧ n ≤ 2 ^ 31 - 1) ∧
    (∀ page, page? ⟨text⟩ = some page ↔ ∃ front,
      text.toList = front ++ ':' :: page.title.toList ∧
      ':' ∉ front ∧ Numeral front page.space.toInt) ∧
    ∀ front, Namespace.read? front = Namespace.scan? front := by
  refine ⟨?_, fun page => page?_eq_some, Namespace.read?_eq_scan?⟩
  rw [Option.isSome_iff_exists]
  constructor
  · rintro ⟨page, found⟩
    obtain ⟨front, split, first, numeral⟩ := page?_eq_some.1 found
    have least := page.space.minValue_le_toInt
    have most := page.space.toInt_le
    exact ⟨front, _, _, split, first, numeral, least, most⟩
  · rintro ⟨front, rest, n, split, first, numeral, least, most⟩
    cases fits : Namespace.ofInt? n with
    | none =>
      have := Namespace.ofInt?_eq_none.1 fits
      omega
    | some space =>
      rw [← Namespace.ofInt?_eq_some.1 fits] at numeral
      exact ⟨⟨space, .ofList rest⟩, page?_eq_some.2
        ⟨front, by rwa [String.toList_ofList], first, numeral⟩⟩

example : page? ⟨"-002147483648:9:x"⟩ = some ⟨-2147483648, "9:x"⟩ := by decide +kernel

example : page? ⟨"2147483648:x"⟩ = none := by decide +kernel

end Key

end ClaimIndex
