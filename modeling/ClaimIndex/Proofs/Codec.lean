import ClaimIndex.Proofs.Built
import ClaimIndex.Proofs.Entries
import ClaimIndex.Store.Codec
import Mathlib.Algebra.Ring.Nat

namespace ClaimIndex

theorem Bytes.toString?_ofString (s : String) : (ofString s).toString? = some s := by
  change (if h : s.toUTF8.IsValidUTF8 then some (String.fromUTF8 s.toUTF8 h) else none) = some s
  exact dif_pos s.isValidUTF8

namespace Codec

variable {α β : Type}

structure Reads (r : Reader α) (bytes : Bytes) (a : α) : Prop where
  whole : ∀ rest, r.run (bytes ++ rest) = .ok (a, rest)
  cut : ∀ front back, front ++ back = bytes → back ≠ [] → r.run front = .error ending

theorem reads_pure (a : α) : Reads (pure a) [] a where
  whole _ := rfl
  cut _ _ split hback := absurd (List.append_eq_nil_iff.1 split).2 hback

theorem Reads.bind {r : Reader α} {f : α → Reader β} {first second : Bytes} {a : α} {b : β}
    (ha : Reads r first a) (hb : Reads (f a) second b) : Reads (r >>= f) (first ++ second) b where
  whole rest := by
    rw [StateT.run_bind, List.append_assoc, ha.whole]
    exact hb.whole rest
  cut front back split hback := by
    rw [StateT.run_bind]
    -- cut within the first bytes the first reader runs out, and behind them the second one does
    obtain ⟨more, rfl, rest⟩ | ⟨more, rfl, rest⟩ := List.append_eq_append_iff.1 split
    · by_cases hmore : more = []
      · subst hmore
        have taken := ha.whole []
        rw [List.append_nil, List.append_nil] at taken
        rw [taken]
        exact hb.cut [] back rest hback
      · rw [ha.cut front more rfl hmore]
        rfl
    · rw [ha.whole]
      exact hb.cut more back rest.symm hback

theorem Reads.map {r : Reader α} (f : α → β) {bytes : Bytes} {a : α} (ha : Reads r bytes a) :
    Reads (f <$> r) bytes (f a) where
  whole rest := by
    rw [StateT.run_map, ha.whole]
    rfl
  cut front back split hback := by
    rw [StateT.run_map, ha.cut front back split hback]
    rfl

@[simp] theorem length_natural (width n : Nat) : (natural width n).length = width := by
  induction width generalizing n with
  | zero => rfl
  | succ width ih => simp [natural, ih]

def byte? : Reader UInt8 := do
  let b :: rest ← get | throw ending
  set rest
  return b

theorem reads_byte (b : UInt8) : Reads byte? [b] b where
  whole _ := rfl
  cut front back split hback := by
    obtain ⟨rfl, -⟩ | ⟨-, rfl⟩ := List.append_eq_singleton_iff.1 split
    · rfl
    · exact absurd rfl hback

theorem natural?_succ (width : Nat) : natural? (width + 1) =
    byte? >>= fun b => (b.toNat + 256 * ·) <$> natural? width := by
  funext bytes
  cases bytes <;> rfl

theorem reads_natural {width n : Nat} (hn : n < 256 ^ width) :
    Reads (natural? width) (natural width n) n := by
  induction width generalizing n with
  | zero =>
    obtain rfl : n = 0 := by simpa using hn
    exact reads_pure 0
  | succ width ih =>
    have hdiv : n / 256 < 256 ^ width := by
      rw [Nat.div_lt_iff_lt_mul (by decide), ← Nat.pow_succ]
      exact hn
    have digits : (UInt8.ofNat n).toNat + 256 * (n / 256) = n := by
      rw [UInt8.toNat_ofNat']
      omega
    have tail := (ih hdiv).map ((UInt8.ofNat n).toNat + 256 * ·)
    rw [digits] at tail
    rw [natural?_succ]
    exact (reads_byte _).bind tail

theorem eq_natural_append {width n : Nat} {bytes rest : Bytes}
    (h : (natural? width).run bytes = .ok (n, rest)) : bytes = natural width n ++ rest := by
  induction width generalizing bytes n with
  | zero =>
    cases h
    rfl
  | succ width ih =>
    cases bytes with
    | nil => cases h
    | cons b bytes =>
      rw [natural?_succ] at h
      change (fun r : Nat × Bytes => (b.toNat + 256 * r.1, r.2)) <$> (natural? width).run bytes =
        .ok (n, rest) at h
      cases hr : (natural? width).run bytes with
      | error detail => rw [hr] at h; cases h
      | ok r =>
        rw [hr] at h
        cases h
        have digit : UInt8.ofNat (b.toNat + 256 * r.1) = b := by
          apply UInt8.toNat_inj.1
          rw [UInt8.toNat_ofNat']
          have := b.toNat_lt
          omega
        have digits : (b.toNat + 256 * r.1) / 256 = r.1 := by
          have := b.toNat_lt
          omega
        rw [natural, digit, digits, ih hr]
        rfl

theorem reads_take (bytes : Bytes) : Reads (take? bytes.length) bytes bytes where
  whole rest := by
    have long : ¬ (bytes ++ rest).length < bytes.length := by simp
    simp only [take?, StateT.run_bind, StateT.run_get, pure_bind, if_neg long, StateT.run_set,
      StateT.run_pure, List.take_left, List.drop_left]
    rfl
  cut front back split hback := by
    have short : front.length < bytes.length := by
      have := List.length_pos_iff.2 hback
      rw [← split, List.length_append]
      omega
    simp only [take?, StateT.run_bind, StateT.run_get, pure_bind, if_pos short]
    rfl

def decoded? (bytes : Bytes) : Reader String :=
  match bytes.toString? with
  | none => throw "invalid utf-8 sequence"
  | some s => return s

theorem text?_eq : text? = natural? 8 >>= fun n => take? n >>= decoded? := rfl

theorem reads_text {s : String} (hs : (text s).length < 2 ^ 64) : Reads text? (text s) s := by
  have hlen : (Bytes.ofString s).length < 256 ^ 8 := by
    simp only [text, List.length_append, length_natural] at hs
    omega
  have decoded : Reads (decoded? (Bytes.ofString s)) [] s := by
    rw [decoded?, Bytes.toString?_ofString]
    exact reads_pure s
  have taken := (reads_take (Bytes.ofString s)).bind decoded
  rw [List.append_nil] at taken
  rw [text?_eq]
  exact (reads_natural hlen).bind taken

theorem reads_items {item : α → Bytes} {item? : Reader α} {as : List α}
    (each : ∀ a ∈ as, Reads item? (item a) a) :
    Reads (items? item? as.length) (as.flatMap item) as := by
  induction as with
  | nil => exact reads_pure []
  | cons a as ih =>
    have rest := ih fun b hb => each b (List.mem_cons_of_mem a hb)
    rw [List.flatMap_cons]
    exact (each a List.mem_cons_self).bind (rest.map (a :: ·))

theorem length_le_flatMap {item : α → Bytes} {as : List α} {a : α} (ha : a ∈ as) :
    (item a).length ≤ (as.flatMap item).length := by
  obtain ⟨front, back, rfl⟩ := List.append_of_mem ha
  simp only [List.flatMap_append, List.flatMap_cons, List.length_append]
  omega

theorem count_le_flatMap {item : α → Bytes} {as : List α} (hitem : ∀ a, item a ≠ []) :
    as.length ≤ (as.flatMap item).length := by
  induction as with
  | nil => exact Nat.le_refl 0
  | cons a as ih =>
    have := List.length_pos_iff.2 (hitem a)
    simp only [List.flatMap_cons, List.length_append, List.length_cons]
    omega

theorem reads_list {item : α → Bytes} {item? : Reader α} {as : List α}
    (hitem : ∀ a, item a ≠ []) (hlen : (list item as).length < 2 ^ 64)
    (each : ∀ a ∈ as, (item a).length < 2 ^ 64 → Reads item? (item a) a) :
    Reads (list? item?) (list item as) as := by
  simp only [list, List.length_append, length_natural] at hlen
  have count : as.length ≤ (as.flatMap item).length := count_le_flatMap hitem
  have short : as.length < 256 ^ 8 := by omega
  refine (reads_natural short).bind (f := fun n => items? item? n)
    (reads_items fun a ha => each a ha ?_)
  have : (item a).length ≤ (as.flatMap item).length := length_le_flatMap ha
  omega

theorem text_ne_nil (s : String) : text s ≠ [] := by
  simp [text, natural]

theorem entry_ne_nil (e : Key × Claimants) : entry e ≠ [] := by
  simp [entry, text, natural]

def entryOf? (key : String) (ids : List GroupId) : Reader (Key × Claimants) :=
  match Claimants.ofList ids with
  | .error fault => throw fault.message
  | .ok claimants => return (⟨key⟩, claimants)

theorem entry?_eq : entry? = text? >>= fun key => list? text? >>= entryOf? key := rfl

theorem reads_entry {e : Key × Claimants} (he : e.2.WellFormed)
    (hlen : (entry e).length < 2 ^ 64) : Reads entry? (entry e) e := by
  simp only [entry, List.length_append] at hlen
  have key : Reads text? (text e.1.text) e.1.text := reads_text (by omega)
  have ids : Reads (list? text?) (list text e.2.ids) e.2.ids :=
    reads_list text_ne_nil (by omega) fun _ _ => reads_text
  have made : Reads (entryOf? e.1.text e.2.ids) [] e := by
    rw [entryOf?, Claimants.ofList_ids he]
    exact reads_pure e
  have tail := ids.bind made
  rw [List.append_nil] at tail
  rw [entry?_eq]
  exact key.bind tail

def entries? : Reader (Nat × List (Key × Claimants)) := do
  return (← natural? 4, ← list? entry?)

theorem decode_eq (bytes : Bytes) :
    decode bytes = (fun r => (r.1.1, .ofList r.1.2)) <$> entries?.run bytes := by
  simp only [decode, entries?, StateT.run_bind, StateT.run_pure]
  cases (natural? 4).run bytes with
  | error detail => rfl
  | ok r => cases hr : (list? entry?).run r.2 <;> simp

theorem reads_encode {entries : List (Key × Claimants)} (formed : ∀ e ∈ entries, e.2.WellFormed)
    (hlen : (encode entries).length < 2 ^ 64) :
    Reads entries? (encode entries) (version, entries) := by
  simp only [encode, List.length_append, length_natural] at hlen
  have head : Reads (natural? 4) (natural 4 version) version := reads_natural (by decide)
  have body : Reads (list? entry?) (list entry entries) entries :=
    reads_list entry_ne_nil (by omega) fun e he => reads_entry (formed e he)
  exact head.bind (f := fun v => Prod.mk v <$> list? entry?) (body.map (Prod.mk version))

theorem formed_of_perm {s : Snapshot} {entries : List (Key × Claimants)} (hs : s.WellFormed)
    (order : entries.Perm s.toList) : ∀ e ∈ entries, e.2.WellFormed := by
  rintro ⟨k, c⟩ he
  exact hs k c (Std.ExtTreeMap.mem_toList_iff_getElem?_eq_some.1 (order.subset he))

theorem length_encode_of_perm {entries entries' : List (Key × Claimants)}
    (order : entries.Perm entries') : (encode entries).length = (encode entries').length := by
  simp only [encode, list, List.length_append, length_natural, order.length_eq,
    (order.flatMap_right entry).length_eq]

theorem decode_encode {s : Snapshot} {entries : List (Key × Claimants)} (hs : s.WellFormed)
    (order : entries.Perm s.toList) (hlen : (encode entries).length < 2 ^ 64) :
    decode (encode entries) = .ok (version, s) := by
  have whole := (reads_encode (formed_of_perm hs order) hlen).whole []
  rw [List.append_nil] at whole
  rw [decode_eq, whole]
  change Except.ok (version, Std.ExtTreeMap.ofList entries) = Except.ok (version, s)
  rw [s.ofList_of_perm order]

theorem decode_cut {entries : List (Key × Claimants)} (formed : ∀ e ∈ entries, e.2.WellFormed)
    (hlen : (encode entries).length < 2 ^ 64) {front back : Bytes}
    (split : front ++ back = encode entries) (hback : back ≠ []) :
    decode front = .error ending := by
  rw [decode_eq, (reads_encode formed hlen).cut front back split hback]
  rfl

theorem natural_of_decode {bytes : Bytes} {v : Nat} {s : Snapshot}
    (h : decode bytes = .ok (v, s)) : natural 4 v <+: bytes := by
  rw [decode_eq, entries?, StateT.run_bind] at h
  cases hv : (natural? 4).run bytes with
  | error detail => rw [hv] at h; cases h
  | ok r =>
    obtain ⟨number, rest⟩ := r
    rw [hv] at h
    change (fun r : (Nat × List (Key × Claimants)) × Bytes => (r.1.1, .ofList r.1.2)) <$>
      (Prod.mk number <$> list? entry?).run rest = .ok (v, s) at h
    rw [StateT.run_map] at h
    cases hr : (list? entry?).run rest with
    | error detail => rw [hr] at h; cases h
    | ok r =>
      rw [hr] at h
      cases h
      exact ⟨rest, (eq_natural_append hv).symm⟩

end Codec
end ClaimIndex
