import ClaimIndex.Proofs.Aftermath
import Mathlib.Data.List.Chain

namespace ClaimIndex

namespace Overlay

open World (idle reply)

inductive Use
  | merge (id : GroupId) (space : Namespace) (raws : List String)
  | read
  | find (k : Key)
  | purge (bound : Instant)
  | pass (now : Instant)

structure Merge where
  id : GroupId
  space : Namespace
  raws : List String
  time : Instant

def Merge.lists (m : Merge) (k : Key) : Bool := m.raws.any fun raw => Key.ofRaw m.space raw = k

def writer? (ms : List Merge) (k : Key) : Option GroupId :=
  (ms.filter (·.lists k)).getLast?.map Merge.id

namespace Use

def act (w : World) : Use → World
  | merge id space raws => (((store id space raws).run.run (reply idle)).run w).2
  | read => ((current.run.run (reply idle)).run w).2
  | find k => (((lookup k).run.run (reply idle)).run w).2
  | purge bound => (((reconcile bound Rebuild.rounds).run.run (reply idle)).run w).2
  | pass now => { w with clock := now }

def run (w : World) (uses : List Use) : World := uses.foldl act w

@[simp] def merge? (w : World) : Use → Option Merge
  | merge id space raws => some ⟨id, space, raws, w.clock⟩
  | _ => none

@[simp] def merges (w : World) : List Use → List Merge
  | [] => []
  | u :: uses => (u.merge? w).toList ++ merges (u.act w) uses

@[simp] def reading? : Use → Option Instant
  | pass now => some now
  | _ => none

def Onward (w : World) (uses : List Use) : Prop :=
  (w.clock :: uses.filterMap reading?).IsChain (· ≤ ·)

@[simp] def Prompt : Use → Prop
  | merge .. | read | find _ => True
  | purge _ | pass _ => False

end Use

section Merges

variable {m a b : Merge} {ms ns : List Merge} {k : Key}

theorem writer?_append : writer? (ms ++ ns) k = (writer? ns k).or (writer? ms k) := by
  rw [writer?, List.filter_append, List.getLast?_append, writer?, writer?]
  cases (ns.filter (·.lists k)).getLast? <;> rfl

theorem writer?_singleton : writer? [m] k = if m.lists k then some m.id else none := by
  by_cases listed : m.lists k = true <;> simp [writer?, listed]

section Parts

variable {id : GroupId} {space : Namespace} {raws : List String} {parts : List (List String)}
  {time : Instant}

theorem Merge.lists_split (split : ∀ raw, raw ∈ raws ↔ ∃ part ∈ parts, raw ∈ part) :
    Merge.lists ⟨id, space, raws, time⟩ k =
      parts.any fun part => Merge.lists ⟨id, space, part, time⟩ k := by
  rw [Bool.eq_iff_iff]
  simp only [Merge.lists, List.any_eq_true]
  constructor
  · rintro ⟨raw, there, same⟩
    obtain ⟨part, hp, there⟩ := (split raw).1 there
    exact ⟨part, hp, raw, there, same⟩
  · rintro ⟨part, hp, raw, there, same⟩
    exact ⟨raw, (split raw).2 ⟨part, hp, there⟩, same⟩

theorem writer?_parts : writer? (parts.map (⟨id, space, ·, time⟩)) k =
    if parts.any fun part => Merge.lists ⟨id, space, part, time⟩ k then some id else none := by
  induction parts using List.reverseRecOn with
  | nil => rfl
  | append_singleton parts raws ih =>
    rw [List.map_append, writer?_append, ih, List.map_singleton, writer?_singleton,
      List.any_append, List.any_cons, List.any_nil, Bool.or_false]
    by_cases last : Merge.lists ⟨id, space, raws, time⟩ k = true <;> simp [last]

theorem writer?_split (split : ∀ raw, raw ∈ raws ↔ ∃ part ∈ parts, raw ∈ part) :
    writer? [⟨id, space, raws, time⟩] k = writer? (parts.map (⟨id, space, ·, time⟩)) k := by
  rw [writer?_singleton, writer?_parts, Merge.lists_split split]

end Parts

theorem writer?_swap (apart : ¬ (a.lists k ∧ b.lists k)) : writer? [a, b] k = writer? [b, a] k := by
  rw [show [a, b] = [a] ++ [b] from rfl, show [b, a] = [b] ++ [a] from rfl, writer?_append,
    writer?_append, writer?_singleton, writer?_singleton]
  by_cases first : a.lists k = true
  · have second : b.lists k = false := by simpa [first] using apart
    simp [first, second]
  · simp [first]

theorem writer?_amid {xs ys : List Merge} (same : writer? xs k = writer? ys k) :
    writer? (ms ++ xs ++ ns) k = writer? (ms ++ ys ++ ns) k := by
  rw [writer?_append, writer?_append, same, ← writer?_append, ← writer?_append]

end Merges

namespace Use

open World (overlay?_of_bare overlay?_eq_some get_overlay)

variable {w : World} {u : Use} {uses front back : List Use} {entry : Entry} {k : Key}

theorem run_append : run w (front ++ back) = run (run w front) back := List.foldl_append

theorem merges_append : merges w (front ++ back) = merges w front ++ merges (run w front) back := by
  induction front generalizing w with
  | nil => rfl
  | cons u front ih =>
    rw [List.cons_append, merges, ih, merges, List.append_assoc]
    rfl

theorem merges_concat :
    merges w (uses ++ [u]) = merges w uses ++ (u.merge? (run w uses)).toList := by
  rw [merges_append, merges, merges, List.append_nil]

theorem Onward.init (h : Onward w (front ++ back)) : Onward w front := by
  rw [Onward, List.filterMap_append, ← List.cons_append] at h
  exact h.left_of_append

theorem act_merge (id : GroupId) (space : Namespace) (raws : List String) :
    act w (.merge id space raws) = w.written (w.merged id space raws) := by
  rw [act, World.store_run]

theorem overlay?_read : (act w .read).overlay? = w.overlay? := by
  cases there : w.overlay? with
  | none => exact overlay?_of_bare (Slots.getElem?_get there)
  | some entry =>
    have same : act w .read = w :=
      congrArg (fun slots => { w with slots }) (congrArg Prod.snd (get_overlay there))
    rw [same, there]

theorem act_purge (bound : Instant) : act w (.purge bound) = { w with slots := w.swept bound } := by
  have ran : (reconcile bound Rebuild.rounds).run.Yields (reply idle) w
      (.ok (some (w.verdict bound))) { w with slots := w.swept bound } := World.reconcile_verdict _
  exact congrArg Prod.snd ran

theorem overlay?_purge {bound : Instant} (h : (act w (.purge bound)).overlay? = some entry) :
    w.overlay? = some entry := by
  have bare : (World.overlay? { w with slots := w.slots.delete slot }) = none :=
    overlay?_of_bare Std.ExtTreeMap.getElem?_erase_self
  rw [act_purge] at h
  cases there : w.overlay? with
  | none =>
    rw [(World.verdict_bare there).2, bare] at h
    cases h
  | some held =>
    by_cases early : held.stamp ≤ bound
    · rw [(World.verdict_early there early).2, bare] at h
      cases h
    · rw [(World.verdict_late there early).2] at h
      exact there.symm.trans h

@[simp] theorem clock_act : (act w u).clock = u.reading?.getD w.clock := by
  cases u with
  | merge id space raws =>
    rw [act_merge]
    rfl
  | purge bound =>
    rw [act_purge]
    rfl
  | _ => rfl

theorem settings_act : (act w u).settings = w.settings := by
  cases u with
  | merge id space raws =>
    rw [act_merge]
    rfl
  | purge bound =>
    rw [act_purge]
  | _ => rfl

theorem clock_run : (w.clock :: uses.filterMap reading?).getLast? = some (run w uses).clock := by
  induction uses using List.reverseRecOn with
  | nil => rfl
  | append_singleton uses u ih =>
    have last : (run w (uses ++ [u])).clock = u.reading?.getD (run w uses).clock := by
      rw [run_append]
      exact clock_act
    rw [last, List.filterMap_append, ← List.cons_append, List.getLast?_append, ih]
    cases u <;> rfl

theorem Onward.last (h : Onward w (uses ++ [u])) (now : Instant) (pass : u = .pass now) :
    (run w uses).clock ≤ now := by
  subst pass
  rw [Onward, List.filterMap_append, ← List.cons_append] at h
  exact (List.isChain_append.1 h).2.2 _ clock_run now rfl

theorem overlay?_of_act (onward : ∀ now, u = .pass now → w.clock ≤ now)
    (aside : u.merge? w = none) (h : (act w u).overlay? = some entry) :
    w.overlay? = some entry := by
  cases u with
  | merge id space raws => cases aside
  | read => exact overlay?_read.symm.trans h
  | find k => exact overlay?_read.symm.trans h
  | purge bound => exact overlay?_purge h
  | pass now =>
    obtain ⟨held, there, live, same⟩ := overlay?_eq_some.1 h
    exact overlay?_eq_some.2 ⟨held, there, Slot.live_of_le live (onward now rfl), same⟩

theorem overlay?_merge {id : GroupId} {space : Namespace} {raws : List String} :
    (act w (.merge id space raws)).overlay? =
      if w.clock.after w.settings.ttl ≤ w.clock then none else some (w.merged id space raws) := by
  have there := World.slot_written (w := w) (w.merged id space raws)
  rw [act_merge]
  split
  · rename_i late
    exact congrArg Prod.fst (Slots.get_expired there (decide_eq_true late))
  · rename_i live
    exact World.overlay_of_live there (decide_eq_false live)

theorem merged_of_overlay? {id : GroupId} {space : Namespace} {raws : List String}
    (h : (act w (.merge id space raws)).overlay? = some entry) :
    entry = w.merged id space raws := by
  rw [overlay?_merge] at h
  split at h
  · cases h
  · exact (Option.some.inj h).symm

theorem getElem?_merge {m : Merge} {ms : List Merge} (merging : u.merge? w = some m)
    (h : (act w u).overlay? = some entry)
    (before : ∀ k, (w.overlay?.bind fun entry => entry.keys[k]?) = writer? ms k) :
    (∀ k, entry.keys[k]? = writer? (ms ++ [m]) k) ∧ entry.stamp = m.time := by
  cases u with
  | merge id space raws =>
    obtain rfl := Option.some.inj merging
    obtain rfl := merged_of_overlay? h
    refine ⟨fun k => ?_, World.stamp_merged id space raws⟩
    rw [World.getElem?_merged, before, writer?_append, writer?_singleton]
    by_cases listed : ∃ raw ∈ raws, Key.ofRaw space raw = k <;> simp [Merge.lists, listed]
  | _ => cases merging

/-- From an empty overlay on, a run has always found an entry, and the last one is made of the
merges of the run: under each key it has the group that merged the key last, and its stamp is the
time of the last merge. -/
structure Since (w : World) (uses : List Use) (entry : Entry) : Prop where
  bare : w.overlay? = none
  filled : ∀ part, part ≠ [] → part <+: uses → (run w part).overlay? ≠ none
  keys : ∀ k, entry.keys[k]? = writer? (merges w uses) k
  stamp : (merges w uses).getLast?.map Merge.time = some entry.stamp

theorem filled_concat
    (filled : ∀ part, part ≠ [] → part <+: uses → (run w part).overlay? ≠ none)
    (there : (run w (uses ++ [u])).overlay? = some entry) :
    ∀ part, part ≠ [] → part <+: uses ++ [u] → (run w part).overlay? ≠ none := by
  intro part some cut
  obtain rfl | cut := List.prefix_concat_iff.1 cut
  · rw [there]
    exact Option.some_ne_none entry
  · exact filled part some cut

theorem Since.aside (h : Since w uses entry) (aside : u.merge? (run w uses) = none)
    (there : (run w (uses ++ [u])).overlay? = some entry) : Since w (uses ++ [u]) entry := by
  have same : merges w (uses ++ [u]) = merges w uses := by
    rw [merges_concat, aside]
    exact List.append_nil _
  refine ⟨h.bare, filled_concat h.filled there, ?_, ?_⟩
  · rw [same]
    exact h.keys
  · rw [same]
    exact h.stamp

theorem since_merge {m : Merge} (bare : w.overlay? = none)
    (filled : ∀ part, part ≠ [] → part <+: uses → (run w part).overlay? ≠ none)
    (before : ∀ k, ((run w uses).overlay?.bind fun entry => entry.keys[k]?) =
      writer? (merges w uses) k)
    (merging : u.merge? (run w uses) = some m)
    (there : (run w (uses ++ [u])).overlay? = some entry) : Since w (uses ++ [u]) entry := by
  have more : merges w (uses ++ [u]) = merges w uses ++ [m] := by
    rw [merges_concat, merging]
    rfl
  have last : (act (run w uses) u).overlay? = some entry := by
    rw [run_append] at there
    exact there
  obtain ⟨keys, stamp⟩ := getElem?_merge merging last before
  refine ⟨bare, filled_concat filled there, ?_, ?_⟩
  · rw [more]
    exact keys
  · rw [more, List.getLast?_concat, stamp]
    rfl

theorem exists_since (bare : w.overlay? = none) (onward : Onward w uses)
    (there : (run w uses).overlay? = some entry) :
    ∃ front back, uses = front ++ back ∧ Since (run w front) back entry := by
  induction uses using List.reverseRecOn generalizing entry with
  | nil =>
    rw [run, List.foldl_nil, bare] at there
    cases there
  | append_singleton uses u ih =>
    have last : (act (run w uses) u).overlay? = some entry := by
      rw [run_append] at there
      exact there
    cases found : (run w uses).overlay? with
    | none =>
      -- the entry is new, so the use was a merge
      cases merging : u.merge? (run w uses) with
      | none =>
        have kept := overlay?_of_act (onward.last) merging last
        rw [found] at kept
        cases kept
      | some m =>
        refine ⟨uses, [u], rfl, ?_⟩
        change Since _ ([] ++ [u]) entry
        refine since_merge found (fun part some cut => ?_) (fun k => ?_) merging last
        · exact absurd (List.prefix_nil.1 cut) some
        · rw [run, List.foldl_nil, found]
          rfl
    | some held =>
      obtain ⟨front, back, rfl, since⟩ := ih onward.init found
      rw [List.append_assoc, run_append] at there
      rw [run_append] at found
      refine ⟨front, back ++ [u], List.append_assoc .., ?_⟩
      cases merging : u.merge? (run (run w front) back) with
      | none =>
        have steady := onward.last
        rw [run_append] at last steady
        have kept := overlay?_of_act steady merging last
        obtain rfl := Option.some.inj (found.symm.trans kept)
        exact since.aside merging there
      | some m =>
        refine since_merge since.bare since.filled (fun k => ?_) merging there
        rw [found]
        exact since.keys k

section Prompt

variable {us vs : List Use}

theorem clock_of_prompt (prompt : ∀ u ∈ uses, u.Prompt) : (run w uses).clock = w.clock := by
  have still : uses.filterMap reading? = [] := by
    refine List.filterMap_eq_nil_iff.2 fun u hu => ?_
    have := prompt u hu
    cases u <;> first | rfl | exact this.elim
  have last : (w.clock :: uses.filterMap reading?).getLast? = some (run w uses).clock := clock_run
  rw [still] at last
  exact (Option.some.inj last).symm

theorem settings_run : (run w uses).settings = w.settings := by
  induction uses generalizing w with
  | nil => rfl
  | cons u uses ih => exact ih.trans settings_act

theorem overlay?_aside (prompt : u.Prompt) (aside : u.merge? w = none) :
    (act w u).overlay? = w.overlay? := by
  cases u with
  | merge id space raws => cases aside
  | read => exact overlay?_read
  | find k => exact overlay?_read
  | purge bound => exact prompt.elim
  | pass now => exact prompt.elim

theorem overlay?_late (prompt : ∀ u ∈ uses, u.Prompt) (merging : merges w uses ≠ [])
    (late : w.clock.after w.settings.ttl ≤ w.clock) : (run w uses).overlay? = none := by
  induction uses using List.reverseRecOn with
  | nil => exact absurd rfl merging
  | append_singleton uses u ih =>
    have early : ∀ u ∈ uses, u.Prompt := fun u hu => prompt u (List.mem_append_left _ hu)
    rw [run_append]
    change (act (run w uses) u).overlay? = none
    cases added : u.merge? (run w uses) with
    | none =>
      rw [overlay?_aside (prompt u (by simp)) added]
      rw [merges_concat, added] at merging
      exact ih early (by simpa using merging)
    | some m =>
      cases u with
      | merge id space raws => rw [overlay?_merge, clock_of_prompt early, settings_run, if_pos late]
      | _ => cases added

theorem overlay?_prompt (prompt : ∀ u ∈ uses, u.Prompt)
    (live : ¬ w.clock.after w.settings.ttl ≤ w.clock) :
    (∀ k, ((run w uses).overlay?.bind fun entry => entry.keys[k]?) =
      (writer? (merges w uses) k).or (w.overlay?.bind fun entry => entry.keys[k]?)) ∧
    (merges w uses ≠ [] → (run w uses).overlay?.map Entry.stamp = some w.clock) := by
  induction uses using List.reverseRecOn with
  | nil => exact ⟨fun k => rfl, fun merging => absurd rfl merging⟩
  | append_singleton uses u ih =>
    have early : ∀ u ∈ uses, u.Prompt := fun u hu => prompt u (List.mem_append_left _ hu)
    obtain ⟨keys, stamp⟩ := ih early
    rw [run_append, merges_concat]
    change (∀ k, ((act (run w uses) u).overlay?.bind fun entry => entry.keys[k]?) = _) ∧
      (_ → (act (run w uses) u).overlay?.map Entry.stamp = _)
    cases added : u.merge? (run w uses) with
    | none =>
      rw [overlay?_aside (prompt u (by simp)) added, Option.toList, List.append_nil]
      exact ⟨keys, stamp⟩
    | some m =>
      cases u with
      | merge id space raws =>
        obtain rfl := Option.some.inj added
        rw [overlay?_merge, clock_of_prompt early, settings_run, if_neg live]
        refine ⟨fun k => ?_, fun _ => ?_⟩
        · rw [Option.bind_some, World.getElem?_merged, keys, Option.toList, writer?_append,
            writer?_singleton]
          by_cases listed : ∃ raw ∈ raws, Key.ofRaw space raw = k <;> simp [Merge.lists, listed]
        · rw [Option.map_some, World.stamp_merged, clock_of_prompt early]
      | _ => cases added

theorem overlay?_congr (prompt : ∀ u ∈ us, u.Prompt) (prompt' : ∀ v ∈ vs, v.Prompt)
    (merging : merges w us ≠ []) (merging' : merges w vs ≠ [])
    (same : ∀ k, writer? (merges w us) k = writer? (merges w vs) k) :
    (run w us).overlay? = (run w vs).overlay? := by
  by_cases late : w.clock.after w.settings.ttl ≤ w.clock
  · rw [overlay?_late prompt merging late, overlay?_late prompt' merging' late]
  · obtain ⟨keys, stamp⟩ := overlay?_prompt prompt late
    obtain ⟨keys', stamp'⟩ := overlay?_prompt prompt' late
    obtain ⟨entry, there, stamped⟩ := Option.map_eq_some_iff.1 (stamp merging)
    obtain ⟨entry', there', stamped'⟩ := Option.map_eq_some_iff.1 (stamp' merging')
    rw [there, there']
    obtain ⟨stamp, held⟩ := entry
    obtain ⟨stamp', held'⟩ := entry'
    obtain rfl : stamp = stamp' := stamped.trans stamped'.symm
    obtain rfl : held = held' := Std.ExtTreeMap.ext_getElem? fun k => by
      have first := keys k
      have second := keys' k
      rw [there, Option.bind_some] at first
      rw [there', Option.bind_some] at second
      rw [first, same, second]
    rfl

end Prompt

/-- An entry that is found after whatever merges, looks, purges and moves of a clock that never
goes back has come to be since the overlay was empty last: under each key that one of the merges
since then lists, and under no other, it has the group of the last of these, and its stamp is the
time of the last merge.  So at one time a merge may be split into several of the same group, and
merges that have no key in common may be exchanged. -/
theorem last_writer_wins :
    (∀ (w : World) (uses : List Use) (entry : Entry), w.overlay? = none → Onward w uses →
      (run w uses).overlay? = some entry →
      ∃ front back, uses = front ++ back ∧ Since (run w front) back entry) ∧
    (∀ (w : World) (us vs : List Use) (ms ns : List Merge) (id : GroupId) (space : Namespace)
      (raws : List String) (parts : List (List String)) (time : Instant), (∀ u ∈ us, u.Prompt) →
      (∀ v ∈ vs, v.Prompt) → parts ≠ [] →
      (∀ raw, raw ∈ raws ↔ ∃ part ∈ parts, raw ∈ part) →
      merges w us = ms ++ [⟨id, space, raws, time⟩] ++ ns →
      merges w vs = ms ++ parts.map (⟨id, space, ·, time⟩) ++ ns →
      (run w us).overlay? = (run w vs).overlay?) ∧
    (∀ (w : World) (us vs : List Use) (ms ns : List Merge) (a b : Merge), (∀ u ∈ us, u.Prompt) →
      (∀ v ∈ vs, v.Prompt) → (∀ k, ¬ (a.lists k ∧ b.lists k)) →
      merges w us = ms ++ [a, b] ++ ns → merges w vs = ms ++ [b, a] ++ ns →
      (run w us).overlay? = (run w vs).overlay?) := by
  refine ⟨fun w uses entry => exists_since, ?_, ?_⟩
  · intro w us vs ms ns id space raws parts time prompt prompt' some split whole parted
    refine overlay?_congr prompt prompt' (by simp [whole]) (by simp [parted, some]) fun k => ?_
    rw [whole, parted]
    exact writer?_amid (writer?_split split)
  · intro w us vs ms ns a b prompt prompt' apart before after
    refine overlay?_congr prompt prompt' (by simp [before]) (by simp [after]) fun k => ?_
    rw [before, after]
    exact writer?_amid (writer?_swap (apart k))

def brief : World where
  settings := { ttl := .ofSeconds 10 }

def edits : List Use :=
  [.merge "early" 8 ["Foo"], .pass (.ofNat 11), .merge "a" 8 ["Foo bar", "Qux"], .read,
    .pass (.ofNat 12), .find (.ofRaw 8 "Foo"), .merge "b" 8 ["foo_bar"]]

theorem last_writer_wins_brief :
    (∃ entry, (run brief edits).overlay? = some entry ∧
      (entry.stamp, entry.keys.toList) = (.ofNat 12, [(⟨"8:foo_bar"⟩, "b"), (⟨"8:qux"⟩, "a")]) ∧
      ∃ front back, edits = front ++ back ∧ Since (run brief front) back entry) ∧
    (run brief [.merge "a" 8 ["Foo bar", "Qux"], .merge "b" 8 ["foo_bar"]]).overlay? =
      (run brief [.merge "a" 8 ["Foo bar"], .read, .merge "a" 8 ["Qux"],
        .merge "b" 8 ["foo_bar"]]).overlay? ∧
    (run brief [.merge "a" 8 ["Qux"], .merge "b" 9 ["Qux"]]).overlay? =
      (run brief [.merge "b" 9 ["Qux"], .merge "a" 8 ["Qux"]]).overlay? := by
  have bare : brief.overlay? = none := World.overlay?_of_bare (by decide +kernel)
  have onward : Onward brief edits := by
    unfold Onward
    decide +kernel
  have there : ((run brief edits).overlay?.map fun entry => (entry.stamp, entry.keys.toList)) =
      some (.ofNat 12, [(⟨"8:foo_bar"⟩, "b"), (⟨"8:qux"⟩, "a")]) := by decide +kernel
  obtain ⟨entry, there, holds⟩ := Option.map_eq_some_iff.1 there
  have apart : Key.ofRaw 8 "Qux" ≠ Key.ofRaw 9 "Qux" := by decide +kernel
  refine ⟨⟨entry, there, holds, last_writer_wins.1 _ _ _ bare onward there⟩,
    last_writer_wins.2.1 brief _ _ [] [⟨"b", 8, ["foo_bar"], .zero⟩] "a" 8 ["Foo bar", "Qux"]
      [["Foo bar"], ["Qux"]] .zero (by simp) (by simp) (by simp) (by simp) (by simp [brief])
      (by simp [brief]),
    last_writer_wins.2.2 brief _ _ [] [] ⟨"a", 8, ["Qux"], .zero⟩ ⟨"b", 9, ["Qux"], .zero⟩
      (by simp) (by simp) ?_ (by simp [brief]) (by simp [brief])⟩
  rintro k ⟨first, second⟩
  exact apart ((by simpa [Merge.lists] using first : Key.ofRaw 8 "Qux" = k).trans
    (by simpa [Merge.lists] using second : Key.ofRaw 9 "Qux" = k).symm)

end Use
end Overlay
end ClaimIndex
