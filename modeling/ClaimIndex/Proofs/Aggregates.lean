import ClaimIndex.Proofs.Declarations
import ClaimIndex.Proofs.Precedence
import ClaimIndex.Setup

namespace ClaimIndex

theorem Precedes.head?_ne {α : Type} {as : List α} {a b : α} (nodup : as.Nodup)
    (h : Precedes as a b) : as.head? ≠ some b := by
  classical
  intro first
  obtain ⟨rest, rfl⟩ := List.head?_eq_some_iff.1 first
  simpa using h.idxOf_lt nodup

namespace Build

variable {groups : List Group} {g g' : Group}

theorem precedes_order (hg : g ∈ groups) (hg' : g' ∈ groups) (own : g.isDerived = false)
    (derived : g'.isDerived = true) : Precedes (order groups) g g' := by
  have first : g ∈ groups.filter (!·.isDerived) := List.mem_filter.2 ⟨hg, by simp [own]⟩
  have second : g' ∈ groups.filter Group.isDerived := List.mem_filter.2 ⟨hg', derived⟩
  exact (List.singleton_sublist.2 first).append (List.singleton_sublist.2 second)

end Build

namespace Definitions

variable {d : Definitions} {groups : List Group} {a : Aggregate} {p : Plain} {k : Key}

/-- A plain group that an aggregate leads to has a raw key that is folded to `k` in the namespace of
the aggregate. -/
structure Supplies (d : Definitions) (a : Aggregate) (k : Key) (p : Plain) : Prop where
  mem : p ∈ d.plain
  present : p.present = true
  reach : Relation.ReflTransGen d.Lists a.id p.id
  raw : ∃ raw ∈ p.keys, Key.ofRaw a.space raw = k

/-- The claim of an aggregate to a key is the one of plain groups that it leads to, as far as they
share its namespace. -/
structure Backs (d : Definitions) (s : Snapshot) (a : Aggregate) (k : Key) : Prop where
  supplied : ∃ p, d.Supplies a k p
  behind : ∀ p, d.Supplies a k p → p.space = a.space → Precedes (s.idsOf k) p.id a.id
  foreign : (s.idsOf k).head? = some a.id → ∀ p, d.Supplies a k p → p.space ≠ a.space

theorem read_eq_ok {text : String} : read text = .ok groups ↔
    ∃ d, Toml.read? text >>= ofDatum? .ignored = some d ∧ d.groups = .ok groups := by
  unfold read
  cases Toml.read? text >>= ofDatum? .ignored with
  | none => simp
  | some d => cases h : d.groups <;> simp [h]

theorem Makes.claims_aggregate {leads : GroupId → List Plain} {g : Group}
    (makes : Makes leads (.aggregate a) g) : g.claims k = true ↔
      ∃ p ∈ leads a.id, p.present = true ∧ ∃ raw ∈ p.keys, Key.ofRaw a.space raw = k := by
  have space : g.space = a.space := makes.space
  have answers : g.answers = distinct (keysOf leads a.id) := makes.answers
  have listed (raw : String) : raw ∈ keysOf leads a.id ↔
      ∃ p ∈ leads a.id, p.present = true ∧ raw ∈ p.keys := by
    simp only [keysOf, List.mem_flatMap, List.mem_filter, and_assoc]
  rw [Group.claims, makes.isPresent, space, answers]
  simp only [Declaration.isPresent, Bool.true_and, List.any_eq_true, mem_distinct, listed,
    decide_eq_true_eq]
  constructor
  · rintro ⟨raw, ⟨p, hp, present, own⟩, folded⟩
    exact ⟨p, hp, present, raw, own, folded⟩
  · rintro ⟨p, hp, present, raw, own, folded⟩
    exact ⟨raw, ⟨p, hp, present, own⟩, folded⟩

theorem Makes.claims_plain {leads : GroupId → List Plain} {g : Group}
    (makes : Makes leads (.plain p) g) : g.claims k = true ↔
      p.present = true ∧ ∃ raw ∈ p.keys, Key.ofRaw p.space raw = k := by
  have space : g.space = p.space := makes.space
  rw [Group.claims, makes.isPresent, space, makes.answers]
  by_cases there : p.present = true <;> simp [Declaration.isPresent, Declaration.keys, there]

section Accepted

variable (ok : d.groups = .ok groups)

include ok

theorem forall₂_makes : List.Forall₂ (Makes d.leaves) d.declarations groups := by
  obtain ⟨sound, rfl⟩ := groups_eq_ok.1 ok
  exact forall₂_made sound (leadsTo_eq_expand sound)

theorem nodup_ids : (groups.map Group.id).Nodup := by
  obtain ⟨sound, rfl⟩ := groups_eq_ok.1 ok
  rw [ids_made, ids_declarations]
  exact (sound_iff.1 sound).1

theorem harmless_of_accepted {σ : Type} (h : Handler σ) : ∀ g ∈ groups, g.Harmless h := by
  intro g hg w
  obtain ⟨c, makes⟩ := exists_declaration_of_makes (forall₂_makes ok) hg
  refine ⟨g.answers, ?_⟩
  rw [makes.enumerate]
  exact Proc.yields_pure_ok.2 ⟨rfl, rfl⟩

theorem exists_claiming (ha : a ∈ d.aggregates)
    (claimed : a.id ∈ (Build.outcome groups).snapshot.idsOf k) :
    ∃ g ∈ groups, Makes d.leaves (.aggregate a) g ∧ g.claims k = true := by
  obtain ⟨g, hg, makes⟩ := exists_group_of_makes (forall₂_makes ok)
    (aggregate_mem_declarations.2 ha)
  have named : g.id = a.id := makes.id
  exact ⟨g, hg, makes, Build.claims_of_mem (nodup_ids ok) hg (named ▸ claimed)⟩

theorem exists_supplies (ha : a ∈ d.aggregates)
    (claimed : a.id ∈ (Build.outcome groups).snapshot.idsOf k) : ∃ p, d.Supplies a k p := by
  obtain ⟨g, -, makes, claims⟩ := exists_claiming ok ha claimed
  obtain ⟨p, leads, present, raw⟩ := makes.claims_aggregate.1 claims
  obtain ⟨mem, reach⟩ := (mem_leaves (groups_eq_ok.1 ok).1).1 leads
  exact ⟨p, mem, present, reach, raw⟩

theorem Supplies.precedes (supplies : d.Supplies a k p) (ha : a ∈ d.aggregates)
    (same : p.space = a.space) (claimed : a.id ∈ (Build.outcome groups).snapshot.idsOf k) :
    Precedes ((Build.outcome groups).snapshot.idsOf k) p.id a.id := by
  obtain ⟨g, hg, makes, claims⟩ := exists_claiming ok ha claimed
  obtain ⟨g', hg', makes'⟩ := exists_group_of_makes (forall₂_makes ok)
    (plain_mem_declarations.2 supplies.mem)
  have claims' : g'.claims k = true :=
    makes'.claims_plain.2 ⟨supplies.present, same ▸ supplies.raw⟩
  have ordered := Build.precedes_order hg' hg makes'.isDerived makes.isDerived
  have stands := Build.precedes_outcome (nodup_ids ok) claims' claims ordered
  rwa [makes'.id, makes.id] at stands

theorem backed (ha : a ∈ d.aggregates)
    (claimed : a.id ∈ (Build.outcome groups).snapshot.idsOf k) :
    d.Backs (Build.outcome groups).snapshot a k where
  supplied := exists_supplies ok ha claimed
  behind _ supplies same := supplies.precedes ok ha same claimed
  foreign first _ supplies same := (supplies.precedes ok ha same claimed).head?_ne
    (Snapshot.nodup_idsOf (Build.wellFormed_outcome groups) k) first

end Accepted

structure Stands (d : Definitions) (groups : List Group) : Prop where
  builds : ∀ {σ : Type} (h : Handler σ) (w : σ), ∃ b w',
    (Build.ofGroups groups).run.Yields h w (.ok b) w'
  built : ∀ {σ : Type} (h : Handler σ) (w w' : σ) (b : Build),
    (Build.ofGroups groups).run.Yields h w (.ok b) w' →
      ∀ a ∈ d.aggregates, ∀ k, a.id ∈ b.snapshot.idsOf k → d.Backs b.snapshot a k
  committed : ∀ w purge report, ((World.step (.rebuild purge)).run w).1.committed? = some report →
    (Rebuild.start w.settings purge).listings (World.handle (World.play World.depth)) w = [groups] →
      ∀ a ∈ d.aggregates, ∀ k, a.id ∈ report.snapshot.idsOf k → d.Backs report.snapshot a k

/-- The claims of an aggregate to keys are those of the plain groups that it leads to, folded in its
own namespace. -/
theorem aggregates_backed :
    (∀ (d : Definitions) groups, d.groups = .ok groups → d.Stands groups) ∧
    ∀ text groups, read text = .ok groups →
      ∃ d, Toml.read? text >>= ofDatum? .ignored = some d ∧ d.Stands groups := by
  have accepted (d : Definitions) (groups : List Group) (ok : d.groups = .ok groups) :
      d.Stands groups := by
    refine ⟨fun h w => ⟨_, Build.exists_ofGroups (fun g hg _ => harmless_of_accepted ok h g hg) w⟩,
      fun h w w' b yields a ha k claimed => ?_,
      fun w purge report committed listed a ha k claimed => ?_⟩
    · rw [Build.eq_outcome yields] at claimed ⊢
      exact backed ok ha claimed
    · have built : report.snapshot = (Build.outcome groups).snapshot :=
        congrArg Build.snapshot (World.built_of_listed committed listed)
      rw [built] at claimed ⊢
      exact backed ok ha claimed
  refine ⟨accepted, fun text groups read => ?_⟩
  obtain ⟨d, parsed, ok⟩ := read_eq_ok.1 read
  exact ⟨d, parsed, accepted d groups ok⟩

def mixed : Definitions where
  plain := [⟨"core", 8, ["Mainpage", "Edit"], true⟩, ⟨"gone", 9, ["Mainpage"], false⟩,
    ⟨"foo", 9, ["edit"], true⟩]
  aggregates := [⟨"base", 8, ["foo", "core"]⟩, ⟨"all", 9, ["gone", "base"]⟩]

def mixedIndex : World where
  registry := [.fixed "core" 8 ["Mainpage", "Edit"] true, .fixed "gone" 9 [] false,
    .fixed "foo" 9 ["edit"] true,
    .aggregate "base" 8 [.fixed "foo" 9 ["edit"] true, .fixed "core" 8 ["Mainpage", "Edit"] true],
    .aggregate "all" 9 [.fixed "gone" 9 [] false, .aggregate "base" 8
      [.fixed "foo" 9 ["edit"] true, .fixed "core" 8 ["Mainpage", "Edit"] true]]]

theorem groups_mixed : mixed.groups = .ok mixedIndex.registry := rfl

theorem exists_mixed : ∃ report,
    ((World.step (.rebuild none)).run mixedIndex).1.committed? = some report ∧
    report.snapshot.idsOf ⟨"9:edit"⟩ = ["foo", "all"] ∧
    report.snapshot.idsOf ⟨"9:mainpage"⟩ = ["all"] := by
  have ran : ((World.step (.rebuild none)).run mixedIndex).1.committed?.map (fun report =>
      (report.snapshot.idsOf ⟨"9:edit"⟩, report.snapshot.idsOf ⟨"9:mainpage"⟩)) =
      some (["foo", "all"], ["all"]) := by decide +kernel
  obtain ⟨report, committed, ids⟩ := Option.map_eq_some_iff.1 ran
  exact ⟨report, committed, congrArg Prod.fst ids, congrArg Prod.snd ids⟩

theorem aggregates_backed_mixed : ∃ report,
    ((World.step (.rebuild none)).run mixedIndex).1.committed? = some report ∧
    Precedes (report.snapshot.idsOf ⟨"9:edit"⟩) "foo" "all" ∧
    report.snapshot.idsOf ⟨"9:mainpage"⟩ = ["all"] ∧
    ∃ p, mixed.Supplies ⟨"all", 9, ["gone", "base"]⟩ ⟨"9:mainpage"⟩ p ∧ p.space ≠ 9 := by
  obtain ⟨report, committed, edit, mainpage⟩ := exists_mixed
  have stands := aggregates_backed.1 mixed mixedIndex.registry groups_mixed
  have backs := stands.committed mixedIndex none report committed
    (World.listed_registry committed rfl) ⟨"all", 9, ["gone", "base"]⟩ (by decide)
  have behind := (backs ⟨"9:edit"⟩ (by rw [edit]; decide)).behind ⟨"foo", 9, ["edit"], true⟩
    ⟨by decide, rfl, ?_, "edit", by decide, by decide +kernel⟩ rfl
  · have alone := backs ⟨"9:mainpage"⟩ (by rw [mainpage]; decide)
    obtain ⟨p, supplies⟩ := alone.supplied
    exact ⟨report, committed, behind, mainpage, p, supplies,
      alone.foreign (by rw [mainpage]; rfl) p supplies⟩
  · have first : mixed.Lists "all" "base" :=
      ⟨⟨"all", 9, ["gone", "base"]⟩, by decide, rfl, by decide⟩
    have second : mixed.Lists "base" "foo" :=
      ⟨⟨"base", 8, ["foo", "core"]⟩, by decide, rfl, by decide⟩
    exact .head first (.single second)

/-- An aggregate alone claims a key where no plain group of its namespace has it. -/
theorem aggregate_alone : ∃ report,
    ((World.step (.rebuild none)).run mixedIndex).1.committed? = some report ∧
    mixed.groups = .ok mixedIndex.registry ∧
    ∃ a ∈ mixed.aggregates, (report.snapshot.idsOf ⟨"9:mainpage"⟩).head? = some a.id ∧
      ¬ ∃ p ∈ mixed.plain, p.id ∈ report.snapshot.idsOf ⟨"9:mainpage"⟩ := by
  obtain ⟨report, committed, -, mainpage⟩ := exists_mixed
  refine ⟨report, committed, groups_mixed, ⟨"all", 9, ["gone", "base"]⟩, by decide, ?_, ?_⟩
  · rw [mainpage]; rfl
  · rw [mainpage]; decide

end Definitions

end ClaimIndex
