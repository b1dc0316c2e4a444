import ClaimIndex.Proofs.Built
import ClaimIndex.Proofs.Phases

def ClaimIndex.Report.built (r : ClaimIndex.Report) : ClaimIndex.Build := ⟨r.snapshot, r.conflicts⟩

namespace ClaimIndex.Rebuild

open Proc (ask Yields yields_bind yields_ask yields_pure yields_bind_ok)

variable {σ : Type} {h : Handler σ} {s : Settings} {purge : Option Instant} {w w' : σ}
  {report : Report}

/-- The states that a rebuild which commits passes through. -/
inductive Course (h : Handler σ) (s : Settings) (purge : Option Instant) (w w' : σ)
    (report : Report) : Prop
  | intro {entered locked published released settled : σ} {asked taken left : Nat}
    {begun : Instant} {commit : Commit}
    (enter : (h .enter).run w = (true, entered))
    (run : Yields h (run s purge) entered (.ok report) settled)
    (lock : Yields h (lock s) entered (.ok (asked, taken, begun)) locked)
    (publish : Yields h publish.run locked (.ok commit) published)
    (unlock : Yields h unlock published left released)
    (settle : Yields h (settle s commit (purge.getD begun) asked taken left) released report
      settled)
    (leave : (h .leave).run settled = ((), w'))

theorem yields_taken {v : σ} {asked taken : Nat} {begun : Instant}
    (hy : Yields h (lock s) w (.ok (asked, taken, begun)) v) : ∃ waiting got entered dated,
      (h .uptime).run w = (asked, waiting) ∧ (h .acquire).run waiting = (.ok true, got) ∧
      (h .uptime).run got = (taken, entered) ∧ (h .now).run entered = (begun, dated) ∧
      (h .clearCache).run dated = ((), v) ∧ (lock s).calls h w = [(.uptime, w),
        (.acquire, waiting), (.uptime, got), (.now, entered), (.clearCache, dated)] := by
  obtain ⟨asked, waiting, hasked, hy⟩ := yields_bind.1 hy
  obtain ⟨granted, got, hgranted, hy⟩ := yields_bind.1 hy
  match granted with
  | .error fault => cases (yields_pure.1 hy).1
  | .ok false =>
    obtain ⟨_, _, _, hy⟩ := yields_bind.1 hy
    obtain ⟨_, _, _, hy⟩ := yields_bind.1 hy
    cases (yields_pure.1 hy).1
  | .ok true =>
    obtain ⟨taken, entered, htaken, hy⟩ := yields_bind.1 hy
    obtain ⟨begun, dated, hbegun, hy⟩ := yields_bind.1 hy
    obtain ⟨_, cleared, hcleared, hy⟩ := yields_bind.1 hy
    obtain ⟨same, rfl⟩ := yields_pure.1 hy
    cases same
    refine ⟨waiting, got, entered, dated, yields_ask.1 hasked, yields_ask.1 hgranted,
      yields_ask.1 htaken, yields_ask.1 hbegun, yields_ask.1 hcleared, ?_⟩
    rw [lock, hasked.calls_bind, hgranted.calls_bind]
    dsimp only
    rw [htaken.calls_bind, hbegun.calls_bind, hcleared.calls_bind]
    rfl

theorem yields_run (hy : Yields h (run s purge) w (.ok report) w') :
    ∃ asked taken begun commit left locked published released,
      Yields h (lock s) w (.ok (asked, taken, begun)) locked ∧
      Yields h publish.run locked (.ok commit) published ∧
      Yields h unlock published left released ∧
      Yields h (settle s commit (purge.getD begun) asked taken left) released report w' := by
  rw [run_eq] at hy
  obtain ⟨times, locked, lock, hy⟩ := yields_bind.1 hy
  match times with
  | .error fault => cases (yields_pure.1 hy).1
  | .ok (asked, taken, begun) =>
    obtain ⟨commit, published, publish, hy⟩ := yields_bind.1 hy
    cases commit with
    | error fault =>
      obtain ⟨_, _, _, hy⟩ := yields_bind.1 hy
      cases (yields_pure.1 hy).1
    | ok commit =>
      obtain ⟨left, released, unlock, hy⟩ := yields_bind.1 hy
      obtain ⟨report', settled, settle, hy⟩ := yields_bind.1 hy
      obtain ⟨hreport, rfl⟩ := yields_pure.1 hy
      cases hreport
      exact ⟨asked, taken, begun, commit, left, locked, published, released, lock, publish,
        unlock, settle⟩

theorem course_of_yields (hy : Yields h (start s purge) w (.ok report) w')
    (ran : report.skipped = false) : Course h s purge w w' report := by
  unfold start at hy
  obtain ⟨began, entered, enter, hy⟩ := yields_bind.1 hy
  cases began with
  | false =>
    obtain ⟨_, _, _, hy⟩ := yields_bind.1 hy
    obtain ⟨_, _, _, hy⟩ := yields_bind.1 hy
    obtain ⟨hreport, _⟩ := yields_pure.1 hy
    cases hreport
    cases ran
  | true =>
    rw [if_pos rfl] at hy
    obtain ⟨result, settled, hrun, hy⟩ := yields_bind.1 hy
    cases result with
    | error fault =>
      obtain ⟨_, _, _, hy⟩ := yields_bind.1 hy
      obtain ⟨_, _, _, hy⟩ := yields_bind.1 hy
      cases (yields_pure.1 hy).1
    | ok report' =>
      obtain ⟨_, _, leave, hy⟩ := yields_bind.1 hy
      obtain ⟨hreport, rfl⟩ := yields_pure.1 hy
      cases hreport
      obtain ⟨asked, taken, begun, commit, left, locked, published, released, lock, publish,
        unlock, settle⟩ := yields_run hrun
      exact ⟨yields_ask.1 enter, hrun, lock, publish, unlock, settle, yields_ask.1 leave⟩

theorem yields_publish {commit : Commit} (hy : Yields h publish.run w (.ok commit) w') :
    ∃ old groups read listed built, (h (.readStore true)).run w = (.ok old, read) ∧
      (h .groups).run read = (groups, listed) ∧
      Yields h (Build.ofGroups groups).run listed (.ok commit.build) built ∧
      (h (.writeStore commit.build.snapshot (old.changes commit.build.snapshot))).run built =
        (.ok (), w') ∧ commit.difference = old.diff commit.build.snapshot := by
  unfold publish at hy
  obtain ⟨old, read, hread, hy⟩ := yields_bind_ok.1 hy
  obtain ⟨groups, listed, hlist, hy⟩ := yields_bind_ok.1 hy
  obtain ⟨build, built, hbuild, hy⟩ := yields_bind_ok.1 hy
  obtain ⟨_, written, hwrite, hy⟩ := yields_bind_ok.1 hy
  obtain ⟨rfl, rfl⟩ := Proc.yields_pure_ok.1 hy
  exact ⟨old, groups, read, listed, built, yields_ask.1 hread, Proc.yields_lift.1 hlist, hbuild,
    yields_ask.1 hwrite, rfl⟩

theorem yields_settle {commit : Commit} {bound : Instant} {asked taken left : Nat}
    (hy : Yields h (settle s commit bound asked taken left) w report w') :
    ∃ outcome ended, Yields h (afterCommit s commit.difference bound) w outcome ended ∧
      report = commit.toReport bound asked taken left outcome ∧ ∃ first second,
        w' = ((h (.record second)).run ((h (.record first)).run ended).2).2 := by
  unfold settle at hy
  obtain ⟨outcome, ended, hafter, hy⟩ := yields_bind.1 hy
  obtain ⟨_, tallied, htally, hy⟩ := yields_bind.1 hy
  obtain ⟨_, measured, hmeasure, hy⟩ := yields_bind.1 hy
  obtain ⟨hreport, rfl⟩ := yields_pure.1 hy
  have tally : _ = tallied := congrArg Prod.snd (yields_ask.1 htally)
  have measure : _ = measured := congrArg Prod.snd (yields_ask.1 hmeasure)
  rw [← tally] at measure
  exact ⟨outcome, ended, hafter, hreport.symm, _, _, measure.symm⟩

theorem report_of_settle {commit : Commit} {bound : Instant} {asked taken left : Nat}
    (hy : Yields h (settle s commit bound asked taken left) w report w') :
    ∃ outcome, report = commit.toReport bound asked taken left outcome := by
  obtain ⟨outcome, _, -, reported, -⟩ := yields_settle hy
  exact ⟨outcome, reported⟩

theorem yields_conclude {result concluded : Except Fault Report}
    (hy : Yields h (conclude result) w concluded w') : concluded = result ∧
      w' = result.toOption.elim ((h (.record .failed)).run w).2 fun _ => w := by
  cases result with
  | error fault =>
    obtain ⟨_, failed, hfailed, hy⟩ := yields_bind.1 hy
    obtain ⟨rfl, rfl⟩ := yields_pure.1 hy
    exact ⟨rfl, (congrArg Prod.snd (yields_ask.1 hfailed)).symm⟩
  | ok report =>
    obtain ⟨rfl, rfl⟩ := yields_pure.1 hy
    exact ⟨rfl, rfl⟩

theorem ran_attempt (hy : Yields h (attempt s purge) w (.ok report) w') :
    report.skipped = false := by
  obtain ⟨result, ended, hrun, hy⟩ := yields_bind.1 hy
  obtain ⟨rfl, -⟩ := yields_conclude hy
  obtain ⟨_, _, _, _, _, _, _, _, -, -, -, settled⟩ := yields_run hrun
  obtain ⟨_, rfl⟩ := report_of_settle settled
  rfl

end ClaimIndex.Rebuild

namespace ClaimIndex

section Gather

variable {α β γ σ : Type} {h : Handler σ} {E : Effect → Prop} {w v : σ}
  {f : Effect → σ → List γ}

namespace Proc

def gather (f : Effect → σ → List γ) (h : Handler σ) (p : Proc α) (w : σ) : List γ :=
  (p.calls h w).flatMap fun c => f c.1 c.2

theorem gather_call {e : Effect} {next : e.Reply → Proc α} : (call e next).gather f h w =
    f e w ++ (next ((h e).run w).1).gather f h ((h e).run w).2 := rfl

theorem gather_bind {p : Proc α} {q : α → Proc β} : (p >>= q).gather f h w =
    p.gather f h w ++ (q ((p.run h).run w).1).gather f h ((p.run h).run w).2 := by
  rw [gather, calls_bind, List.flatMap_append]
  rfl

theorem Yields.gather_bind {p : Proc α} {q : α → Proc β} {a : α} (hp : Yields h p w a v) :
    (p >>= q).gather f h w = p.gather f h w ++ (q a).gather f h v := by
  rw [Proc.gather_bind, show (p.run h).run w = (a, v) from hp]

theorem Yields.gather_bindAttempt {x : Attempt α} {q : α → Attempt β} {a : α}
    (hx : Yields h x.run w (.ok a) v) :
    (x >>= q).run.gather f h w = x.run.gather f h w ++ (q a).run.gather f h v := by
  rw [ExceptT.run_bind, hx.gather_bind]

theorem Within.gather {p : Proc α} (hp : p.Within E) (hf : ∀ e, E e → ∀ v, f e v = []) :
    p.gather f h w = [] := by
  induction p generalizing w with
  | done a => rfl
  | call e next ih =>
    have rest := ih ((h e).run w).1 (hp.2 _) (w := ((h e).run w).2)
    unfold Proc.gather at rest ⊢
    rw [calls, List.flatMap_cons, rest, hf e hp.1, List.append_nil]

theorem Within.forall_gather {p : Proc α} {I : σ → Prop} {P : γ → Prop} (hp : p.Within E)
    (hI : ∀ e, E e → ∀ v, I v → I ((h e).run v).2)
    (hf : ∀ e, E e → ∀ v, I v → ∀ c ∈ f e v, P c) (hw : I w) : ∀ c ∈ p.gather f h w, P c := by
  induction p generalizing w with
  | done a => exact fun c hc => (List.not_mem_nil hc).elim
  | call e next ih =>
    intro c hc
    obtain hc | hc := List.mem_append.1 hc
    · exact hf e hp.1 w hw c hc
    · exact ih _ (hp.2 _) (hI e hp.1 w hw) c hc

def listings (h : Handler σ) (p : Proc α) (w : σ) : List (List Group) :=
  p.gather (fun e v => match e with
    | .groups => [((h .groups).run v).1]
    | _ => []) h w

end Proc

namespace Rebuild

open Proc (Yields ask)

def Opening (e : Effect) : Prop := Aside e ∨ e = .enter ∨ e = .readStore true

theorem writes_publish {old : Snapshot} {groups : List Group} {build : Build}
    {read listed built : σ} (hread : (h (.readStore true)).run w = (.ok old, read))
    (hlist : (h .groups).run read = (groups, listed))
    (hbuild : Yields h (Build.ofGroups groups).run listed (.ok build) built) :
    (.writeStore build.snapshot (old.changes build.snapshot), built) ∈ publish.run.calls h w := by
  have reading : Yields h (ExceptT.mk (ask (.readStore true)) : Attempt Snapshot).run w
      (.ok old) read := Proc.yields_ask.2 hread
  unfold publish
  refine Proc.mem_calls_bind.2 (.inr ⟨_, _, reading, Proc.mem_calls_bind.2 (.inr
    ⟨_, _, Proc.yields_lift.2 hlist, Proc.mem_calls_bind.2 (.inr ⟨_, _, hbuild, .head _⟩)⟩)⟩)

theorem calls_start {s : Settings} {purge : Option Instant} {asked taken : Nat} {begun : Instant}
    {entered locked : σ} {c : Effect × σ} (enter : (h .enter).run w = (true, entered))
    (hlock : Yields h (lock s) entered (.ok (asked, taken, begun)) locked)
    (hc : c ∈ publish.run.calls h locked) : c ∈ (start s purge).calls h w := by
  rw [start_eq]
  refine Proc.mem_calls_bind.2 (.inr ⟨true, _, Proc.yields_ask.2 enter, ?_⟩)
  rw [if_pos rfl, attempt, run_eq]
  exact Proc.mem_calls_bind.2 (.inl (Proc.mem_calls_bind.2 (.inl (Proc.mem_calls_bind.2
    (.inr ⟨_, _, hlock, Proc.mem_calls_bind.2 (.inl hc)⟩)))))

def FromGroups (f : Effect → σ → List γ) : Prop :=
  ∀ e, e ≠ .groups → (∀ group actions, e ≠ .perform group actions) → ∀ v, f e v = []

theorem gather_aside (hf : FromGroups f) {p : Proc α} (hp : p.Within Aside) :
    p.gather f h w = [] := by
  refine hp.gather fun e he => hf e ?_ ?_
  · rintro rfl
    simp [Aside, Guarding] at he
  · rintro group actions rfl
    simp [Aside, Guarding] at he

theorem gather_publish (hf : FromGroups f) {old : Snapshot} {groups : List Group}
    {build : Build} {read listed built w' : σ}
    (hread : (h (.readStore true)).run w = (.ok old, read))
    (hlist : (h .groups).run read = (groups, listed))
    (hbuild : Yields h (Build.ofGroups groups).run listed (.ok build) built)
    (hwrite : (h (.writeStore build.snapshot (old.changes build.snapshot))).run built =
      (.ok (), w')) :
    publish.run.gather f h w = f .groups read ++ (Build.ofGroups groups).run.gather f h listed := by
  have reading : Yields h (ExceptT.mk (ask (.readStore true)) : Attempt Snapshot).run w
      (.ok old) read := Proc.yields_ask.2 hread
  have writing : Yields h (ExceptT.mk (ask (.writeStore build.snapshot
      (old.diff build.snapshot).changes)) : Attempt Unit).run built (.ok ()) w' :=
    Proc.yields_ask.2 hwrite
  rw [publish, reading.gather_bindAttempt,
    (Proc.yields_lift.2 hlist).gather_bindAttempt, hbuild.gather_bindAttempt]
  dsimp only
  rw [writing.gather_bindAttempt]
  change (f (.readStore true) w ++ []) ++ ((f .groups read ++ []) ++ (_ ++
    ((f (.writeStore _ _) built ++ []) ++ []))) = _
  rw [hf (.readStore true) (by simp) (by simp), hf (.writeStore _ _) (by simp) (by simp)]
  simp

theorem gather_start (hf : FromGroups f) {s : Settings} {purge : Option Instant}
    {asked taken left : Nat} {begun : Instant} {commit : Commit}
    {entered locked published released settled : σ} {report : Report}
    (enter : (h .enter).run w = (true, entered))
    (hrun : Yields h (run s purge) entered (.ok report) settled)
    (hlock : Yields h (lock s) entered (.ok (asked, taken, begun)) locked)
    (hpublish : Yields h publish.run locked (.ok commit) published)
    (hunlock : Yields h unlock published left released) :
    (start s purge).gather f h w = publish.run.gather f h locked := by
  have entering : (ask .enter).gather f h w = [] := by
    change f .enter w ++ [] = []
    rw [hf .enter nofun nofun, List.append_nil]
  have leaving : (do ask .leave; return .ok report : Proc (Except Fault Report)).gather f h
      settled = [] := by
    change f .leave settled ++ [] = []
    rw [hf .leave nofun nofun, List.append_nil]
  rw [start, (Proc.yields_ask.2 enter).gather_bind, if_pos rfl, hrun.gather_bind, run_eq,
    hlock.gather_bind, gather_aside hf (within_lock.mono fun _ => .inl), proceed,
    hpublish.gather_bind, entering]
  change [] ++ ([] ++ (_ ++ (unlock >>= fun left => Except.ok <$> settle s commit
    (purge.getD begun) asked taken left : Proc (Except Fault Report)).gather f h published) ++
      (do ask .leave; return .ok report : Proc (Except Fault Report)).gather f h settled) = _
  rw [hunlock.gather_bind, gather_aside hf (within_unlock.mono fun _ => .inl),
    gather_aside hf (.map _ within_settle), leaving]
  simp

theorem mem_gather_publish (hf : FromGroups f) {c : γ} {I : σ → Prop}
    (hI : ∀ e, Opening e → ∀ v, I v → I ((h e).run v).2) (hw : I w)
    (hc : c ∈ publish.run.gather f h w) : ∃ v, I v ∧ (c ∈ f .groups v ∨
      c ∈ (Build.ofGroups ((h .groups).run v).1).run.gather f h ((h .groups).run v).2) := by
  have reading : (ExceptT.mk (ask (.readStore true)) : Attempt Snapshot).run =
      ask (.readStore true) := rfl
  rw [publish, ExceptT.run_bind, Proc.gather_bind, reading, Proc.run_ask] at hc
  obtain hc | hc := List.mem_append.1 hc
  · refine absurd (show c ∈ f (.readStore true) w ++ [] from hc) ?_
    simp [hf (.readStore true)]
  refine ⟨((h (.readStore true)).run w).2, hI _ (.inr (.inr rfl)) w hw, ?_⟩
  generalize ((h (.readStore true)).run w).2 = read at hc
  cases found : ((h (.readStore true)).run w).1 with
  | error fault =>
    rw [found] at hc
    exact (List.not_mem_nil hc).elim
  | ok old =>
    rw [found] at hc
    obtain hc | hc := List.mem_append.1 (show c ∈ f .groups read ++ _ from hc)
    · exact .inl hc
    · right
      change c ∈ Proc.gather f h (Build.ofGroups ((h .groups).run read).1 >>= _ :
        Attempt Commit).run ((h .groups).run read).2 at hc
      rw [ExceptT.run_bind, Proc.gather_bind] at hc
      refine (List.mem_append.1 hc).resolve_right fun hc => ?_
      rw [Proc.Within.gather (E := fun e => ∃ s c, e = .writeStore s c)] at hc
      · exact List.not_mem_nil hc
      · split
        · exact Proc.within_bindAttempt (.ask ⟨_, _, rfl⟩) fun _ => .pure
        · exact .pure
      · rintro _ ⟨s, c, rfl⟩ v
        exact hf (.writeStore s c) (by simp) (by simp) v

theorem mem_gather_attempt (hf : FromGroups f) {s : Settings} {purge : Option Instant} {c : γ}
    {I : σ → Prop} (hI : ∀ e, Opening e → ∀ v, I v → I ((h e).run v).2) (hw : I w)
    (hc : c ∈ (attempt s purge).gather f h w) : ∃ v, I v ∧ (c ∈ f .groups v ∨
      c ∈ (Build.ofGroups ((h .groups).run v).1).run.gather f h ((h .groups).run v).2) := by
  have aside {α : Type} {p : Proc α} {v : σ} (hp : p.Within Aside) : c ∉ p.gather f h v := by
    rw [gather_aside hf hp]
    exact List.not_mem_nil
  have opened : I (((lock s).run h).run w).2 :=
    within_lock.keeps (fun e he => hI e (.inl (.inl he))) hw
  rw [attempt, Proc.gather_bind, run_eq, Proc.gather_bind] at hc
  obtain hc | hc := List.mem_append.1 hc
  swap
  · exact absurd hc (aside ((within_conclude _).mono fun _ => .inl))
  obtain hc | hc := List.mem_append.1 hc
  · exact absurd hc (aside (within_lock.mono fun _ => .inl))
  generalize (((lock s).run h).run w).2 = locked at hc opened
  match (((lock s).run h).run w).1, hc with
  | .error fault, hc => exact absurd hc (aside .pure)
  | .ok (asked, entered, begun), hc =>
    rw [proceed, Proc.gather_bind] at hc
    obtain hc | hc := List.mem_append.1 hc
    · exact mem_gather_publish hf hI opened hc
    · refine absurd hc (aside ?_)
      cases ((publish.run.run h).run locked).1 with
      | error fault => exact .bind (within_abandon.mono fun _ => .inl) fun _ => .pure
      | ok commit =>
        exact .bind (within_unlock.mono fun _ => .inl) fun _ => .bind within_settle fun _ => .pure

theorem Course.builds {s : Settings} {purge : Option Instant} {w' : σ} {report : Report}
    (hc : Course h s purge w w' report) {I : σ → Prop}
    (hI : ∀ e, Opening e → ∀ v, I v → I ((h e).run v).2) (hw : I w) :
    ∃ v, I v ∧ (start s purge).listings h w = [((h .groups).run v).1] ∧
      report.built = Build.outcome ((h .groups).run v).1 := by
  obtain ⟨henter, hrun, hlock, hpublish, hunlock, hsettle, hleave⟩ := hc
  rename_i entered locked published released settled asked taken left begun commit
  obtain ⟨old, groups, read, listed, built, hread, hlist, hbuild, hwrite, -⟩ :=
    yields_publish hpublish
  have kept : I read := by
    have started := hI .enter (.inr (.inl rfl)) w hw
    rw [henter] at started
    have opened := within_lock.keeps_yields (fun e he => hI e (.inl (.inl he))) hlock started
    have reading := hI (.readStore true) (.inr (.inr rfl)) locked opened
    rwa [hread] at reading
  refine ⟨read, kept, ?_, ?_⟩
  · have building : (Build.ofGroups groups).run.listings h listed = [] :=
      (Build.within_ofGroups (A := fun _ => True) fun _ _ _ _ => trivial).gather fun e he v => by
        cases e with
        | perform | report => rfl
        | _ => exact he.elim
    have only : FromGroups fun (e : Effect) (v : σ) => match e with
        | .groups => [((h .groups).run v).1]
        | _ => [] := fun e he _ v => by
      cases e with
      | groups => exact absurd rfl he
      | _ => rfl
    unfold Proc.listings at building ⊢
    rw [gather_start only henter hrun hlock hpublish hunlock,
      gather_publish only hread hlist hbuild hwrite, building]
    rfl
  · obtain ⟨_, rfl⟩ := report_of_settle hsettle
    rw [hlist]
    exact Build.eq_outcome hbuild

theorem Course.listings {s : Settings} {purge : Option Instant} {w' : σ} {report : Report}
    (hc : Course h s purge w w' report) {I : σ → Prop}
    (hI : ∀ e, Opening e → ∀ v, I v → I ((h e).run v).2) (hw : I w) :
    ∃ v, I v ∧ (start s purge).listings h w = [((h .groups).run v).1] ∧
      report.snapshot = (Build.outcome ((h .groups).run v).1).snapshot := by
  obtain ⟨v, kept, listed, built⟩ := hc.builds hI hw
  exact ⟨v, kept, listed, congrArg Build.snapshot built⟩

end Rebuild

end Gather

def Answer.committed? : Answer → Option Report
  | .report (.ok r) => if r.skipped then none else some r
  | _ => none

namespace World

open Proc (ask)

theorem gather_start_idle {γ : Type} {f : Effect → World → List γ} {player : Player} {w : World}
    (bounds : ∀ v, f .enter v = [] ∧ f .leave v = []) (hw : w.running = false) (s : Settings)
    (purge : Option Instant) : (Rebuild.start s purge).gather f (handle player) w =
      (Rebuild.attempt s purge).gather f (handle player) { w with running := true } := by
  have entering : (Proc.ask .enter).Yields (handle player) w true { w with running := true } := by
    cases w
    cases hw
    rfl
  have entered : (Proc.ask .enter).gather f (handle player) w = [] :=
    (List.append_nil _).trans (bounds w).1
  have leaving (result : Except Fault Report) (v : World) :
      (do ask .leave; return result : Proc (Except Fault Report)).gather f (handle player) v = [] :=
    (List.append_nil _).trans (bounds v).2
  rw [Rebuild.start_eq, entering.gather_bind, entered, if_pos rfl, Proc.gather_bind, leaving,
    List.nil_append, List.append_nil]

theorem course_of_committed {w : World} {purge : Option Instant} {report : Report}
    (h : ((step (.rebuild purge)).run w).1.committed? = some report) :
    Rebuild.Course (handle (play depth)) w.settings purge w ((step (.rebuild purge)).run w).2
      report := by
  let result := ((Rebuild.start w.settings purge).run (handle (play depth))).run w
  change (Answer.report result.1).committed? = some report at h
  unfold Answer.committed? at h
  split at h
  · rename_i answer
    split at h
    · cases h
    · rename_i found ran
      obtain rfl := Option.some.inj h
      refine Rebuild.course_of_yields ?_ (by simpa using ran)
      exact Prod.ext (Answer.report.inj answer) rfl
  · cases h

end World

end ClaimIndex
