import ClaimIndex.Proofs.Course
import ClaimIndex.Proofs.Undisturbed

/-! What happens in a run, moment by moment: which operations begin, however deep they are nested,
and which requests get through to their collaborators, each with the world that it meets. -/

namespace ClaimIndex

inductive Mark
  | begins (depth : Nat) (op : Operation) (w : World)
  | asks (e : Effect) (w : World)

def Mark.world : Mark → World
  | begins _ _ w | asks _ w => w

namespace World

abbrev Recorder := String → List Operation → World → List Mark

def met (player : Player) (e : Effect) (w : World) : World :=
  match e.outage? with
  | none => w
  | some (point, _) => ((runHook player (.before point)).run w).2

def works (e : Effect) (w : World) : Bool :=
  match e.outage? with
  | none => true
  | some (point, _) => point ∉ w.failing

def hookMarks (record : Recorder) (moment : Moment) (w : World) : List Mark :=
  match w.hooks.find? (·.1 = moment) with
  | none => []
  | some (_, operations) =>
    record moment.name operations { w with hooks := w.hooks.eraseP (·.1 = moment) }

def beforeMarks (record : Recorder) (e : Effect) (w : World) : List Mark :=
  match e.outage? with
  | none => []
  | some (point, _) => hookMarks record (.before point) w

def throughMarks (player : Player) (record : Recorder) (e : Effect) (w : World) : List Mark :=
  match e.outage? with
  | none =>
    match e with
    | .perform group actions => record ("group " ++ group) actions w
    | _ => []
  | some (point, _) => hookMarks record (.after point) ((reply player e).run w).2

def callMarks (player : Player) (record : Recorder) (e : Effect) (w : World) : List Mark :=
  let v := met player e w
  beforeMarks record e w ++ if works e v then .asks e v :: throughMarks player record e v else []

def along (f : Operation → World → List Mark) (next : Operation → World → World) :
    List Operation → World → List Mark
  | [], _ => []
  | op :: ops, w => f op w ++ along f next ops (next op w)

end World

def Operation.calls (n : Nat) (op : Operation) (w : World) : List (Effect × World) :=
  (op.body? w).elim [] fun p => p.calls (World.handle (World.play n)) w

namespace World

def ownMarks (n : Nat) (record : Recorder) (op : Operation) (w : World) : List Mark :=
  (op.calls n w).flatMap fun c => callMarks (play n) record c.1 c.2

def beginMarks (n : Nat) (record : Recorder) (op : Operation) (w : World) : List Mark :=
  .begins n op w :: ownMarks n record op w

def after (n : Nat) (op : Operation) (w : World) : World :=
  ((op.perform (handle (play n))).run w).2

def opMarks (n : Nat) (record : Recorder) (op : Operation) (w : World) : List Mark :=
  match op with
  | .executeAll => .begins n .executeAll w ::
    along (beginMarks n record) (after n) (w.queue.tasks.map .execute) (Motion.drain.apply w)
  | op => beginMarks n record op w

def record : Nat → Recorder
  | 0, _, _, _ => []
  | n + 1, label, ops, w =>
    along (opMarks n (record n)) (next (handle (play n)) label) ops w

def marks (n : Nat) : Operation → World → List Mark := opMarks n (record n)

def transcript : List Operation → World → List Mark := along (marks depth) (after depth)

end World

def World.Motion.Direct : World.Motion → Prop
  | reply e => e = .acquire ∨ e = .release
  | _ => True

theorem World.Motion.Direct.ordinary {m : World.Motion} (direct : m.Direct) : m.Ordinary := by
  cases m with
  | reply e =>
    obtain rfl | rfl := direct
    · exact .inl trivial
    · exact .inl trivial
  | _ => trivial

def Mark.next : Mark → World
  | begins _ _ w => w
  | asks e w => ((World.reply World.idle e).run w).2

inductive Narrates : World → List Mark → World → Prop
  | done (w : World) : Narrates w [] w
  | moves {w v : World} {marks : List Mark} {m : World.Motion} (direct : m.Direct)
    (rest : Narrates (m.apply w) marks v) : Narrates w marks v
  | begins {w v : World} {marks : List Mark} {n : Nat} {op : Operation}
    (rest : Narrates w marks v) : Narrates w (.begins n op w :: marks) v
  | asks {w v : World} {marks : List Mark} {e : Effect}
    (rest : Narrates ((World.reply World.idle e).run w).2 marks v) :
    Narrates w (.asks e w :: marks) v

namespace Narrates

open World (Motion)

variable {w v u : World} {front back marks : List Mark} {m : Mark}

theorem append (h : Narrates w front v) (h' : Narrates v back u) :
    Narrates w (front ++ back) u := by
  induction h with
  | done => exact h'
  | moves direct _ ih => exact .moves direct (ih h')
  | begins _ ih => exact .begins (ih h')
  | asks _ ih => exact .asks (ih h')

theorem split (h : Narrates w (front ++ m :: back) v) :
    Narrates w front m.world ∧ Narrates m.next back v := by
  generalize whole : front ++ m :: back = marks at h
  induction h generalizing front with
  | done => simp at whole
  | moves direct _ ih =>
    obtain ⟨first, second⟩ := ih whole
    exact ⟨.moves direct first, second⟩
  | begins rest ih =>
    cases front with
    | nil =>
      obtain ⟨rfl, rfl⟩ := List.cons.inj whole
      exact ⟨.done _, rest⟩
    | cons first front =>
      obtain ⟨rfl, rfl⟩ := List.cons.inj whole
      exact ⟨.begins (ih rfl).1, (ih rfl).2⟩
  | asks rest ih =>
    cases front with
    | nil =>
      obtain ⟨rfl, rfl⟩ := List.cons.inj whole
      exact ⟨.done _, rest⟩
    | cons first front =>
      obtain ⟨rfl, rfl⟩ := List.cons.inj whole
      exact ⟨.asks (ih rfl).1, (ih rfl).2⟩

theorem keeps {I : World → Prop} (direct : ∀ m w, Motion.Direct m → I w → I (m.apply w))
    (asks : ∀ e u, .asks e u ∈ marks → I u → I ((World.reply World.idle e).run u).2)
    (h : Narrates w marks v) (hw : I w) : I v := by
  induction h with
  | done => exact hw
  | moves changed _ ih => exact ih asks (direct _ _ changed hw)
  | begins _ ih => exact ih (fun e u hu => asks e u (.tail _ hu)) hw
  | asks _ ih => exact ih (fun e u hu => asks e u (.tail _ hu)) (asks _ _ (.head _) hw)

end Narrates

namespace Operation

theorem perform_direct {op : Operation} {w : World} (hb : op.body? w = none)
    (single : op ≠ .executeAll) (h : Handler World) :
    ((op.perform h).run w).2 = (op.motion? w).elim w (·.apply w) := by
  cases op with
  | executeAll => exact absurd rfl single
  | rebuild | rebuildSnapshot | lookup | primary | lookupKey | store | storeFor | overlay | snapshot
  | keys | execute | clearCache => cases hb
  | _ => rfl

theorem direct_motion {op : Operation} {w : World} {m : World.Motion}
    (hm : op.motion? w = some m) : m.Direct := by
  cases op with
  | acquire => cases hm; exact .inl rfl
  | release => cases hm; exact .inr rfl
  | _ => first | exact (Option.some_ne_none _ hm.symm).elim | (cases hm; trivial)

end Operation

namespace World

variable {n : Nat} {w v : World}

theorem play_eq_foldl (n : Nat) (label : String) (ops : List Operation) (w : World) :
    ((play (n + 1) label ops).run w).2 =
      ops.foldl (fun w op => next (handle (play n)) label op w) w := by
  induction ops generalizing w with
  | nil => rfl
  | cons op ops ih => exact (congrArg Prod.snd (play_cons n label op ops w)).trans (ih _)

theorem steps_eq_foldl (ops : List Operation) (w : World) :
    ((steps ops).run w).2 = ops.foldl (fun w op => after depth op w) w := by
  induction ops generalizing w with
  | nil => rfl
  | cons op ops ih => exact ih _

/-- A relation between a world, what happens from there on and the world that this leads to.  A
whole run has it if its parts do. -/
structure Composes (R : World → List Mark → World → Prop) : Prop where
  done (w : World) : R w [] w
  append {w v u : World} {front back : List Mark} (h : R w front v) (h' : R v back u) :
    R w (front ++ back) u
  direct {m : Motion} (direct : m.Direct) (w : World) : R w [] (m.apply w)

namespace Composes

variable {R : World → List Mark → World → Prop} {op : Operation} (composes : Composes R)

include composes

theorem moved {m : Motion} {marks : List Mark} (h : R w marks v) (direct : m.Direct) :
    R w marks (m.apply v) := by
  have after : R w (marks ++ []) (m.apply v) := composes.append h (composes.direct direct v)
  rwa [List.append_nil] at after

theorem along {f : Operation → World → List Mark} {next : Operation → World → World}
    {ops : List Operation} (told : ∀ op ∈ ops, ∀ w, R w (f op w) (next op w)) (w : World) :
    R w (along f next ops w) (ops.foldl (fun w op => next op w) w) := by
  induction ops generalizing w with
  | nil => exact composes.done w
  | cons op ops ih =>
    exact composes.append (told op (.head _) w) (ih (fun op h => told op (.tail _ h)) _)

section

variable {player : Player} {record : Recorder}
  (told : ∀ label ops w, R w (record label ops w) ((player label ops).run w).2)

include told

variable (player) in
theorem hooked (moment : Moment) (w : World) :
    R w (hookMarks record moment w) ((runHook player moment).run w).2 := by
  rw [runHook_run]
  unfold hookMarks
  cases w.hooks.find? (·.1 = moment) with
  | none => exact composes.done w
  | some waiting =>
    exact composes.append (composes.direct (m := .hooks _) trivial w) (told _ _ _)

theorem called {e : Effect} (asks : ∀ w, R w [.asks e w] ((reply idle e).run w).2) (w : World) :
    R w (callMarks player record e w) ((handle player e).run w).2 := by
  unfold callMarks met works beforeMarks throughMarks
  cases call_handle player e w with
  | sure safe replied =>
    rw [replied, safe]
    cases e with
    | perform group actions =>
      have performed := composes.append (asks w) (told ("group " ++ group) actions w)
      exact performed
    | _ => exact asks w
  | @down point r v risky before fails failed =>
    rw [failed, risky]
    dsimp only
    rw [← before, if_neg (by simpa using fails), List.append_nil, before]
    exact composes.hooked player told _ _
  | @up point r v risky before works replied =>
    rw [replied, risky]
    dsimp only
    rw [← before, if_pos (by simpa using works)]
    have same : reply player e = reply idle e := reply_eq_idle fun group actions h => by
      subst h
      cases risky
    have first := composes.hooked player told (.before point) w
    rw [← before] at first
    refine composes.append first (composes.append (asks v) ?_)
    rw [← same]
    exact composes.hooked player told _ _

theorem gathered {α : Type} (p : Proc α) (w : World)
    (asks : ∀ c ∈ p.calls (handle player) w, ∀ v, R v [.asks c.1 v] ((reply idle c.1).run v).2) :
    R w (p.gather (callMarks player record) (handle player) w)
      ((p.run (handle player)).run w).2 := by
  induction p generalizing w with
  | done a => exact composes.done w
  | call e next ih =>
    rw [Proc.gather_call]
    exact composes.append (composes.called told (asks _ (.head _)) w)
      (ih _ _ fun c hc => asks c (.tail _ hc))

end

theorem owned {record : Recorder}
    (told : ∀ label ops w, R w (record label ops w) ((play n label ops).run w).2)
    (single : op ≠ .executeAll) (w : World)
    (asks : ∀ c ∈ op.calls n w, ∀ v, R v [.asks c.1 v] ((reply idle c.1).run v).2) :
    R w (ownMarks n record op w) (after n op w) := by
  unfold ownMarks after
  unfold Operation.calls at asks ⊢
  cases hb : op.body? w with
  | none =>
    rw [Operation.perform_direct hb single]
    cases hm : op.motion? w with
    | none => exact composes.done w
    | some m => exact composes.direct (Operation.direct_motion hm) w
  | some p =>
    rw [hb] at asks
    rw [Operation.perform_body hb]
    exact composes.gathered told p w asks

section

variable {record : Recorder}
  (begun : ∀ op ≠ .executeAll, ∀ w, R w (beginMarks n record op w) (after n op w))
  (executed : ∀ w, after n .executeAll w = (w.queue.tasks.map Operation.execute).foldl
    (fun w op => after n op w) (Motion.drain.apply w))

include begun executed

theorem drained (w : World) : R (Motion.drain.apply w)
    (World.along (beginMarks n record) (after n) (w.queue.tasks.map .execute)
      (Motion.drain.apply w))
    (after n .executeAll w) := by
  rw [executed]
  refine composes.along (fun op hop w => ?_) _
  obtain ⟨task, -, rfl⟩ := List.mem_map.1 hop
  exact begun _ (by simp) w

theorem performed (round : ∀ w, R w [.begins n .executeAll w] w) (op : Operation) (w : World) :
    R w (opMarks n record op w) (after n op w) := by
  unfold opMarks
  split
  · refine composes.append (round w) ?_
    exact composes.append (composes.direct (m := .drain) trivial w)
      (composes.drained begun executed w)
  · exact begun _ ‹_› w

end

/-- The depth counts how far operations can nest: what is recorded at each is told if operations
at that depth are, with what nests in them. -/
theorem recorded (step : ∀ n,
      (∀ label ops w, R w (record n label ops w) ((play n label ops).run w).2) →
        ∀ op w, R w (opMarks n (record n) op w) (after n op w))
    (n : Nat) (label : String) (ops : List Operation) (w : World) :
    R w (record n label ops w) ((play n label ops).run w).2 := by
  induction n generalizing label ops w with
  | zero => exact composes.done w
  | succ n ih =>
    rw [play_eq_foldl]
    refine composes.along (fun op _ w => ?_) w
    exact composes.moved (m := .note label _) (step n ih op w) trivial

theorem transcribed (told : ∀ op w, R w (marks depth op w) (after depth op w))
    (ops : List Operation) (w : World) : R w (transcript ops w) ((steps ops).run w).2 := by
  rw [steps_eq_foldl]
  exact composes.along (fun op _ => told op) w

end Composes

theorem composes_narrates : Composes Narrates where
  done := .done
  append := .append
  direct direct _ := .moves direct (.done _)

theorem settings_narrated {marks : List Mark} (h : Narrates w marks v) :
    v.settings = w.settings :=
  h.keeps (I := fun u => u.settings = w.settings)
    (fun m u _ same => (motion_frame m u).1.trans same)
    (fun e u _ same => (motion_frame (.reply e) u).1.trans same) rfl

def Player.Told (player : Player) (record : Recorder) : Prop :=
  ∀ label ops w, Narrates w (record label ops w) ((player label ops).run w).2

section

variable {record : Recorder} (told : (play n).Told record)

include told

theorem narrates_begin {op : Operation} (single : op ≠ .executeAll) (w : World) :
    Narrates w (beginMarks n record op w) (after n op w) :=
  .begins (composes_narrates.owned told single w fun _ _ _ => .asks (.done _))

theorem after_executeAll (w : World) : after n .executeAll w =
    (w.queue.tasks.map Operation.execute).foldl (fun w op => after n op w)
      (Motion.drain.apply w) := by
  have executed (tasks : List Task) (v : World) :
      ((Operation.executeTasks (handle (play n)) v.settings tasks).run v).2 =
        (tasks.map Operation.execute).foldl (fun w op => after n op w) v := by
    induction tasks generalizing v with
    | nil => rfl
    | cons t ts ih =>
      have begun : Narrates v (beginMarks n record (.execute t) v) (after n (.execute t) v) :=
        narrates_begin told (by simp) v
      have same := settings_narrated begun
      have first : (((t.execute v.settings).run (handle (play n))).run v).2 =
          after n (.execute t) v := by
        unfold after
        rw [Operation.perform_body rfl, map_eq_pure_bind, Proc.run_bind]
        rfl
      rw [List.map_cons, List.foldl_cons, ← ih, same, ← first]
      rfl
  exact executed w.queue.tasks (Motion.drain.apply w)

theorem narrates_tasks (w : World) : Narrates (Motion.drain.apply w)
    (along (beginMarks n record) (after n) (w.queue.tasks.map .execute) (Motion.drain.apply w))
    (after n .executeAll w) :=
  composes_narrates.drained (fun _ => narrates_begin told) (after_executeAll told) w

theorem narrates_op (op : Operation) (w : World) :
    Narrates w (opMarks n record op w) (after n op w) :=
  composes_narrates.performed (fun _ => narrates_begin told) (after_executeAll told)
    (fun _ => .begins (.done _)) op w

end

theorem told_play (n : Nat) : (play n).Told (record n) :=
  composes_narrates.recorded (fun _ => narrates_op) n

theorem narrates_marks (n : Nat) (op : Operation) (w : World) :
    Narrates w (marks n op w) (after n op w) :=
  narrates_op (told_play n) op w

theorem narrates_own {op : Operation} (single : op ≠ .executeAll) (w : World) :
    Narrates w (ownMarks n (record n) op w) (after n op w) :=
  composes_narrates.owned (told_play n) single w fun _ _ _ => .asks (.done _)

theorem narrates_steps (ops : List Operation) (w : World) :
    Narrates w (transcript ops w) ((steps ops).run w).2 :=
  composes_narrates.transcribed (narrates_marks depth) ops w

section

variable {player : Player} {e : Effect}

theorem answer_of_works (through : works e (met player e w) = true) :
    ((handle player e).run w).1 = ((reply player e).run (met player e w)).1 := by
  unfold works met at *
  cases call_handle player e w with
  | sure safe replied =>
    rw [replied, safe]
  | down risky before fails failed =>
    rw [risky] at through
    subst before
    simp [fails] at through
  | up risky before works replied =>
    rw [replied, risky]
    dsimp only
    rw [← before]

theorem works_of_answer {point : Point} {down : e.Reply} (risky : e.outage? = some (point, down))
    (answer : ((handle player e).run w).1 ≠ down) : works e (met player e w) = true := by
  unfold works met
  rw [risky]
  cases call_handle player e w with
  | sure safe replied => cases risky.symm.trans safe
  | down risky' before fails failed =>
    cases Option.some.inj (risky.symm.trans risky')
    exact absurd (congrArg Prod.fst failed) answer
  | up risky' before works replied =>
    cases Option.some.inj (risky.symm.trans risky')
    rw [before] at works
    simpa using works

theorem asks_of_works {op : Operation} {u : World} (there : (e, u) ∈ op.calls n w)
    (through : works e (met (play n) e u) = true) :
    .asks e (met (play n) e u) ∈ ownMarks n (record n) op w := by
  refine List.mem_flatMap.2 ⟨_, there, List.mem_append_right _ ?_⟩
  rw [if_pos through]
  exact .head _

end

theorem transcript_concat (ops : List Operation) (op : Operation) (w : World) :
    transcript (ops ++ [op]) w =
      transcript ops w ++ marks depth op ((steps ops).run w).2 := by
  rw [steps_eq_foldl]
  induction ops generalizing w with
  | nil => exact List.append_nil _
  | cons first ops ih =>
    exact (congrArg (marks depth first w ++ ·) (ih _)).trans (List.append_assoc ..).symm

/-- A request follows the beginning of the operation that makes it and what its earlier requests
brought about. -/
inductive Owned (front : List Mark) (e : Effect) (u : World) : Prop
  | intro {older : List Mark} {n : Nat} {op : Operation} {v w : World}
    {prior later : List (Effect × World)}
    (place : front = older ++ .begins n op v ::
      (prior.flatMap (fun c => callMarks (play n) (record n) c.1 c.2) ++
        beforeMarks (record n) e w))
    (calls : op.calls n v = prior ++ (e, w) :: later)
    (meets : u = met (play n) e w)
    (through : works e u = true)

theorem Owned.later {front : List Mark} {e : Effect} {u : World} (h : Owned front e u)
    (older : List Mark) : Owned (older ++ front) e u := by
  obtain ⟨place, calls, meets, through⟩ := h
  exact .intro (by rw [place, ← List.append_assoc]) calls meets through

structure Ordered (earlier marks : List Mark) : Prop where
  begins : ∀ front n op v back, marks = front ++ .begins n op v :: back →
    ownMarks n (record n) op v <+: back
  asks : ∀ front e u back, marks = front ++ .asks e u :: back → Owned (earlier ++ front) e u

namespace Ordered

variable {earlier front back marks : List Mark}

theorem nil : Ordered earlier [] where
  begins front _ _ _ _ h := by simp at h
  asks front _ _ _ h := by simp at h

theorem append (h : Ordered earlier front) (h' : Ordered (earlier ++ front) back) :
    Ordered earlier (front ++ back) where
  begins first n op v rest whole := by
    obtain ⟨mid, rfl, split⟩ | ⟨mid, split, tail⟩ := List.append_eq_append_iff.1 whole
    · exact h'.begins mid n op v rest split
    · obtain ⟨rfl, again⟩ | ⟨more, rfl, rfl⟩ := List.cons_eq_append_iff.1 tail
      · exact h'.begins [] n op v rest again
      · exact (h.begins first n op v more split).trans (List.prefix_append _ _)
  asks first e u rest whole := by
    obtain ⟨mid, rfl, split⟩ | ⟨mid, split, tail⟩ := List.append_eq_append_iff.1 whole
    · rw [← List.append_assoc]
      exact h'.asks mid e u rest split
    · obtain ⟨rfl, again⟩ | ⟨more, rfl, rfl⟩ := List.cons_eq_append_iff.1 tail
      · rw [List.append_nil] at split
        rw [← split]
        have owned := h'.asks [] e u rest again
        rwa [List.append_nil] at owned
      · exact h.asks first e u more split

theorem exists_own (h : Ordered earlier marks) {n : Nat} {op : Operation} {v : World}
    (there : .begins n op v ∈ marks) :
    ∃ front rest, marks = front ++ .begins n op v :: (ownMarks n (record n) op v ++ rest) := by
  obtain ⟨front, back, whole⟩ := List.append_of_mem there
  obtain ⟨rest, rfl⟩ := h.begins front n op v back whole
  exact ⟨front, rest, whole⟩

theorem later (h : Ordered [] marks) (earlier : List Mark) : Ordered earlier marks where
  begins := h.begins
  asks front e u back whole := (h.asks front e u back whole).later earlier

theorem asked {e : Effect} {u : World} (owned : Owned earlier e u)
    (rest : Ordered (earlier ++ [.asks e u]) back) : Ordered earlier (.asks e u :: back) where
  begins front n op v tail whole := by
    obtain ⟨rfl, split⟩ | ⟨more, rfl, split⟩ := List.cons_eq_append_iff.1 whole
    · cases split
    · exact rest.begins more n op v tail split
  asks front e' u' tail whole := by
    obtain ⟨rfl, split⟩ | ⟨more, rfl, split⟩ := List.cons_eq_append_iff.1 whole
    · cases split
      rwa [List.append_nil]
    · have there := rest.asks more e' u' tail split
      rwa [List.append_assoc] at there

theorem begun {n : Nat} {op : Operation} {v : World} (own : ownMarks n (record n) op v <+: back)
    (rest : Ordered (earlier ++ [.begins n op v]) back) :
    Ordered earlier (.begins n op v :: back) where
  begins front n' op' v' tail whole := by
    obtain ⟨rfl, split⟩ | ⟨more, rfl, split⟩ := List.cons_eq_append_iff.1 whole
    · cases split
      exact own
    · exact rest.begins more n' op' v' tail split
  asks front e u tail whole := by
    obtain ⟨rfl, split⟩ | ⟨more, rfl, split⟩ := List.cons_eq_append_iff.1 whole
    · cases split
    · have there := rest.asks more e u tail split
      rwa [List.append_assoc] at there

end Ordered

theorem composes_ordered : Composes fun _ marks _ => Ordered [] marks where
  done _ := .nil
  append h h' := h.append (h'.later _)
  direct _ _ := .nil

section

variable (ordered : ∀ label ops w, Ordered [] (record n label ops w))

include ordered

theorem ordered_call (older : List Mark) {op : Operation} {prior later : List (Effect × World)}
    {e : Effect} (calls : op.calls n v = prior ++ (e, w) :: later) :
    Ordered (older ++ .begins n op v ::
      prior.flatMap fun c => callMarks (play n) (record n) c.1 c.2)
      (callMarks (play n) (record n) e w) := by
  have before (earlier : List Mark) : Ordered earlier (beforeMarks (record n) e w) := by
    unfold beforeMarks
    split
    · exact .nil
    · exact (composes_ordered.hooked (play n) ordered _ w).later earlier
  have through (earlier : List Mark) (u : World) :
      Ordered earlier (throughMarks (play n) (record n) e u) := by
    unfold throughMarks
    split
    · split
      · exact (ordered _ _ _).later earlier
      · exact .nil
    · exact (composes_ordered.hooked (play n) ordered _ _).later earlier
  refine (before _).append ?_
  split
  · rename_i works
    exact .asked (.intro (by rw [List.append_assoc, List.cons_append]) calls rfl works)
      (through _ _)
  · exact .nil

theorem ordered_own (older : List Mark) (op : Operation) (v : World) :
    Ordered (older ++ [.begins n op v]) (ownMarks n (record n) op v) := by
  have rest (later prior : List (Effect × World)) (calls : op.calls n v = prior ++ later) :
      Ordered (older ++ .begins n op v ::
        prior.flatMap fun c => callMarks (play n) (record n) c.1 c.2)
        (later.flatMap fun c => callMarks (play n) (record n) c.1 c.2) := by
    induction later generalizing prior with
    | nil => exact .nil
    | cons c later ih =>
      obtain ⟨e, w⟩ := c
      have step := ordered_call ordered older calls
      refine step.append ?_
      have tail := ih (prior ++ [(e, w)]) (by rw [calls, List.append_assoc]; rfl)
      rw [List.flatMap_append, List.flatMap_singleton, ← List.cons_append,
        ← List.append_assoc] at tail
      exact tail
  exact rest _ [] rfl

theorem ordered_begin (op : Operation) (w : World) :
    Ordered [] (beginMarks n (record n) op w) :=
  .begun (List.prefix_refl _) (ordered_own ordered [] op w)

theorem ordered_op (op : Operation) (w : World) : Ordered [] (opMarks n (record n) op w) :=
  composes_ordered.performed (fun op _ => ordered_begin ordered op)
    (after_executeAll (told_play n)) (fun _ => .begun List.nil_prefix .nil) op w

end

theorem ordered_record (n : Nat) (label : String) (ops : List Operation) (w : World) :
    Ordered [] (record n label ops w) :=
  composes_ordered.recorded (fun _ => ordered_op) n label ops w

theorem ordered_marks (n : Nat) (op : Operation) (w : World) : Ordered [] (marks n op w) :=
  ordered_op (ordered_record n) op w

theorem ordered_transcript (ops : List Operation) (w : World) : Ordered [] (transcript ops w) :=
  composes_ordered.transcribed (ordered_marks depth) ops w

end World

end ClaimIndex
