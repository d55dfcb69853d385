/-
JobPool.Proofs.Pool.Story — what becomes of every job that a loop takes.

A loop runs one job after another. `Follows` says what a change may do to the run of a
loop: only the loop's own deeds touch it, and they are those of a job from being taken
to its outcome. Read along a path this gives the `Chronicle` of the loop: jobs run to
their end, with a whole tale and one outcome each, and at most one job that is being
run. A job whose deadline is not on the clock has no part in it, for its run is cut short
before anything is told. On a strand on which the loop gets its turns the job comes to its
end too, unless a listener panics (`Strand.Favours.concludes`), and so it does on a calm
schedule.

  §1 What a change does to a run
  §2 The chronicle of a loop
  §3 Steps of a run
  §4 Strands and schedules
-/
import JobPool.Pool.Strand
import JobPool.Proofs.Pool.Conservation
import JobPool.Proofs.Run.Tale

namespace JobPool

open Pool (Change Changes Deed)

namespace Pool

/-! ## §1 What a change does to a run -/

/-- What a deed does to the run of loop `i`. -/
inductive Follows (defaults : JobDefaults) (i : LoopId) :
    Option Run → Option Deed → Option Run → Prop where
  | other {r : Option Run} {d : Option Deed} (others : ∀ e ∈ d, e.loop? ≠ some i) :
      Follows defaults i r d r
  | parks : Follows defaults i none (some (.parked i)) none
  | takes (job : Job) (now : Nat) :
      Follows defaults i none (some (.took i job (Run.onClock job defaults now)))
        (some (.start job defaults now))
  | turns {r : Run} {picks : Picks} {now : Nat} {tokens : Tokens} {t : Run.Turn}
      (turn : r.turn picks now tokens = some t) :
      Follows defaults i (some r) (some (.ran i t)) (some t.next)
  | breaks {r r' : Run} {t : Run.Turn} : Follows defaults i (some r) (some (.broke i t)) (some r')
  | loses {r : Run} (unwound : r.phase = .unwound) :
      Follows defaults i (some r) (some (.lost i r.job)) none
  | finishes {r : Run} {success : Bool} (done : r.phase = .finished success) :
      Follows defaults i (some r) (some (.finished i r.job success)) none

theorem runAt_of_found {p : Pool} {i : LoopId} {l : Loop} (found : p.loops[i]? = some l) :
    p.runAt i = l.run? := by
  rw [runAt, found, Option.bind_some]

theorem runAt_eq_some {p : Pool} {i : LoopId} {r : Run} :
    p.runAt i = some r ↔ ∃ l, p.loops[i]? = some l ∧ l.phase = .running r := by
  have running : ∀ l : Loop, l.run? = some r ↔ l.phase = .running r := by
    intro l
    cases phase : l.phase <;> simp [Loop.run?, phase]
  simp [runAt, Option.bind_eq_some_iff, running]

theorem runAt_of_loops {p q : Pool} (loops : q.loops = p.loops) (i : LoopId) :
    q.runAt i = p.runAt i := by
  rw [runAt, loops, runAt]

/-- A new loop runs nothing. -/
theorem runAt_append {p q : Pool} {l : Loop} (loops : q.loops = p.loops ++ [l])
    (looking : l.phase = .looking) (i : LoopId) : q.runAt i = p.runAt i := by
  rw [runAt, loops, runAt]
  rcases Nat.lt_trichotomy i p.loops.length with lt | rfl | gt
  · rw [List.getElem?_append_left lt]
  · simp [Loop.run?, looking]
  · rw [List.getElem?_eq_none (Nat.le_of_lt gt), List.getElem?_eq_none]
    rw [List.length_append]
    exact gt

/-- Where one loop changes its phase, the others keep their runs. -/
theorem runAt_setPhase {p q : Pool} {j : LoopId} {l : Loop} (phase : Loop.Phase)
    (found : p.loops[j]? = some l) (loops : q.loops = p.loops.modify j fun l => { l with phase })
    (i : LoopId) :
    q.runAt i = if j = i then ({ l with phase } : Loop).run? else p.runAt i := by
  by_cases same : j = i
  · subst same
    rw [runAt, loops, List.getElem?_modify_eq, found, if_pos rfl]
    rfl
  · simp [runAt, loops, same]

/-- Loop `j` changes its phase, and `d` is nobody else's deed. -/
theorem follows_setPhase {defaults : JobDefaults} {p q : Pool} {j : LoopId} {l : Loop}
    {phase : Loop.Phase} {d : Option Deed} (found : p.loops[j]? = some l)
    (loops : q.loops = p.loops.modify j fun l => { l with phase })
    (own : Follows defaults j l.run? d ({ l with phase } : Loop).run?)
    (only : ∀ e ∈ d, e.loop? = some j) (i : LoopId) :
    Follows defaults i (p.runAt i) d (q.runAt i) := by
  rw [runAt_setPhase phase found loops]
  split
  · rename_i same
    subst same
    rw [runAt_of_found found]
    exact own
  · rename_i differ
    exact .other fun e he own => differ (Option.some.inj ((only e he).symm.trans own))

theorem follows_of_change {p q : Pool} {d : Option Deed} (h : Change p d q) (i : LoopId) :
    Follows p.settings.job i (p.runAt i) d (q.runAt i) := by
  have apart : ∀ {q : Pool} {d : Option Deed}, q.loops = p.loops → (∀ e ∈ d, e.loop? = none) →
      Follows p.settings.job i (p.runAt i) d (q.runAt i) := by
    intro q d loops loopless
    rw [runAt_of_loops loops]
    exact .other fun e he own => by simp [loopless e he] at own
  have idle : ∀ {l : Loop}, l.phase = .looking → l.run? = none := fun looking => by
    simp [Loop.run?, looking]
  have holds : ∀ {l : Loop} {r : Run}, l.phase = .running r → l.run? = some r := fun running => by
    simp [Loop.run?, running]
  cases h with
  | aside aside =>
    refine apart aside.beside.loops ?_
    cases aside <;> simp [Deed.loop?]
  | add wall _ _ =>
    have same := runAt_append (p := p) (q := p.addWorker wall) rfl rfl i
    rw [same]
    exact .other (by simp)
  | restart wall _ _ _ _ _ =>
    refine Eq.subst (motive := Follows p.settings.job i (p.runAt i) none)
      (runAt_append (p := p) rfl rfl i).symm (.other (by simp))
  | stop wall w => exact apart (congrArg Pool.loops (p.asked_stopWorker wall w).rest :) (by simp)
  | leave _ => exact apart rfl (by simp)
  | halt wall _ _ asked => exact apart (congrArg Pool.loops asked.rest :) (by simp [Deed.loop?])
  | drain wall _ _ asked _ =>
    exact apart (congrArg Pool.loops asked.rest :) (by simp [Deed.loop?])
  | notify =>
    have same : p.notifyAll.runAt i = p.runAt i := by
      simp only [runAt, notifyAll, List.getElem?_map]
      cases p.loops[i]? with
      | none => rfl
      | some l => cases phase : l.phase <;> simp [Loop.notify, Loop.run?, phase]
    rw [same]
    exact .other (by simp)
  | park wake found looking =>
    refine follows_setPhase found rfl ?_ (by simp [Deed.loop?]) i
    rw [idle looking]
    exact .parks
  | @wake _ l _ _ found parked =>
    have idle : l.run? = none := by simp [Loop.run?, parked]
    refine follows_setPhase found rfl ?_ (by simp) i
    rw [idle]
    exact .other (by simp)
  | @endLoop _ l wall found free _ =>
    have idle : l.run? = none := by
      cases phase : l.phase <;> simp [Loop.isBusy, Loop.run?, phase] at free ⊢
    refine follows_setPhase found rfl ?_ (by simp) i
    rw [idle]
    exact .other (by simp)
  | take job now found looking _ =>
    refine follows_setPhase found rfl ?_ (by simp [Deed.loop?]) i
    rw [idle looking]
    exact .takes job now
  | run found running turn =>
    refine follows_setPhase found rfl ?_ (by simp [Deed.loop?]) i
    rw [holds running]
    exact .turns turn
  | cutShort found running turn =>
    refine follows_setPhase found rfl ?_ (by simp [Deed.loop?]) i
    rw [holds running]
    exact .breaks
  | crash found running unwound =>
    refine follows_setPhase found rfl ?_ (by simp [Deed.loop?]) i
    rw [holds running]
    exact .loses unwound
  | finish wall found running done _ =>
    refine follows_setPhase found rfl ?_ (by simp [Deed.loop?]) i
    rw [holds running]
    have none_run : ∀ (b : Bool) (l : Loop),
        ({ l with phase := if b then .ended else .looking } : Loop).run? = none :=
      fun b _ => by cases b <;> rfl
    rw [none_run]
    exact .finishes done
  | finishLate wall found running done _ =>
    refine follows_setPhase found rfl ?_ (by simp [Deed.loop?]) i
    rw [holds running]
    exact .finishes done

/-- A run that is cut short is unwound. -/
theorem runAt_of_broke {p q : Pool} {i : LoopId} {t : Run.Turn}
    (change : Change p (some (.broke i t)) q) :
    ∃ r, q.runAt i = some r ∧ r.phase = .unwound := by
  cases change with
  | aside aside => cases aside
  | cutShort found _ _ =>
    refine ⟨{ t.next with phase := .unwound }, ?_, rfl⟩
    rw [runAt_setPhase _ found rfl, if_pos rfl]
    rfl

/-- What no deed of a loop is leaves its run alone. -/
theorem Follows.same {defaults : JobDefaults} {i : LoopId} {r r' : Option Run} {d : Option Deed}
    (h : Follows defaults i r d r') (others : ∀ e ∈ d, e.loop? ≠ some i) : r' = r := by
  cases h with
  | other _ | parks => rfl
  | _ => exact absurd rfl (others _ rfl)

theorem runAt_of_changes {p q : Pool} {ds : List Deed} (h : Changes p ds q) {i : LoopId}
    (others : ∀ d ∈ ds, d.loop? ≠ some i) : q.runAt i = p.runAt i := by
  induction h with
  | refl p => rfl
  | head first _ ih =>
    have rest := ih fun d hd => others d (List.mem_append_right _ hd)
    refine rest.trans ((follows_of_change first i).same fun e he => ?_)
    exact others e (List.mem_append_left _ (Option.mem_toList.2 he))

end Pool

/-- A run changes only by steps of its loop. -/
theorem Site.runAt_of_move {s s' : Site} {m : Move} {i : LoopId} (moved : s.move m = some s')
    (other : m.isStepOf i = false) : s'.pool.runAt i = s.pool.runAt i := by
  obtain ⟨ds, does⟩ := changes_of_move moved
  have none_own := Path.doneBy_of_does does i
  rw [other, if_neg Bool.false_ne_true] at none_own
  refine Pool.runAt_of_changes does.changes fun d hd own => ?_
  exact List.filter_eq_nil_iff.1 none_own d hd (by simp [own])

/-! ## §2 The chronicle of a loop -/

/-- True unless the run was cut short. -/
def Run.isUncut (r : Run) : Bool :=
  match r.phase with
  | .unwound => false
  | _ => true

theorem Run.isUncut_iff {r : Run} : r.isUncut = true ↔ r.phase ≠ .unwound := by
  cases phase : r.phase <;> simp [isUncut, phase]

/-- A job that was run to its end, with its outcome and all that was told of it. -/
structure Tale where
  job : Job
  success : Bool
  events : List Event

/-- What a loop took, told and recorded when it runs `current`: the jobs of the tales, run one
after another, and then the current one, of which `latest` was told. -/
structure Chronicle (defaults : JobDefaults) (taken : List Job) (told : List Event)
    (finished : List (Job × Bool)) (current : Option Run) (tales : List Tale)
    (latest : List Event) : Prop where
  taken : taken = tales.map (·.job) ++ (current.map (·.job)).toList
  told : told = tales.flatMap (·.events) ++ latest
  finished : finished = tales.map fun t => (t.job, t.success)
  whole : ∀ t ∈ tales, Run.Whole t.job (.resolve t.job.overrides defaults) t.success t.events
  silent : current = none → latest = []
  tells : ∀ r ∈ current, Run.Tells r.job defaults r latest

namespace Chronicle

/-- The deeds of a loop tell its story, which leaves out the jobs that are not on the clock. -/
abbrev OfDeeds (defaults : JobDefaults) (ds : List Deed) (current : Option Run) : Prop :=
  ∃ tales latest, Chronicle defaults (Deed.reckonedIn ds) (Deed.toldIn ds) (Deed.finishedIn ds)
    (current.filter Run.isUncut) tales latest

theorem nil (defaults : JobDefaults) : OfDeeds defaults [] none :=
  ⟨[], [], rfl, rfl, rfl, List.forall_mem_nil _, fun _ => rfl, by simp⟩

/-- A deed that does nothing with a job on the clock adds nothing to the story. -/
theorem OfDeeds.silently {defaults : JobDefaults} {ds : List Deed} {r r' : Option Run}
    (h : OfDeeds defaults ds r) {d : Deed} (untaken : d.reckoned? = none) (untold : d.told? = none)
    (unfinished : d.finished? = none) (same : r'.filter Run.isUncut = r.filter Run.isUncut) :
    OfDeeds defaults (ds ++ [d]) r' := by
  obtain ⟨tales, latest, story⟩ := h
  rw [← same] at story
  refine ⟨tales, latest, ?_, ?_, ?_, story.whole, story.silent, story.tells⟩
  · rw [Deed.reckonedIn_append, story.taken]
    simp [Deed.reckonedIn, untaken]
  · rw [Deed.toldIn_append, story.told]
    simp [Deed.toldIn, untold]
  · rw [Deed.finishedIn_append, story.finished]
    simp [Deed.finishedIn, unfinished]

theorem OfDeeds.next {defaults : JobDefaults} {i : LoopId} {ds : List Deed} {r r' : Option Run}
    {d : Option Deed} (h : OfDeeds defaults ds r) (follows : Pool.Follows defaults i r d r')
    (uncut : Deed.Uncut d.toList) :
    OfDeeds defaults (ds ++ Deed.doneBy i d.toList) r' := by
  have own : ∀ {e : Deed}, e.loop? = some i → Deed.doneBy i (some e).toList = [e] := by
    intro e loop
    simp [Deed.doneBy, loop]
  cases follows with
  | other others =>
    have none_own : Deed.doneBy i d.toList = [] := by
      refine List.filter_eq_nil_iff.2 fun e he own => others e (Option.mem_toList.1 he) ?_
      simpa using own
    rw [none_own, List.append_nil]
    exact h
  | parks =>
    rw [own rfl]
    exact h.silently rfl rfl rfl rfl
  | takes job now =>
    rw [own rfl]
    cases onClock : Run.onClock job defaults now with
    | false =>
      -- the run is cut short before it tells anything
      have cut : (Run.start job defaults now).isUncut = false := by
        simp [Run.isUncut, Run.phase_start_of_offClock onClock]
      exact h.silently rfl rfl rfl (Option.filter_some_neg cut)
    | true =>
      have uncut : (Run.start job defaults now).isUncut = true := by
        simp [Run.isUncut, Run.phase_start_of_onClock onClock]
      obtain ⟨tales, latest, story⟩ := h
      obtain rfl := story.silent rfl
      rw [OfDeeds, Option.filter_some_pos uncut]
      refine ⟨tales, [], ?_, ?_, ?_, story.whole, fun _ => rfl, ?_⟩
      · rw [Deed.reckonedIn_append, story.taken]
        simp [Deed.reckonedIn, Deed.reckoned?, Run.start]
      · rw [Deed.toldIn_append, story.told]
        exact List.append_nil _
      · rw [Deed.finishedIn_append, story.finished]
        exact List.append_nil _
      · intro r hr
        obtain rfl := Option.some.inj hr
        exact .start now onClock
  | @turns r picks now tokens t turn =>
    have before : r.isUncut = true := Run.isUncut_iff.2 (Run.uncut_of_turn turn)
    obtain ⟨same, after⟩ := (Run.turned_of_turn turn).next
    obtain ⟨tales, latest, story⟩ := h
    rw [Option.filter_some_pos before] at story
    rw [own rfl, OfDeeds, Option.filter_some_pos (Run.isUncut_iff.2 after)]
    refine ⟨tales, latest ++ t.event.toList, ?_, ?_, ?_, story.whole, fun none_runs => ?_, ?_⟩
    · rw [Deed.reckonedIn_append, story.taken]
      simp [Deed.reckonedIn, Deed.reckoned?, same]
    · rw [Deed.toldIn_append, story.told, List.append_assoc]
      cases event : t.event <;> simp [Deed.toldIn, Deed.told?, event]
    · rw [Deed.finishedIn_append, story.finished]
      exact List.append_nil _
    · cases none_runs
    · intro r' hr'
      obtain rfl := Option.some.inj hr'
      rw [same]
      exact (story.tells r rfl).turn turn
  | breaks => cases uncut _ (List.mem_singleton_self _)
  | @loses r unwound =>
    have cut : r.isUncut = false := by simp [Run.isUncut, unwound]
    rw [own rfl]
    exact h.silently rfl rfl rfl (Option.filter_some_neg cut).symm
  | @finishes r success done =>
    obtain ⟨tales, latest, story⟩ := h
    rw [Option.filter_some_pos (Run.isUncut_iff.2 (by simp [done]))] at story
    rw [own rfl]
    refine ⟨tales ++ [⟨r.job, success, latest⟩], [], ?_, ?_, ?_, fun t ht => ?_, fun _ => rfl, ?_⟩
    · rw [Deed.reckonedIn_append, story.taken]
      simp [Deed.reckonedIn, Deed.reckoned?]
    · rw [Deed.toldIn_append, story.told]
      simp [Deed.toldIn, Deed.told?]
    · rw [Deed.finishedIn_append, story.finished]
      simp [Deed.finishedIn, Deed.finished?]
    · rcases List.mem_append.1 ht with ht | ht
      · exact story.whole t ht
      · obtain rfl := List.mem_singleton.1 ht
        exact (story.tells r rfl).whole done
    · intro r' hr'
      cases hr'

theorem OfDeeds.of_changes {defaults : JobDefaults} {i : LoopId} {p q : Pool} {es ds : List Deed}
    (h : OfDeeds defaults es (p.runAt i)) (changes : Changes p ds q)
    (settings : p.settings.job = defaults) (uncut : Deed.Uncut ds) :
    OfDeeds defaults (es ++ Deed.doneBy i ds) (q.runAt i) := by
  induction changes generalizing es with
  | refl p =>
    rw [Deed.doneBy, List.filter_nil, List.append_nil]
    exact h
  | head first rest ih =>
    have follows := Pool.follows_of_change first i
    rw [settings] at follows
    rw [Deed.doneBy, List.filter_append, ← List.append_assoc]
    obtain ⟨uncut, uncut'⟩ := List.forall_mem_append.1 uncut
    refine ih (h.next follows uncut) ?_ uncut'
    rw [(Pool.later_of_change first).settings]
    exact settings

end Chronicle

/-- Where no listener panics while it is made, all that the loops of a new pool take while the clock
can tell the deadlines, and all that they tell and record, is job after job, each run by its own
policy. -/
theorem Path.chronicle {start s : Site} {ms : List (Site × Move)} (path : Path start ms s)
    (fresh : start.pool.loops = []) (calm : ∀ x ∈ ms, x.1.Calm x.2) (i : LoopId) :
    ∃ tales latest, Chronicle start.pool.settings.job (reckonedBy i ms) (toldBy i ms)
      (finishedBy i ms) ((s.pool.runAt i).filter Run.isUncut) tales latest := by
  obtain ⟨ds, does⟩ := path.does
  have idle : start.pool.runAt i = none := by simp [Pool.runAt, fresh]
  have begins := Chronicle.nil start.pool.settings.job
  rw [← idle] at begins
  have story := begins.of_changes does.changes rfl (does.uncut calm)
  rw [List.nil_append, Chronicle.OfDeeds, does.reckoned, does.told, does.finished] at story
  exact story

/-! ## §3 Steps of a run -/

namespace Site

/-- A loop with a run can step if the run is over, was cut short, or has a turn to take. -/
theorem step_isSome_of_run {s : Site} {i : LoopId} {r : Run} (runs : s.pool.runAt i = some r) :
    (s.step (.loop i)).isSome = true ↔ (∃ success, r.phase = .finished success) ∨
      r.phase = .unwound ∨ (r.turn s.picks s.now s.pool.tokens).isSome = true := by
  obtain ⟨l, found, running⟩ := Pool.runAt_eq_some.1 runs
  have stepRun : (s.stepRun i r).isSome = (r.turn s.picks s.now s.pool.tokens).isSome := by
    rw [Site.stepRun, Option.isSome_map, Run.step, Option.isSome_map]
    rfl
  cases phase : r.phase <;> simp [step, stepLoop, found, running, phase, stepRun]

/-- A step of a loop records the outcome of its run or is a turn of it, unless a listener panics
and cuts the run short. -/
theorem run_of_step {s s' : Site} {i : LoopId} {r : Run} (runs : s.pool.runAt i = some r)
    (moved : s.step (.loop i) = some s') (uncut : r.phase ≠ .unwound) :
    (∃ success, s.finishes (.loop i) = some (r.job, success)) ∨
      (∃ t, r.turn s.picks s.now s.pool.tokens = some t ∧ s'.pool.runAt i = some t.next) ∨
      ¬ s.Calm (.task (.loop i)) ∧ ∃ r', s'.pool.runAt i = some r' ∧ r'.phase = .unwound := by
  obtain ⟨l, found, running⟩ := Pool.runAt_eq_some.1 runs
  by_cases ended : ∃ success, r.phase = .finished success
  · obtain ⟨success, done⟩ := ended
    exact .inl ⟨success, by simp [finishes, found, running, done]⟩
  · have stepRun : s.stepRun i r = some s' := by
      cases phase : r.phase with
      | finished success => exact absurd ⟨success, phase⟩ ended
      | unwound => exact absurd phase uncut
      | _ =>
        simp only [step, stepLoop, found, running, phase, Option.bind_eq_bind,
          Option.bind_some] at moved
        exact moved
    obtain ⟨-, t, d, turn, change, deed, unbroken⟩ := change_stepRun found running stepRun
    refine .inr ?_
    rcases deed with rfl | rfl
    · have follows := Pool.follows_of_change change i
      rw [runs] at follows
      generalize s'.pool.runAt i = next at follows
      cases follows with
      | other others => exact absurd rfl (others _ rfl)
      | turns _ => exact .inl ⟨t, turn, rfl⟩
    · refine .inr ⟨fun calm => ?_, Pool.runAt_of_broke change⟩
      have publishes : s.publishes (.loop i) = t.event := by
        simp [publishes, found, running, turn]
      cases unbroken fun ev hev => calm _ rfl ev (publishes ▸ hev)

/-- What every change keeps, every move keeps. -/
theorem keeps_of_move {s s' : Site} {m : Move} {P : Pool → Prop} (moved : s.move m = some s')
    (holds : P s.pool) (step : ∀ {p q : Pool} {d : Option Deed}, Change p d q → P p → P q) :
    P s'.pool := by
  obtain ⟨ds, does⟩ := changes_of_move moved
  exact does.changes.keeps holds fun change _ => step change

end Site

/-! ## §4 Strands and schedules -/

namespace Strand

variable {ς : Strand} {i : LoopId}

/-- What every change keeps stays true on a strand. -/
theorem stays (ς : Strand) {P : Pool → Prop} {n m : Nat} (le : n ≤ m) (holds : P (ς.state n).pool)
    (step : ∀ {p q : Pool} {d : Option Deed}, Change p d q → P p → P q) : P (ς.state m).pool := by
  induction le with
  | refl => exact holds
  | @step m _ ih =>
    cases own : ς.move m with
    | none => rwa [ς.rested own]
    | some move =>
      obtain ⟨s, moved, same⟩ := ς.moved own
      rw [same]
      exact Site.keeps_of_move moved ih step

/-- A fair task steps where something stays true until it steps, and from some point on lets it
step. -/
theorem IsFair.acts {t : PoolTask} (fair : ς.IsFair t) {P : Pool → Prop} {n : Nat}
    (holds : P (ς.state n).pool)
    (stays : ∀ m, n ≤ m → P (ς.state m).pool → ∀ move s, ς.move m = some move →
      move ≠ .task t → (ς.state m).move move = some s → P s.pool)
    (able : ∃ late, ∀ m, n ≤ m → late ≤ m → P (ς.state m).pool →
      ((ς.state m).step t).isSome = true) :
    ∃ m, n ≤ m ∧ ς.move m = some (.task t) ∧ P (ς.state m).pool := by
  by_contra never
  have lasts : ∀ k, P (ς.state (n + k)).pool := by
    intro k
    induction k with
    | zero => exact holds
    | succ k ih =>
      have le := Nat.le_add_right n k
      show P (ς.state (n + k + 1)).pool
      cases own : ς.move (n + k) with
      | none => rwa [ς.rested own]
      | some move =>
        obtain ⟨s, moved, same⟩ := ς.moved own
        rw [same]
        exact stays (n + k) le ih move s own (fun its => never ⟨n + k, le, its ▸ own, ih⟩) moved
  obtain ⟨late, able⟩ := able
  obtain ⟨m, le, turn⟩ := fair (max n late)
  obtain ⟨since, later⟩ := Nat.max_le.1 le
  obtain ⟨k, rfl⟩ := Nat.exists_eq_add_of_le since
  rcases turn with own | blocked
  · exact never ⟨n + k, since, own, lasts k⟩
  · have steps := able (n + k) since later (lasts k)
    rw [blocked] at steps
    cases steps

/-- Nothing on the strand keeps the loop from ending its jobs: it gets its turns, time passes, and
something ends every attempt. -/
structure Favours (ς : Strand) (i : LoopId) : Prop where
  fair : ς.IsFair (.loop i)
  time : ς.TimeFlows
  ends : ∀ n r a, (ς.state n).pool.runAt i = some r → r.phase = .attempting a →
    ¬ a.IsEndless ((ς.state n).pool.tokens.isCancelled a.token)

/-- A loop with a run that is not cut short takes its next step: the run stays until then, and
some time from now on it can go on. -/
theorem Favours.steps (h : ς.Favours i) {n : Nat} {r : Run}
    (runs : (ς.state n).pool.runAt i = some r) (uncut : r.phase ≠ .unwound) :
    ∃ m, n ≤ m ∧ ς.move m = some (.task (.loop i)) ∧ (ς.state m).pool.runAt i = some r := by
  refine h.fair.acts (P := fun p => p.runAt i = some r) runs
    (fun m _ same move s _ other moved => ?_) ?_
  · refine (Site.runAt_of_move moved (Bool.eq_false_iff.2 fun own => ?_)).trans same
    exact other (Path.isStepOf_iff.1 own)
  · by_cases ended : ∃ success, r.phase = .finished success
    · exact ⟨n, fun m _ _ same => (Site.step_isSome_of_run same).2 (.inl ended)⟩
    · have unfinished : ∀ success, r.phase ≠ .finished success := fun success done =>
        ended ⟨success, done⟩
      rcases Run.goes_on unfinished uncut (ς.state n).now (ς.state n).pool.tokens with due | endless
      · obtain ⟨late, time⟩ := h.time (max (ς.state n).now (r.wakeAt.getD (ς.state n).now))
        refine ⟨late, fun m le hm same => (Site.step_isSome_of_run same).2 (.inr (.inr ?_))⟩
        have passed := Nat.max_le.1 (time m hm)
        exact due _ _ _ passed.1 passed.2
          (ς.stays (P := fun p => (ς.state n).pool.tokens.Before p.tokens) le (.refl _)
            fun change before => before.trans (Pool.before_of_change change))
      · obtain ⟨a, attempting, endless⟩ := endless
        exact absurd endless (h.ends n r a runs attempting)

/-- The job that a loop runs comes to its end, and its outcome is recorded, unless a listener
panics: every other step is a turn of the run, and the policy of the job bounds their number. -/
theorem Favours.concludes {defaults : JobDefaults} (h : ς.Favours i) {n : Nat} {r : Run}
    {evs : List Event} (runs : (ς.state n).pool.runAt i = some r)
    (tells : Run.Tells r.job defaults r evs) :
    ∃ m, n ≤ m ∧ ς.move m = some (.task (.loop i)) ∧
      ((∃ success, (ς.state m).finishes (.loop i) = some (r.job, success)) ∨
        ¬ (ς.state m).Calm (.task (.loop i)) ∧
          ∃ r', (ς.state (m + 1)).pool.runAt i = some r' ∧ r'.phase = .unwound) := by
  have uncut := tells.uncut
  obtain ⟨m, le, own, same⟩ := h.steps runs uncut
  obtain ⟨s, moved, state⟩ := ς.moved own
  rcases Site.run_of_step same moved uncut with done | ⟨t, turn, next⟩ | ⟨panics, r', cut⟩
  · exact ⟨m, le, own, .inl done⟩
  · have turned := Run.turned_of_turn turn
    have job := turned.next.1
    have tells' : Run.Tells t.next.job defaults t.next (evs ++ t.event.toList) := by
      rw [job]
      exact tells.turn turn
    have more := turned.turnsTaken_lt
    have most := tells'.turnsTaken_le
    rw [← state] at next
    obtain ⟨m', le', own', ends⟩ := h.concludes next tells'
    rw [job] at ends
    exact ⟨m', Nat.le_trans le (Nat.le_of_succ_le le'), own', ends⟩
  · exact ⟨m, le, own, .inr ⟨panics, r', state ▸ cut⟩⟩
termination_by 3 * (Terms.resolve r.job.overrides defaults).maxAttempts + 3 - r.turnsTaken
decreasing_by
  rw [job] at most ⊢
  omega

end Strand

namespace Schedule

/-- Nothing on the schedule keeps the loop from ending its jobs: no listener panics while it is
made, the loop gets its turns, time passes, and something ends every attempt. -/
structure Favours (σ : Schedule) (i : LoopId) : Prop where
  calm : ∀ n, (σ.state n).Calm (σ.move n)
  fair : σ.IsFair (.loop i)
  time : σ.TimeFlows
  ends : ∀ n r a, (σ.state n).pool.runAt i = some r → r.phase = .attempting a →
    ¬ a.IsEndless ((σ.state n).pool.tokens.isCancelled a.token)

/-- All tasks have their turns on the schedule, and it favours all loops. -/
structure FavoursAll (σ : Schedule) : Prop where
  loops : ∀ i, σ.Favours i
  fair : ∀ t, σ.IsFair t

variable {σ : Schedule} {i : LoopId}

theorem Favours.strand (h : σ.Favours i) : σ.strand.Favours i where
  fair := h.fair.strand
  time := h.time
  ends := h.ends

/-- The job that a loop runs comes to its end, and its outcome is recorded. -/
theorem Favours.finishes {defaults : JobDefaults} (h : σ.Favours i) {n : Nat} {r : Run}
    {evs : List Event} (runs : (σ.state n).pool.runAt i = some r)
    (tells : Run.Tells r.job defaults r evs) :
    ∃ m success, n ≤ m ∧ σ.move m = .task (.loop i) ∧
      (σ.state m).finishes (.loop i) = some (r.job, success) := by
  obtain ⟨m, le, own, ends⟩ := h.strand.concludes runs tells
  have own : σ.move m = .task (.loop i) := Option.some.inj own
  rcases ends with ⟨success, done⟩ | ⟨panics, -⟩
  · exact ⟨m, success, le, own, done⟩
  · exact absurd (own ▸ h.calm m) panics

end Schedule
end JobPool
