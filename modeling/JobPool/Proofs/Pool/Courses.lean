/-
JobPool.Proofs.Pool.Courses — a run of a pool is on a course.

A course knows one run and the tokens. Along a path the other tasks do whatever they do, but of a
run they see nothing and to it they do nothing but hand out and cancel tokens. So, where timers fire
when they are due, each run of a pool came to where it stands on a course, and what is proved of
courses holds in a pool: attempts come one after another, each within its limit.

  §1 What stays
  §2 Runs along a path
  §3 Attempts
-/
import JobPool.Proofs.Pool.Signals

namespace JobPool

open Pool (Change Changes Deed)

namespace Site

variable {s s' : Site} {i : LoopId} {m : Move}

/-! ## §1 What stays -/

theorem pick_stepRun {r : Run} (h : s.stepRun i r = some s') : s'.picks = s.picks := by
  obtain ⟨_, _, rfl⟩ := Option.map_eq_some_iff.1 h
  rfl

theorem pick_stepLoop (h : s.stepLoop i = some s') : s'.picks = s.picks := by
  obtain ⟨l, -, cycles⟩ := cycles_of_stepLoop h
  cases cycles with
  | begins _ _ _ _ announces => exact (pick_stepRun announces).trans rfl
  | runs _ goes => exact pick_stepRun goes
  | _ => rfl

/-- Whatever is done, the source of random choices stays. -/
theorem picks_of_move (moved : s.move m = some s') : s'.picks = s.picks := by
  cases m with
  | task t =>
    cases t with
    | loop i => exact pick_stepLoop moved
    | watcher u => exact (onlyPool_stepWatcher moved).picks
    | check u w => exact (onlyPool_stepCheck moved).picks
    | forwarder u =>
      obtain ⟨_, _, -, rfl⟩ := setForwarder_of_stepForwarder moved
      rfl
    | call c => exact (onlyPool_stepCall moved).picks
  | start =>
    cases moved
    exact s.onlyPool_start.picks
  | beginStop =>
    cases moved
    exact s.onlyPool_beginStop.picks
  | beginRelease =>
    cases moved
    exact s.onlyPool_beginRelease.picks
  | spawnWorkers =>
    cases moved
    exact s.onlyPool_spawnWorkers.picks
  | dispatch job =>
    cases moved
    obtain ⟨driver, only⟩ := s.onlyPool_dispatch job
    exact only.picks
  | _ =>
    cases moved
    rfl

end Site

/-! ## §2 Runs along a path -/

namespace Run

theorem Course.trans {picks : Picks} {a b c : Moment} {ts ts' : List Taken}
    (first : Course picks a ts b) (second : Course picks b ts' c) :
    Course picks a (ts ++ ts') c := by
  induction first with
  | here m => exact second
  | turn next _ ih => exact .turn next (ih second)
  | wait later waits now_le le_latest _ ih => exact .wait later waits now_le le_latest (ih second)
  | others tokens before _ ih => exact .others tokens before (ih second)

/-- The bouts are those of the attempts that were begun. -/
theorem attempt_bouts (ts : List Taken) : (bouts ts).map (·.attempt) = (begunIn ts).map (·.2) := by
  have after : ∀ (ts : List Taken) (bs : List Bout), (ts.foldl boutsAfter bs).map (·.attempt) =
      bs.map (·.attempt) ++ (begunIn ts).map (·.2) := by
    intro ts
    induction ts with
    | nil => simp [begunIn]
    | cons x ts ih =>
      intro bs
      have one : (boutsAfter bs x).map (·.attempt) = bs.map (·.attempt) ++ x.turn.begun.toList := by
        unfold boutsAfter
        cases x.turn.begun <;> cases x.turn.event <;> simp [Function.comp_def, Bout.close]
      rw [List.foldl_cons, ih, one, begunIn_cons x.time x.turn ts, List.append_assoc]
      cases x.turn.begun <;> simp
  exact after ts []

end Run

namespace Site

variable {s s' : Site} {i : LoopId} {m : Move} {r r' : Run}

/-- A run that is on a course goes on. -/
theorem IsOnCourse.goes {ts : List Run.Taken} (h : s.IsOnCourse r)
    (course : Run.Course s.picks ⟨s.now, s.pool.tokens, r⟩ ts ⟨s'.now, s'.pool.tokens, r'⟩)
    (picks : s'.picks = s.picks) (settings : s'.pool.settings = s.pool.settings)
    (job : r'.job = r.job) (kept : s.pool.begun ⊆ s'.pool.begun)
    (begun : ∀ x ∈ Run.begunIn ts, x.2 ∈ s'.pool.begun) : s'.IsOnCourse r' := by
  obtain ⟨start, tokens, ts₀, before, made⟩ := h
  refine ⟨start, tokens, ts₀ ++ ts, ?_, fun b hb => ?_⟩
  · rw [picks, settings, job]
    exact before.trans course
  · have hb := List.mem_map_of_mem (f := (·.attempt)) hb
    rw [Run.attempt_bouts, Run.begunIn, List.filterMap_append, List.map_append] at hb
    rcases List.mem_append.1 hb with hb | hb
    · rw [← Run.begunIn, ← Run.attempt_bouts] at hb
      obtain ⟨b', hb', same⟩ := List.mem_map.1 hb
      exact same ▸ kept (made b' hb')
    · obtain ⟨x, hx, same⟩ := List.mem_map.1 hb
      exact same ▸ begun x hx

/-- A run that is left alone waits, or others hand out and cancel tokens. -/
theorem course_of_rest (moved : s.move m = some s') (onTime : s.keepsTime m = true)
    (runs : s.pool.runAt i = some r) :
    Run.Course s.picks ⟨s.now, s.pool.tokens, r⟩ [] ⟨s'.now, s'.pool.tokens, r⟩ := by
  obtain ⟨ds, does⟩ := changes_of_move moved
  have before := Pool.before_of_changes does.changes
  have now := now_of_move moved
  have rest : m.elapsed = 0 →
      Run.Course s.picks ⟨s.now, s.pool.tokens, r⟩ [] ⟨s'.now, s'.pool.tokens, r⟩ := by
    intro none_passed
    rw [now, none_passed]
    exact .others s'.pool.tokens before (.here _)
  cases m with
  | pass time wall =>
    obtain ⟨l, found, running⟩ := Pool.runAt_eq_some.1 runs
    have waits := List.all_eq_true.1 onTime l (List.mem_of_getElem? found)
    simp only [Loop.run?, running, Option.all_some, Bool.and_eq_true, Option.isNone_iff_eq_none,
      Option.all_eq_true, decide_eq_true_eq] at waits
    refine .wait s'.now waits.1 (Nat.le.intro now.symm) (fun t latest => ?_)
      (.others s'.pool.tokens before (.here _))
    obtain ⟨wake, wakes, rfl⟩ := Option.map_eq_some_iff.1 latest
    rw [now]
    exact waits.2 wake wakes
  | _ => exact rest rfl

end Site

/-- Where no deed of a run is done no run goes on. -/
theorem Pool.runAt_of_quiets {p q : Pool} {ds : List Deed} (changes : Changes p ds q)
    (quiet : ∀ d ∈ ds, d.isOfRun = false) {i : LoopId} {r : Run} (runs : q.runAt i = some r) :
    p.runAt i = some r := by
  induction changes with
  | refl p => exact runs
  | head first _ ih =>
    have was := ih (fun d hd => quiet d (List.mem_append_right _ hd)) runs
    exact runAt_of_quiet first
      (fun e he => quiet e (List.mem_append_left _ (Option.mem_toList.2 he))) i r was

theorem Pool.begun_of_changes {p q : Pool} {ds : List Deed} (changes : Changes p ds q) :
    p.begun ⊆ q.begun := by
  induction changes with
  | refl p => exact List.Subset.refl _
  | head first _ ih =>
    refine List.Subset.trans ?_ ih
    rw [begun_of_change first]
    exact List.subset_append_left _ _

/-- The runs of loops are on courses. -/
def Site.OnCourse (s : Site) : Prop :=
  ∀ i r, s.pool.runAt i = some r → r.phase ≠ .unwound → s.IsOnCourse r

namespace Site

variable {s s' : Site} {i : LoopId} {m : Move} {r : Run}

/-- A run that takes a turn, unless a panic cuts it short. -/
theorem IsOnCourse.turn {p : Pool} {t : Run.Turn} {run : Run} (picks : s'.picks = s.picks)
    (now : s'.now = s.now) (on : (s.withPool p).IsOnCourse r)
    (turn : r.turn s.picks s.now p.tokens = some t) (pool : s'.pool = p.afterTurn i t run)
    (goes : run = t.next ∨ run = { t.next with phase := .unwound }) (uncut : run.phase ≠ .unwound) :
    s'.IsOnCourse run := by
  obtain rfl : run = t.next := by
    refine goes.resolve_right fun cut => uncut ?_
    rw [cut]
  have course : Run.Course s.picks ⟨s.now, p.tokens, r⟩ [⟨s.now, t⟩]
      ⟨s'.now, s'.pool.tokens, t.next⟩ := by
    rw [now, pool]
    exact .turn turn (.here _)
  refine on.goes course picks (congrArg Pool.settings pool :) (Run.turned_of_turn turn).next.1 ?_
    fun x hx => ?_
  · rw [pool]
    exact List.subset_append_left _ _
  · rw [pool]
    refine List.mem_append_right _ (Option.mem_toList.2 ?_)
    cases begun : t.begun <;> simp [Run.begunIn, begun] at hx ⊢
    rw [hx]

theorem OnCourse.of_move (h : s.OnCourse) (moved : s.move m = some s')
    (onTime : s.keepsTime m = true) : s'.OnCourse := by
  intro j r runs uncut
  obtain ⟨ds, does⟩ := changes_of_move moved
  have picks := picks_of_move moved
  have now := now_of_move moved
  have settings := (Pool.later_of_changes does.changes).settings
  have kept := Pool.begun_of_changes does.changes
  have rests : s.pool.runAt j = some r → s'.IsOnCourse r := fun was =>
    (h j r was uncut).goes (course_of_rest moved onTime was) picks settings rfl kept
      (by simp [Run.begunIn])
  by_cases own : m.isStepOf j = true
  · obtain rfl := Path.isStepOf_iff.1 own
    cases advances_of_move moved with
    | rests changes quiet _ => exact rests (Pool.runAt_of_quiets changes quiet runs)
    | @turns i r₀ run t own was turn pool goes =>
      obtain rfl : j = i := by simpa using own
      obtain ⟨l, found, -⟩ := Pool.runAt_eq_some.1 was
      rw [pool, Pool.runAt_setPhase (q := s.pool.afterTurn j t run) (.running run) found rfl,
        if_pos rfl] at runs
      obtain rfl : run = r := Option.some.inj runs
      have uncut₀ : r₀.phase ≠ .unwound := fun unwound => by simp [Run.turn, unwound] at turn
      exact IsOnCourse.turn picks now (h j r₀ was uncut₀) turn pool goes uncut
    | @strays i job own _ _ starts cut =>
      obtain rfl : j = i := by simpa using own
      obtain rfl := Option.some.inj (starts.symm.trans runs)
      exact absurd cut uncut
    | @begins i job p run t own _ change starts turn pool goes =>
      obtain rfl : j = i := by simpa using own
      obtain ⟨l, found, -⟩ := Pool.runAt_eq_some.1 starts
      rw [pool, Pool.runAt_setPhase (q := p.afterTurn j t run) (.running run) found rfl,
        if_pos rfl] at runs
      obtain rfl : run = r := Option.some.inj runs
      have settings₀ := (Pool.later_of_change change).settings
      have on : (s.withPool p).IsOnCourse (.start job s.pool.settings.job s.now) := by
        refine ⟨s.now, p.tokens, [], ?_, by simp [Run.bouts]⟩
        show Run.Course s.picks (.start job p.settings.job s.now p.tokens) [] _
        rw [settings₀]
        exact .here _
      exact IsOnCourse.turn picks now on turn pool goes uncut
  · rw [runAt_of_move moved (Bool.eq_false_iff.2 own)] at runs
    exact rests runs

end Site

theorem Path.onCourse {start s : Site} {ms : List (Site × Move)} (path : Path start ms s)
    (fresh : start.pool.loops = []) (onTime : ∀ x ∈ ms, x.1.keepsTime x.2 = true) :
    s.OnCourse := by
  induction path with
  | here =>
    intro i r runs
    simp [Pool.runAt, fresh] at runs
  | @step s s' ms m _ moved ih =>
    have before := ih fun x hx => onTime x (List.mem_append_left _ hx)
    exact before.of_move moved (onTime (s, m) (by simp))

/-! ## §3 Attempts -/

/-- On any course of a run no attempt begins at or after the total deadline; attempts come one after
another, the next one when the back-off after the failed one has passed; and an attempt that is not
ready when its limit has passed is dropped then, with its token cancelled. In a pool each attempt
has a token of its own, which is cancelled just if the root is or this attempt overran, whatever is
done to workers and to the pool; and where timers fire when they are due, the runs of a pool are on
such courses. -/
theorem series_and_signals :
    (∀ (job : Job) (defaults : JobDefaults) (picks : Picks) (now : Nat) (tokens : Tokens)
      (ts : List Run.Taken) (m : Run.Moment),
      Run.Course picks (.start job defaults now tokens) ts m →
      Run.Series job (.resolve job.overrides defaults) picks now ts m) ∧
    ∀ (name : String) (settings : Settings) (driver : Driver Job) (hub : Hub) (wall : Nat)
      (picks : Picks) (ms : List (Site × Move)) (s : Site),
      Path (.create name settings driver hub wall picks) ms s →
      Path.Signals ms s ∧
        ((∀ x ∈ ms, x.1.keepsTime x.2 = true) →
          ∀ i r, s.pool.runAt i = some r → r.phase ≠ .unwound → s.IsOnCourse r) :=
  ⟨fun _ _ _ _ _ _ _ course => Run.series_of_course course,
    fun _ _ _ _ _ _ _ _ path => ⟨path.signals, path.onCourse rfl⟩⟩

namespace Sample

/-- A job whose attempts never end by themselves, with 5 ms for each of two and 3 ms in between. -/
def endlessJob : Job where
  id := 0
  name := "endless"
  overrides :=
    { maxAttempts := some 2, retryDelay := some (.ofMillis 3), retryDelayStep := some .zero,
      attemptLimit := some (.ofMillis 5) }
  shouldRetry := fun _ => true
  attempt := fun _ => .runs none .success none

/-- The worker and the pool are stopped while the first attempt is made; it overruns, and the second
one begins. -/
def stopInAttempt : List Move :=
  [.start, .dispatch endlessJob, .task (.loop 0), .task (.loop 0), .stopWorker 0, .beginStop,
   .pass 5000000 0, .task (.loop 0), .pass 3000000 0, .task (.loop 0), .task (.loop 0)]

end Sample

open Sample

/-- The first attempt ended at its limit, and the second one began when the back-off had passed. -/
theorem course_endlessJob : ∃ ts m, Run.Course .least (.start endlessJob {} 0 {}) ts m ∧
    (Run.bouts ts).map (fun b => (b.began, b.ended)) =
      [(0, some 5000000), (8000000, none)] := by
  refine ⟨_, _, .turn rfl (.turn rfl (.wait 5000000 rfl (by decide) ?_ (.turn rfl
    (.wait 8000000 rfl (by decide) ?_ (.turn rfl (.turn rfl (.here _))))))), rfl⟩
  · intro t latest
    have : some 5000000 = some t := latest
    exact Nat.le_of_eq (Option.some.inj this)
  · intro t latest
    have : some 8000000 = some t := latest
    exact Nat.le_of_eq (Option.some.inj this)

/-- Of the two attempts only the first one has its token cancelled, because it overran. -/
theorem series_and_signals_sluggish :
    (∃ ts m, Run.Series endlessJob (.resolve endlessJob.overrides {}) .least 0 ts m ∧
      (Run.bouts ts).map (fun b => (b.began, b.ended)) =
        [(0, some 5000000), (8000000, none)]) ∧
    (oneWorker.plays stopInAttempt).pool.begun.map
        (fun b => (oneWorker.plays stopInAttempt).pool.tokens.isCancelled b.token) = [true, false] ∧
    (∀ b ∈ (oneWorker.plays stopInAttempt).pool.begun.head?,
      ∃ x ∈ oneWorker.trail stopInAttempt, Path.Drops x b) ∧
    ∀ r, (oneWorker.plays stopInAttempt).pool.runAt 0 = some r → r.phase ≠ .unwound →
      (oneWorker.plays stopInAttempt).IsOnCourse r := by
  obtain ⟨ofCourse, ofPath⟩ := series_and_signals
  obtain ⟨ts, m, course, times⟩ := course_endlessJob
  have path := Site.path_of_plays stopInAttempt oneWorker (by decide +kernel)
  obtain ⟨signals, onCourse⟩ := ofPath _ _ _ _ _ _ _ _ path
  have cancelled : (oneWorker.plays stopInAttempt).pool.begun.map
      (fun b => (oneWorker.plays stopInAttempt).pool.tokens.isCancelled b.token) =
        [true, false] := by decide +kernel
  refine ⟨⟨ts, m, ofCourse _ _ _ _ _ _ _ course, times⟩, cancelled, fun b first => ?_,
    fun r runs => onCourse (by decide +kernel) 0 r runs⟩
  have told : (oneWorker.plays stopInAttempt).pool.tokens.isCancelled b.token = true := by
    have firsts := congrArg List.head? cancelled
    rw [List.head?_map, first] at firsts
    exact Option.some.inj firsts
  refine ((signals.cancelled b (List.mem_of_head? first)).1 told).resolve_left ?_
  decide +kernel

end JobPool
