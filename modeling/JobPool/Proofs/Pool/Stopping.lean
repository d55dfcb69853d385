/-
JobPool.Proofs.Pool.Stopping — a stop lets every job in flight come to its end.

A stop waits for upkeep to end, and meanwhile workers may still take jobs. Then it asks
all registered workers to stop, and from there on no worker is idle and none has a live
token (`Pool.Halted`). Every change but a start keeps this: a worker without a live
token takes no job, and when it finishes the one that it has it stops. No token of an
attempt is among those that a stop cancels.
-/
import JobPool.Proofs.Pool.Standing

namespace JobPool

open Pool (Change Changes Deed)

namespace Pool

/-! ## Halted pools -/

/-- The pool was stopped or released, and no worker takes up anything any more. -/
structure Halted (p : Pool) : Prop where
  status : p.status = .stopped ∨ p.status = .released
  asked : ∀ (w : WorkerId) (k : Worker), p.workers[w]? = some k →
    k.isIdle = false ∧ p.tokens.isCancelled k.token = true

theorem status_after_unstarted {p q : Pool} {d : Option Deed} (change : Change p d q)
    (unstarted : d ≠ some .started) (h : p.status = .stopped ∨ p.status = .released) :
    q.status = .stopped ∨ q.status = .released := by
  rw [status_of_change change]
  unfold Deed.statusAfter
  split
  · exact absurd rfl unstarted
  · exact .inl rfl
  · exact .inr rfl
  · exact h

theorem not_running {p : Pool} (h : p.status = .stopped ∨ p.status = .released) :
    p.status ≠ .running := by
  intro running
  simp [running] at h

theorem Halted.of_change {p q : Pool} {d : Option Deed} (h : p.Halted) (sound : p.Sound)
    (change : Change p d q) (unstarted : d ≠ some .started) : q.Halted := by
  refine ⟨status_after_unstarted change unstarted h.status, fun w k' found' => ?_⟩
  rcases sound.fate_of_change change found' with ⟨k, found, fate⟩ | new
  · obtain ⟨idle, cancelled⟩ := h.asked w k found
    refine ⟨fate.isIdle idle cancelled, ?_⟩
    rw [fate.token]
    exact (before_of_change change).cancelled_of_cancelled _ cancelled
  · exact absurd new.running (not_running h.status)

/-- No loop of a halted pool may take a job. -/
theorem Halted.closed {p : Pool} (h : p.Halted) (sound : p.Sound) : p.Closed := by
  refine ⟨h.status, fun l hl => ?_⟩
  obtain ⟨k, carrier, fits⟩ := sound.fits l hl
  rw [← Bool.not_eq_true, mayTake_iff carrier]
  rintro ⟨current, live⟩
  rw [fits.token_eq current.symm, (h.asked _ k carrier).2] at live
  cases live

/-- A worker of a halted pool is stopped, unless its loop has a job in hand. -/
theorem Halted.stopped_or_busy {p : Pool} (h : p.Halted) (sound : p.Sound) (manned : p.Manned)
    {w : WorkerId} {k : Worker} (found : p.workers[w]? = some k) :
    k.isStopped = true ∨ ∃ l ∈ p.loops, p.Carries l w ∧ l.isBusy = true := by
  refine (Worker.isStopped_or_isWorking (h.asked w k found).1).imp_right fun working => ?_
  obtain ⟨l, hl, carries⟩ := manned.current w k found
  obtain ⟨k', carrier, fits⟩ := sound.fits l hl
  obtain ⟨worker, current⟩ := (carries_iff found).1 carries
  rw [worker, found] at carrier
  obtain rfl := Option.some.inj carrier
  exact ⟨l, hl, carries, (fits.working_eq current).symm.trans working⟩

/-! ## Stops under way -/

/-- Stop number `c` took effect on the status, and when it has returned the pool is halted. -/
structure Stopping (c : CallId) (p : Pool) : Prop where
  status : p.status = .stopped ∨ p.status = .released
  call : (∃ u, p.calls[c]? = some (.stopping u)) ∨ (p.calls[c]? = some .returned ∧ p.Halted)

/-- Registered workers that were asked to stop are not idle, and have no live tokens. -/
theorem stopped_of_asked {p r : Pool} {wall : Nat} (sound : p.Sound)
    (asked : Asked (·.stop wall) p p.registry r) {w : WorkerId} {k' : Worker}
    (registered : w ∈ p.registry) (found' : r.workers[w]? = some k') :
    k'.isIdle = false ∧ r.tokens.isCancelled k'.token = true := by
  have changed := asked.workers w
  rw [found'] at changed
  obtain ⟨k, found, rfl⟩ := Option.map_eq_some_iff.1 changed.symm
  rw [if_pos registered, k.token_stop]
  exact ⟨k.isIdle_stop wall, asked.cancelled w registered k found (sound.handedOut w k found)⟩

/-- A stop that returns leaves the pool halted: the registered workers were asked to stop, and
the others had left with nothing to do. -/
theorem halted_of_halt {p r : Pool} {wall : Nat} (regular : p.Regular)
    (status : p.status = .stopped ∨ p.status = .released)
    (asked : Asked (·.stop wall) p p.registry r) (calls : List Call) :
    ({ r with calls } : Pool).Halted := by
  refine ⟨?_, fun w k' found' => ?_⟩
  · rw [show ({ r with calls } : Pool).status = p.status from (congrArg Pool.status asked.rest :)]
    exact status
  · by_cases registered : w ∈ p.registry
    · exact stopped_of_asked regular.sound asked registered found'
    · have changed := asked.workers w
      rw [show r.workers[w]? = some k' from found'] at changed
      obtain ⟨k, found, rfl⟩ := Option.map_eq_some_iff.1 changed.symm
      rw [if_neg registered]
      exact ⟨regular.manned.dismissed w k found registered,
        asked.before.cancelled_of_cancelled _
          (regular.sound.cancelled w k found (.inr registered))⟩

theorem Stopping.of_change {c : CallId} {p q : Pool} {d : Option Deed} (h : p.Stopping c)
    (regular : p.Regular) (change : Change p d q) (unstarted : d ≠ some .started) :
    q.Stopping c := by
  refine ⟨status_after_unstarted change unstarted h.status, ?_⟩
  rcases h.call with ⟨u, waits⟩ | ⟨returned, halted⟩
  · by_cases called : d = some (.called c)
    · subst called
      cases change with
      | aside aside =>
        cases aside with
        | releaseReturns found _ => simp [waits] at found
      | halt wall found _ asked =>
        have returned : (p.calls.set c .returned)[c]? = some .returned :=
          List.getElem?_set_self (List.getElem?_eq_some_iff.1 found).1
        exact .inr ⟨returned, halted_of_halt regular h.status asked _⟩
      | drain wall found _ _ _ => simp [waits] at found
    · exact .inl ⟨u, call_of_change change waits called⟩
  · exact .inr ⟨returned_of_change change returned,
      halted.of_change regular.sound change unstarted⟩

end Pool

namespace Site

theorem unstarted_of_may {s : Site} {m : Move} {d : Deed} (h : m.isNoStart = true)
    (may : s.May m d) : d ≠ .started := by
  rintro rfl
  cases m with
  | task t =>
    cases t with
    | loop i => cases may.1
    | call c => cases may
    | _ => exact may
  | start => cases h
  | _ => cases may

/-- A stop that begins takes effect on the status, and waits for the current upkeep. -/
theorem begun_of_beginStop {s : Site} {c : CallId} (begins : s.beginStop.1 = some c) :
    s.beginStop.2.pool.status = .stopped ∧
      s.beginStop.2.pool.calls[c]? = some (.stopping s.pool.current) := by
  unfold beginStop at begins ⊢
  split at begins
  · obtain rfl := Option.some.inj begins
    rw [if_pos (by assumption)]
    exact ⟨rfl, List.getElem?_concat_length⟩
  · cases begins

theorem stopping_of_beginStop {s : Site} {c : CallId} (begins : s.beginStop.1 = some c) :
    s.beginStop.2.pool.Stopping c := by
  obtain ⟨status, waits⟩ := begun_of_beginStop begins
  exact ⟨.inl status, .inl ⟨s.pool.current, waits⟩⟩

end Site

/-- What every change but a start keeps, every path without a start keeps. -/
theorem Path.keeps_unstarted {start s : Site} {ms : List (Site × Move)} (path : Path start ms s)
    (unstarted : ∀ x ∈ ms, x.2.isNoStart = true) {P : Pool → Prop} (holds : P start.pool)
    (step : ∀ {p q : Pool} {d : Option Deed}, Change p d q → d ≠ some .started → P p → P q) :
    P s.pool := by
  obtain ⟨ds, does⟩ := path.does
  refine does.changes.keeps holds fun change among => step change ?_
  rintro rfl
  obtain ⟨x, hx, may⟩ := does.may _ (among _ rfl)
  exact Site.unstarted_of_may (unstarted x hx) may rfl

/-- Moves without a start keep a halted pool halted. -/
theorem Path.halted {s s' : Site} {ms : List (Site × Move)} (path : Path s ms s')
    (regular : s.pool.Regular) (halted : s.pool.Halted)
    (unstarted : ∀ x ∈ ms, x.2.isNoStart = true) : s'.pool.Regular ∧ s'.pool.Halted :=
  path.keeps_unstarted unstarted (P := fun p => p.Regular ∧ p.Halted) ⟨regular, halted⟩
    fun change other h => ⟨h.1.of_change change, h.2.of_change h.1.sound change other⟩

/-- Whenever a running pool is stopped, and as long as nobody starts it again, jobs in flight go
on as if nothing had happened: no move but their own steps touches their runs, their attempts keep
live tokens unless the pool is released, and every job that a loop took is run to its end by its
own policy, with one closing event and one outcome, if the clock could tell its deadline. Once the
stop has returned, no loop takes a job any more, the jobs that wait stay in their order, and every
worker is stopped unless its loop has a job in hand, or crashed with one. -/
theorem stop_lets_finish {name : String} {settings : Settings} {driver : Driver Job} {hub : Hub}
    {wall : Nat} {picks : Picks} {past since after : List (Site × Move)} {s s₁ s' : Site}
    {c : CallId} (came : Path (.create name settings driver hub wall picks) past s)
    (begins : s.beginStop.1 = some c) (waits : Path s.beginStop.2 since s₁)
    (goes : Path s₁ after s') (unstarted : ∀ x ∈ since ++ after, x.2.isNoStart = true) :
    (∀ i r, s'.pool.runAt i = some r → s'.Unaffected i r) ∧
    ((∀ x ∈ past ++ (s, .beginStop) :: (since ++ after), x.1.Calm x.2) →
      Path.SeenThrough settings.job (past ++ (s, .beginStop) :: (since ++ after)) s') ∧
    (s₁.pool.calls[c]? = some .returned →
      (∀ x ∈ after, x.1.takenBy x.2 = []) ∧
      ((∀ x ∈ after, x.2.leavesQueue = true) → s'.driver.waiting = s₁.driver.waiting) ∧
      ∀ (w : WorkerId) (k : Worker), s'.pool.workers[w]? = some k →
        k.isStopped = true ∨ ∃ l ∈ s'.pool.loops, s'.pool.Carries l w ∧ l.isBusy = true) := by
  have stop : Path s [(s, .beginStop)] s.beginStop.2 := .step .beginStop .here rfl
  have whole := came.trans (stop.trans (waits.trans goes))
  have create := Pool.regular_create name settings
  have regular₀ := (came.trans stop).regular create
  have regular₁ := waits.regular regular₀
  have regular' := goes.regular regular₁
  refine ⟨fun i r runs => regular'.unaffected runs, whole.seenThrough rfl, fun returned => ?_⟩
  have stopping : s₁.pool.Stopping c := by
    refine (waits.keeps_unstarted (fun x hx => unstarted x (List.mem_append_left _ hx))
      (P := fun p => p.Regular ∧ p.Stopping c) ⟨regular₀, Site.stopping_of_beginStop begins⟩ ?_).2
    exact fun change other h => ⟨h.1.of_change change, h.2.of_change h.1 change other⟩
  have halted : s₁.pool.Halted := by
    rcases stopping.call with ⟨u, waits⟩ | ⟨-, halted⟩
    · rw [returned] at waits
      cases waits
    · exact halted
  have later : ∀ x ∈ after, x.2.isNoStart = true := fun x hx =>
    unstarted x (List.mem_append_right _ hx)
  have closed : ∀ x ∈ after, x.1.pool.Closed := by
    intro x hx
    obtain ⟨ms, path, sub⟩ := goes.before hx
    obtain ⟨regular, halted⟩ := path.halted regular₁ halted fun y hy => later y (sub hy)
    exact halted.closed regular.sound
  obtain ⟨taken, waiting⟩ := goes.leaves_of_closed closed
  have halted' := (goes.halted regular₁ halted later).2
  exact ⟨taken, waiting, fun w k => halted'.stopped_or_busy regular'.sound regular'.manned⟩

namespace Sample

/-- What happens before the stop: the only worker takes a job, and another one waits. -/
def takeFirstOfTwo : List Move := [.start, .dispatch quickJob, .dispatch quickJob, .task (.loop 0)]

/-- What happens until the stop returns: watcher and forwarder end, and the call goes on. -/
def untilStopReturns : List Move :=
  [.task (.watcher 0), .task (.watcher 0), .task (.forwarder 0), .task (.forwarder 0),
    .task (.call 0)]

/-- The pool when the stop returns. -/
def stopReturned : Site := (oneWorker.plays takeFirstOfTwo).beginStop.2.plays untilStopReturns

/-- The pool when the job that was in hand is done. -/
def jobDone : Site := stopReturned.plays [.task (.loop 0), .task (.loop 0)]

end Sample

open Sample

/-- The job that was in hand ends after the stop has returned; the other one still waits, and the
worker is stopped. -/
theorem stop_lets_finish_brief :
    stopReturned.held.length = 1 ∧ jobDone.held.length = 0 ∧ jobDone.driver.waiting.length = 1 ∧
      (∀ k ∈ jobDone.pool.workers[0]?, k.isStopped = true) ∧
      ∃ ms, Path.SeenThrough {} ms jobDone ∧ (Path.finishedBy 0 ms).length = 1 := by
  have came := Site.path_of_plays takeFirstOfTwo oneWorker (by decide +kernel)
  have waits := Site.path_of_plays untilStopReturns
    (oneWorker.plays takeFirstOfTwo).beginStop.2 (by decide +kernel)
  have goes := Site.path_of_plays [.task (.loop 0), .task (.loop 0)] stopReturned
    (by decide +kernel)
  obtain ⟨-, seen, after⟩ := stop_lets_finish (c := 0) came (by decide +kernel) waits goes
    (by decide +kernel)
  obtain ⟨-, waiting, stopped⟩ := after (by decide +kernel)
  have free : ∀ l ∈ jobDone.pool.loops, l.isBusy = false := by decide +kernel
  refine ⟨by decide +kernel, by decide +kernel, ?_, fun k found => ?_, _, seen ?_, ?_⟩
  · rw [jobDone, waiting (by decide +kernel)]
    decide +kernel
  · refine (stopped 0 k found).resolve_right ?_
    rintro ⟨l, hl, -, busy⟩
    rw [free l hl] at busy
    cases busy
  · decide +kernel
  · decide +kernel

namespace Sample

/-- What happens before another stop: the only job is taken, and its loop crashes, for the clock
cannot tell its deadline. -/
def loseToClock : List Move := [.start, .dispatch maxLimitJob, .task (.loop 0), .task (.loop 0)]

/-- The pool when that stop returns. -/
def stoppedAfterLoss : Site := (plainPool.plays loseToClock).beginStop.2.plays untilStopReturns

end Sample

/-- The job was taken before the stop and no listener panicked, but when the stop has returned
nothing was told of the job and no outcome was recorded, and none will be: its worker works on for
ever and its loop takes no further step. -/
theorem stop_strands_worker :
    Path plainPool (plainPool.trail loseToClock) (plainPool.plays loseToClock) ∧
      (plainPool.plays loseToClock).beginStop.1 = some 0 ∧
      Path (plainPool.plays loseToClock).beginStop.2
        ((plainPool.plays loseToClock).beginStop.2.trail untilStopReturns) stoppedAfterLoss ∧
      (∀ x ∈ plainPool.trail loseToClock ++
        (plainPool.plays loseToClock).beginStop.2.trail untilStopReturns, x.1.Calm x.2) ∧
      stoppedAfterLoss.pool.calls[0]? = some .returned ∧
      (plainPool.trail loseToClock).flatMap (fun x => x.1.takenBy x.2) = [maxLimitJob] ∧
      Path.toldBy 0 (plainPool.trail loseToClock) = [] ∧
      Path.finishedBy 0 (plainPool.trail loseToClock) = [] ∧
      stoppedAfterLoss.driver.progress.executing = 1 ∧
      (stoppedAfterLoss.pool.workers[0]?).any (·.isWorking) = true ∧
      stoppedAfterLoss.step (.loop 0) = none := by
  have came := Site.path_of_plays loseToClock plainPool (by decide +kernel)
  have waits := Site.path_of_plays untilStopReturns
    (plainPool.plays loseToClock).beginStop.2 (by decide +kernel)
  exact ⟨came, rfl, waits, by decide +kernel, rfl, rfl, rfl, rfl, rfl, rfl, rfl⟩

end JobPool
