/-
JobPool.Proofs.Pool.Overlap — calls of start, stop and release that overlap.

A stop and a release take effect at once and then wait, and while they wait other calls may
come. Of all releases one takes effect: it waits for the workers, and the others return at
once, whatever still runs. A call that has returned does nothing more, and a release ends
the pool for good, so of the calls that were made before a start only stops that wait can
go on after it. Such a stop does not know of the start: it stops all workers of the running
pool.
-/
import JobPool.Proofs.Pool.Releasing

namespace JobPool

open Pool (Change Changes Deed)

/-- A call that has returned takes no step. -/
theorem Site.step_of_returned {s : Site} {c : CallId}
    (returned : s.pool.calls[c]? = some .returned) : s.step (.call c) = none := by
  simp [step, stepCall, returned]

/-- A start leaves the calls alone that are under way. -/
theorem Site.calls_start (s : Site) : s.start.2.pool.calls = s.pool.calls := by
  obtain ⟨ds, changes, only⟩ := s.quiet_start.changes
  refine changes.keeps (P := fun p => p.calls = s.pool.calls) rfl fun change among same => ?_
  refine (Pool.calls_of_change change fun e he => ?_).trans same
  obtain rfl := Option.some.inj (only e (among e he))
  rfl

/-- While a pool serves, the calls that have not returned are stops. -/
theorem Pool.Serving.stopping_or_returned {p : Pool} (h : p.Serving) {c : CallId} {call : Call}
    (found : p.calls[c]? = some call) :
    (∃ u, call = .stopping u) ∨ call = .returned := by
  have unreleased := h.calls call (List.mem_of_getElem? found)
  cases call with
  | stopping u => exact .inl ⟨u, rfl⟩
  | returned => exact .inr rfl
  | _ => cases unreleased

/-- Of the calls that were made before a start only stops that still wait can go on after it. -/
theorem Path.stopping_of_called {s s' : Site} {after : List (Site × Move)}
    (serving : s.pool.Serving) (goes : Path s.start.2 after s') {x : Site × Move} (hx : x ∈ after)
    {c : CallId} (called : x.2 = .task (.call c)) (earlier : c < s.pool.calls.length) :
    ∃ u, s.pool.calls[c]? = some (.stopping u) := by
  obtain ⟨call, found⟩ : ∃ call, s.pool.calls[c]? = some call :=
    ⟨_, List.getElem?_eq_getElem earlier⟩
  rcases serving.stopping_or_returned found with ⟨u, rfl⟩ | rfl
  · exact ⟨u, found⟩
  · obtain ⟨ms, path, -⟩ := goes.before hx
    have able := goes.able hx
    rw [called, Site.move, Site.step_of_returned (path.returned (s.calls_start ▸ found))] at able
    cases able

/-- A stop that goes on stops every registered worker, whatever the pool is doing by then. -/
theorem Site.halts_of_step {s s' : Site} {c : CallId} {u : Option UpkeepId} (sound : s.pool.Sound)
    (waits : s.pool.calls[c]? = some (.stopping u)) (goes : s.step (.call c) = some s') :
    s'.pool.status = s.pool.status ∧ s'.pool.calls[c]? = some .returned ∧
      ∀ w ∈ s.pool.registry, ∀ k', s'.pool.workers[w]? = some k' →
        k'.isIdle = false ∧ s'.pool.tokens.isCancelled k'.token = true := by
  have asked := Pool.asked_foldl (Pool.stop_stop s.wall) (·.token_stop s.wall)
    s.pool.registry s.pool
  have ended : s.pool.upkeepIsOver u = true := by
    rw [← Bool.not_eq_false]
    intro goesOn
    simp [step, stepCall, waits, goesOn] at goes
  have outcome : s' = (s.stopWorkers s.pool.registry).withPool
      ((s.stopWorkers s.pool.registry).pool.setCall c .returned) := by
    simpa [step, stepCall, waits, ended] using goes.symm
  subst outcome
  refine ⟨(congrArg Pool.status asked.rest :), ?_, fun w registered k' found' => ?_⟩
  · have calls : (s.stopWorkers s.pool.registry).pool.calls = s.pool.calls :=
      (congrArg Pool.calls asked.rest :)
    refine List.getElem?_set_self ?_
    rw [calls]
    exact (List.getElem?_eq_some_iff.1 waits).1
  · exact Pool.stopped_of_asked sound asked registered found'

/-- However calls overlap: once a release has taken effect, every other release returns at once
and leaves everything as it is, and when the one that took effect has returned, all workers are
stopped and no loop has a job, if nothing panicked that could cut a run short. After a start, no
earlier call goes on but a stop that still waited when the pool was started, and when that one
goes on it stops every registered worker. -/
theorem overlapping_calls {name : String} {settings : Settings} {driver : Driver Job} {hub : Hub}
    {wall : Nat} {picks : Picks} {past : List (Site × Move)} {s : Site}
    (came : Path (.create name settings driver hub wall picks) past s) :
    (∀ c after s', s.beginRelease.1 = some c → Path s.beginRelease.2 after s' →
      s'.beginRelease = (none, s') ∧
      (s'.pool.calls[c]? = some .returned →
        (∀ x ∈ past ++ (s, .beginRelease) :: after, x.1.Smooth x.2) → s'.pool.registry = [] ∧
          (∀ (w : WorkerId) (k : Worker), s'.pool.workers[w]? = some k → k.isStopped = true) ∧
          ∀ l ∈ s'.pool.loops, l.isBusy = false)) ∧
    (∀ after s', s.start.1 = true → Path s.start.2 after s' →
      ∀ x ∈ after, ∀ c < s.pool.calls.length, x.2 = .task (.call c) →
        ∃ u, s.pool.calls[c]? = some (.stopping u)) ∧
    ∀ c u s', s.pool.calls[c]? = some (.stopping u) → s.step (.call c) = some s' →
      s'.pool.status = s.pool.status ∧ s'.pool.calls[c]? = some .returned ∧
        ∀ w ∈ s.pool.registry, ∀ k', s'.pool.workers[w]? = some k' →
          k'.isIdle = false ∧ s'.pool.tokens.isCancelled k'.token = true := by
  have create := Pool.regular_create name settings
  have sound := (came.regular create).sound
  have served := came.serving create (Pool.serving_create name settings)
  refine ⟨fun c after s' begins goes => ?_, fun after s' starts goes x hx c earlier called => ?_,
    fun c u s' waits goes => Site.halts_of_step sound waits goes⟩
  · have release : Path s [(s, .beginRelease)] s.beginRelease.2 := .step .beginRelease .here rfl
    have seen := (came.trans (release.trans goes)).seenThrough rfl
    obtain ⟨regular, winding⟩ := came.winding begins goes
    refine ⟨(Site.refuses_of_released winding.status).release, fun returned smooth => ?_⟩
    obtain ⟨registry, -, cleared⟩ := winding.cleared regular.sound returned
    have stopped : ∀ (w : WorkerId) (k : Worker), s'.pool.workers[w]? = some k →
        k.isStopped = true := by
      intro w k worker
      refine (cleared w k worker).resolve_right ?_
      rintro ⟨i, l, at_i, -, crashed⟩
      exact (seen fun x hx => (smooth x hx).calm).crashed i l at_i crashed
        (Path.strayedBy_of_onClock (fun x hx => (smooth x hx).onClock) i)
    exact ⟨registry, stopped, regular.sound.idle_of_stopped stopped⟩
  · refine goes.stopping_of_called (served fun released => ?_) hx called earlier
    rw [(Site.refuses_of_released released).start] at starts
    cases starts

namespace Sample

/-- What happens until the only worker has done a job and waits for another one. -/
def doOneJob : List Move :=
  [.start, .dispatch quickJob, .task (.loop 0), .task (.loop 0), .task (.loop 0), .task (.loop 0)]

/-- The pool when it is started again while a stop still waits for upkeep to end. -/
def restartedInStop : Site := (oneWorker.plays doOneJob).beginStop.2.start.2

/-- The pool when that stop has returned. -/
def restartedThenStopped : Site := restartedInStop.plays untilStopReturns

end Sample

open Sample

/-- A release returns at once while another one waits for the job that the worker has in hand. A
stop that still waits when the pool is started again then stops the worker of the running pool,
which was idle all the time; nothing else was done to it, and no call is left to start it. The race
lies in the steps that upkeep and the stop take after the start: a console, which waits for each
command of a batch before the next, does not show it. -/
theorem overlap_unprotected :
    ((∃ ms, Path oneWorker ms releaseBegun) ∧ releaseBegun.beginRelease = (none, releaseBegun) ∧
      releaseBegun.pool.loops.any (·.isBusy) = true) ∧
    (∃ ms, Path oneWorker ms restartedInStop) ∧
      Path restartedInStop (restartedInStop.trail untilStopReturns) restartedThenStopped ∧
      restartedInStop.pool.calls = [.stopping (some 0)] ∧ restartedInStop.pool.status = .running ∧
      (restartedInStop.pool.workers[0]?).any (·.isIdle) = true ∧
      ((restartedInStop.plays untilStopReturns.dropLast).pool.workers[0]?).any (·.isIdle) = true ∧
      restartedThenStopped.pool.calls = [.returned] ∧ restartedThenStopped.pool.status = .running ∧
      (restartedThenStopped.pool.workers[0]?).any (·.isStopped) = true := by
  have came := Site.path_of_plays takeFirstOfTwo oneWorker (by decide +kernel)
  have rested := Site.path_of_plays doOneJob oneWorker (by decide +kernel)
  have halts := Site.path_of_plays untilStopReturns restartedInStop (by decide +kernel)
  have stopped := Path.step .beginStop rested rfl
  refine ⟨⟨⟨_, .step .beginRelease came rfl⟩, rfl, by decide +kernel⟩,
    ⟨_, .step .start stopped rfl⟩, halts, ?_⟩
  refine ⟨rfl, ?_, ?_, ?_, rfl, ?_, ?_⟩ <;> decide +kernel

/-- When the first of two releases has returned, the job that was in hand is done. -/
theorem overlapping_calls_brief :
    releaseBegun.beginRelease = (none, releaseBegun) ∧ releaseReturned.pool.registry = [] ∧
      (releaseReturned.pool.workers[0]?).any (·.isStopped) = true ∧
      releaseReturned.beginRelease = (none, releaseReturned) := by
  have came := Site.path_of_plays takeFirstOfTwo oneWorker (by decide +kernel)
  have goes := Site.path_of_plays untilReleaseReturns releaseBegun (by decide +kernel)
  obtain ⟨ends, -, -⟩ := overlapping_calls came
  obtain ⟨again, -⟩ := ends 0 [] releaseBegun (by decide +kernel) .here
  obtain ⟨again', exited⟩ := ends 0 _ releaseReturned (by decide +kernel) goes
  obtain ⟨registry, stopped, -⟩ := exited (by decide +kernel) (by decide +kernel)
  refine ⟨again, registry, ?_, again'⟩
  cases found : releaseReturned.pool.workers[0]? with
  | none =>
    have there : (releaseReturned.pool.workers[0]?).isSome = true := by decide +kernel
    rw [found] at there
    cases there
  | some k => exact stopped 0 k found

end JobPool
