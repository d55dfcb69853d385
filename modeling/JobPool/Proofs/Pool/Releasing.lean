/-
JobPool.Proofs.Pool.Releasing — a release leaves nothing running behind.

From the moment a release takes effect the pool refuses everything and no loop takes a job.
The release returns if the attempts in flight end, and then the loops that it waited for
are over, and with them all workers are stopped but those whose loops crashed with a job
that the clock could not tell the deadline of.
-/
import JobPool.Proofs.Pool.Orderly
import JobPool.Proofs.Pool.Rest

namespace JobPool

/-- Where all workers are stopped no loop is busy. -/
theorem Pool.Sound.idle_of_stopped {p : Pool} (h : p.Sound)
    (stopped : ∀ (w : WorkerId) (k : Worker), p.workers[w]? = some k → k.isStopped = true) :
    ∀ l ∈ p.loops, l.isBusy = false := by
  intro l hl
  rw [Bool.eq_false_iff]
  intro busy
  obtain ⟨k, carrier, fits⟩ := h.fits l hl
  have working := (fits.working_eq (fits.current_of_busy busy)).trans busy
  rw [Worker.isWorking_of_isStopped (stopped _ k carrier)] at working
  cases working

/-- A worker has at most one busy loop. -/
theorem Pool.Sound.eq_of_busy {p : Pool} (h : p.Sound) {a b : Loop} (ha : a ∈ p.loops)
    (hb : b ∈ p.loops) (busyA : a.isBusy = true) (busyB : b.isBusy = true)
    (same : a.worker = b.worker) : a = b :=
  List.inj_on_of_nodup_map h.nodup_holders (List.mem_filter.2 ⟨ha, busyA⟩)
    (List.mem_filter.2 ⟨hb, busyB⟩) same

/-- Where the release has returned the registry is empty and no loop has a job, and all workers are
stopped but those whose loops have crashed. -/
theorem Pool.Winding.cleared {c : CallId} {p : Pool} (h : p.Winding c) (sound : p.Sound)
    (returned : p.calls[c]? = some .returned) :
    p.registry = [] ∧ (∀ l ∈ p.loops, l.job? = none) ∧
      ∀ (w : WorkerId) (k : Worker), p.workers[w]? = some k → k.isStopped = true ∨
        ∃ (i : LoopId) (l : Loop), p.loops[i]? = some l ∧ p.Carries l w ∧ l.phase = .crashed := by
  obtain ⟨call, found, stage⟩ := h.stage
  obtain rfl := Option.some.inj (returned.symm.trans found)
  refine ⟨stage.1, fun l hl => ?_, stage.2⟩
  refine Option.eq_none_iff_forall_ne_some.2 fun job holds => ?_
  obtain ⟨r, running⟩ : ∃ r, l.phase = .running r := by
    cases phase : l.phase <;> simp [Loop.job?, phase] at holds ⊢
  have busy := Loop.busy_of_running running
  obtain ⟨k, carrier, fits⟩ := sound.fits l hl
  have working := (fits.working_eq (fits.current_of_busy busy)).trans busy
  -- the worker has not stopped, so the one busy loop that it has crashed
  rcases stage.2 l.worker k carrier with stopped | ⟨i, l', at_i, carried, crashed⟩
  · rw [Worker.isWorking_of_isStopped stopped] at working
    cases working
  · have same := sound.eq_of_busy (List.mem_of_getElem? at_i) hl (by simp [Loop.isBusy, crashed])
      busy ((carries_iff carrier).1 carried).1
    rw [same, running] at crashed
    cases crashed

/-- A call that has returned stays so. -/
theorem Path.returned {c : CallId} {s s' : Site} {ms : List (Site × Move)} (path : Path s ms s')
    (returned : s.pool.calls[c]? = some .returned) : s'.pool.calls[c]? = some .returned :=
  path.keeps (P := fun p => p.calls[c]? = some .returned) returned
    fun change => Pool.returned_of_change change

/-- Whenever a pool is released, from there on no loop takes a job, what waits in the driver is
left alone, all tokens are cancelled, and the pool refuses everything. The jobs in flight are seen
through all the same, and if their attempts end the release returns. When it has returned, then and
ever after the registry is empty and no loop has a job, and all workers that the pool ever had are
stopped but those whose loops crashed with a job that the clock could not tell the deadline of. -/
theorem release_leaves_nothing {name : String} {settings : Settings} {driver : Driver Job}
    {hub : Hub} {wall : Nat} {picks : Picks} {past since after : List (Site × Move)}
    {s s₁ s' : Site} {c : CallId} (came : Path (.create name settings driver hub wall picks) past s)
    (begins : s.beginRelease.1 = some c) (waits : Path s.beginRelease.2 since s₁)
    (goes : Path s₁ after s') :
    (∀ x ∈ since ++ after, x.1.takenBy x.2 = []) ∧
    ((∀ x ∈ since ++ after, x.2.leavesQueue = true) → s'.driver.waiting = s.driver.waiting) ∧
    (∀ t, s'.pool.tokens.isCancelled t = true) ∧ s'.Refuses ∧
    ((∀ x ∈ past ++ (s, .beginRelease) :: (since ++ after), x.1.Calm x.2) →
      Path.SeenThrough settings.job (past ++ (s, .beginRelease) :: (since ++ after)) s') ∧
    (∀ σ : Schedule, σ.state 0 = s.beginRelease.2 → σ.FavoursAll →
      ∃ n, (σ.state n).pool.calls[c]? = some .returned) ∧
    (s₁.pool.calls[c]? = some .returned → s'.pool.registry = [] ∧ s'.held = [] ∧
      ((∀ x ∈ past ++ (s, .beginRelease) :: (since ++ after), x.1.Calm x.2) →
        ∀ (w : WorkerId) (k : Worker), s'.pool.workers[w]? = some k → k.isStopped = true ∨
          ∃ (i : LoopId) (l : Loop), s'.pool.loops[i]? = some l ∧ s'.pool.Carries l w ∧
            l.phase = .crashed ∧
            Path.strayedBy i (past ++ (s, .beginRelease) :: (since ++ after)) ≠ [])) := by
  have release : Path s [(s, .beginRelease)] s.beginRelease.2 := .step .beginRelease .here rfl
  have follows := waits.trans goes
  have seen := (came.trans (release.trans follows)).seenThrough rfl
  obtain ⟨regular, winding⟩ := came.winding begins follows
  have closed : ∀ x ∈ since ++ after, x.1.pool.Closed := by
    intro x hx
    obtain ⟨ms, path, -⟩ := follows.before hx
    exact (came.winding begins path).2.closed
  obtain ⟨taken, waiting⟩ := follows.leaves_of_closed closed
  refine ⟨taken, fun leaves => ?_, fun t => ?_, Site.refuses_of_released winding.status, seen,
    fun σ state favours => ?_, fun returned => ?_⟩
  · exact (waiting leaves).trans (congrArg Driver.waiting s.quiet_beginRelease.driver)
  · rw [Tokens.isCancelled, winding.root, Bool.true_or]
  · exact Schedule.returns_of_beginRelease came begins state favours
  · obtain ⟨registry, jobless, cleared⟩ := winding.cleared regular.sound (goes.returned returned)
    refine ⟨registry, List.filterMap_eq_nil_iff.2 jobless, fun calm w k worker => ?_⟩
    refine (cleared w k worker).imp_right ?_
    rintro ⟨i, l, at_i, carried, crashed⟩
    exact ⟨i, l, at_i, carried, crashed, (seen calm).crashed i l at_i crashed⟩

namespace Sample

/-- What happens until the release goes on to wait for the loops, and until it returns: upkeep
ends, the registry is emptied, and the loop that has a job in hand comes to its end. -/
def untilReleaseReturns : List Move :=
  [.task (.watcher 0), .task (.watcher 0), .task (.forwarder 0), .task (.forwarder 0),
    .task (.call 0), .task (.loop 0), .task (.loop 0), .task (.call 0)]

/-- The pool when a release has begun while its only worker has a job in hand. -/
def releaseBegun : Site := (oneWorker.plays takeFirstOfTwo).beginRelease.2

/-- The pool when that release has returned. -/
def releaseReturned : Site := releaseBegun.plays untilReleaseReturns

end Sample

open Sample

/-- The job that was in hand ends after the release has begun, and the release returns; the other
job still waits then, and the worker is stopped. -/
theorem release_leaves_nothing_brief :
    releaseBegun.held.length = 1 ∧ releaseReturned.held = [] ∧
      releaseReturned.driver.waiting.length = 1 ∧
      releaseReturned.dispatch quickJob = (false, releaseReturned) ∧
      (∀ k ∈ releaseReturned.pool.workers[0]?, k.isStopped = true) ∧
      (∃ ms, Path.SeenThrough {} ms releaseReturned ∧ (Path.finishedBy 0 ms).length = 1) ∧
      ∃ σ : Schedule, σ.state 0 = releaseBegun ∧
        ∃ n, (σ.state n).pool.calls[0]? = some .returned := by
  have came := Site.path_of_plays takeFirstOfTwo oneWorker (by decide +kernel)
  have able : (releaseBegun.trail untilReleaseReturns).all
      (fun x => (x.1.move x.2).isSome) = true := by decide +kernel
  have waits := Site.path_of_plays untilReleaseReturns releaseBegun able
  obtain ⟨-, waiting, -, refuses, seen, returns, after⟩ :=
    release_leaves_nothing (c := 0) came (by decide +kernel) waits .here
  obtain ⟨-, held, done⟩ := after (by decide +kernel)
  have stopped := done (by decide +kernel)
  have uncrashed : ∀ l ∈ releaseReturned.pool.loops, l.isBusy = false := by decide +kernel
  have favours := Site.favoursAll_schedule able (by decide +kernel) (by decide +kernel)
    (by decide +kernel)
  refine ⟨by decide +kernel, held, ?_, refuses.dispatch quickJob, fun k found => ?_,
    ⟨_, seen ?_, ?_⟩, releaseBegun.schedule untilReleaseReturns able, rfl, returns _ rfl favours⟩
  · rw [releaseReturned, waiting (by decide +kernel)]
    decide +kernel
  · refine (stopped 0 k found).resolve_right ?_
    rintro ⟨i, l, at_i, -, crashed, -⟩
    have free := uncrashed l (List.mem_of_getElem? at_i)
    simp [Loop.isBusy, crashed] at free
  · decide +kernel
  · decide +kernel

namespace Sample

/-- What happens until a release returns that finds its only loop crashed. -/
def untilForsakenReturns : List Move :=
  [.task (.watcher 0), .task (.watcher 0), .task (.forwarder 0), .task (.forwarder 0),
    .task (.call 0), .task (.call 0)]

/-- The pool when that release has returned. -/
def releasedAfterLoss : Site :=
  (plainPool.plays loseToClock).beginRelease.2.plays untilForsakenReturns

end Sample

/-- The job was taken before the release and no listener panicked, but when the release has returned
nothing was told of the job and no outcome was recorded: its worker is not stopped, and the driver
counts the job as executing. -/
theorem release_forsakes_worker :
    Path plainPool (plainPool.trail loseToClock) (plainPool.plays loseToClock) ∧
      (plainPool.plays loseToClock).beginRelease.1 = some 0 ∧
      Path (plainPool.plays loseToClock).beginRelease.2
        ((plainPool.plays loseToClock).beginRelease.2.trail untilForsakenReturns)
        releasedAfterLoss ∧
      (∀ x ∈ plainPool.trail loseToClock ++
        (plainPool.plays loseToClock).beginRelease.2.trail untilForsakenReturns, x.1.Calm x.2) ∧
      releasedAfterLoss.pool.calls[0]? = some .returned ∧
      (plainPool.trail loseToClock).flatMap (fun x => x.1.takenBy x.2) = [maxLimitJob] ∧
      Path.toldBy 0 (plainPool.trail loseToClock) = [] ∧
      Path.finishedBy 0 (plainPool.trail loseToClock) = [] ∧
      releasedAfterLoss.driver.progress.executing = 1 ∧
      (releasedAfterLoss.pool.workers[0]?).any (·.isWorking) = true ∧
      (releasedAfterLoss.pool.workers[0]?).any (·.isStopped) = false ∧
      releasedAfterLoss.step (.loop 0) = none := by
  have came := Site.path_of_plays loseToClock plainPool (by decide +kernel)
  have waits := Site.path_of_plays untilForsakenReturns (plainPool.plays loseToClock).beginRelease.2
    (by decide +kernel)
  exact ⟨came, rfl, waits, by decide +kernel, rfl, rfl, rfl, rfl, rfl, rfl, rfl, rfl⟩

end JobPool
