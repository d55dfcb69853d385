/-
JobPool.Proofs.Pool.Tasks — what a step of a task comes to.

For each kind of task one relation lists what its step can come to, with all that is true
when it is made: a loop goes through its cycle (`Site.Cycles`), a watcher patrols
(`Site.Patrols`) and has workers inspected (`Site.Inspects`), a forwarder reports
(`Site.Reports`), a call proceeds (`Site.Proceeds`). So what every step keeps is shown case
by case, and no later proof takes these steps apart again.

  §1 What is due to a loop
  §2 Loops
  §3 Watchers and their checks
  §4 Forwarders
  §5 Calls
-/
import JobPool.Proofs.Pool.Change

namespace JobPool

namespace Site

variable {s s' : Site} {i : LoopId} {l : Loop} {run : Run} {job : Job} {driver : Driver Job}

/-! ## §1 What is due to a loop -/

theorem takes_of_looking (found : s.pool.loops[i]? = some l) (looking : l.phase = .looking)
    (mayTake : s.pool.mayTake l = true) : s.takes (.loop i) = s.driver.dequeue.1 := by
  simp [takes, found, looking, mayTake]

theorem takes_of_barred (found : s.pool.loops[i]? = some l) (barred : s.pool.mayTake l = false) :
    s.takes (.loop i) = none := by
  cases phase : l.phase <;> simp [takes, found, phase, barred]

theorem takes_of_ne_looking (found : s.pool.loops[i]? = some l) (away : l.phase ≠ .looking) :
    s.takes (.loop i) = none := by
  cases phase : l.phase with
  | looking => exact absurd phase away
  | _ => simp [takes, found, phase]

theorem finishes_of_free (found : s.pool.loops[i]? = some l) (free : l.isBusy = false) :
    s.finishes (.loop i) = none := by
  cases phase : l.phase <;> simp [finishes, found, phase, Loop.isBusy] at free ⊢

theorem loses_of_free (found : s.pool.loops[i]? = some l) (free : l.isBusy = false) :
    s.loses (.loop i) = none := by
  cases phase : l.phase <;> simp [loses, found, phase, Loop.isBusy] at free ⊢

theorem publishes_of_free (found : s.pool.loops[i]? = some l) (free : l.isBusy = false) :
    s.publishes (.loop i) = ((s.takes (.loop i)).filter s.onClock).map .before := by
  cases phase : l.phase <;> simp [publishes, found, phase, Loop.isBusy] at free ⊢

/-- A loop without a job that takes none has nothing to tell of. -/
theorem publishes_of_idle (found : s.pool.loops[i]? = some l) (free : l.isBusy = false)
    (takes : s.takes (.loop i) = none) : s.publishes (.loop i) = none := by
  rw [publishes_of_free found free, takes]
  rfl

theorem publishes_of_running (found : s.pool.loops[i]? = some l)
    (running : l.phase = .running run) :
    s.publishes (.loop i) = (run.turn s.picks s.now s.pool.tokens).bind (·.event) := by
  simp [publishes, found, running]

theorem publishes_of_still (found : s.pool.loops[i]? = some l) (running : l.phase = .running run)
    (still : run.turn s.picks s.now s.pool.tokens = none) : s.publishes (.loop i) = none := by
  rw [publishes_of_running found running, still]
  rfl

/-- While the run of a loop goes on there is no outcome yet, and the job is not lost. -/
theorem finishes_and_loses_of_turn (found : s.pool.loops[i]? = some l)
    (running : l.phase = .running run) {t : Run.Turn}
    (turn : run.turn s.picks s.now s.pool.tokens = some t) :
    s.finishes (.loop i) = none ∧ s.loses (.loop i) = none := by
  cases phase : run.phase with
  | finished success => simp [Run.turn, phase] at turn
  | unwound => simp [Run.turn, phase] at turn
  | _ => simp [finishes, loses, found, running, phase]

/-! ## §2 Loops -/

/-- The site in which loop `i`, which is `l`, has taken a job up, and the run of the job is still
to take its first turn. -/
def inHand (s : Site) (i : LoopId) (l : Loop) (job : Job) (driver : Driver Job) : Site :=
  { s with
    driver
    pool := (s.pool.modifyWorker l.worker (·.take)).setPhase i
      (.running (.start job s.pool.settings.job s.now)) }

/-- What a step of loop `i`, which is `l`, comes to. -/
inductive Cycles (s : Site) (i : LoopId) (l : Loop) : Site → Prop where
  /-- It may take no job. -/
  | ends (free : l.isBusy = false) (barred : s.pool.mayTake l = false) :
      Cycles s i l (s.endLoop i l)
  /-- No job waits. -/
  | parks {driver : Driver Job} (looking : l.phase = .looking) (mayTake : s.pool.mayTake l = true)
      (empty : s.driver.dequeue = (none, driver)) :
      Cycles s i l { s with
        driver
        pool := s.pool.setPhase i (.parked false (Instant.after s.now s.pool.pollInterval)) }
  | wakes {notified : Bool} {wake : Nat} (parked : l.phase = .parked notified wake) :
      Cycles s i l (s.withPool (s.pool.setPhase i .looking))
  /-- The clock cannot tell the deadline of the job taken up, so the run is cut short at once. -/
  | strays {job : Job} {driver : Driver Job} (looking : l.phase = .looking)
      (mayTake : s.pool.mayTake l = true) (oldest : s.driver.dequeue = (some job, driver))
      (offClock : s.onClock job = false) : Cycles s i l (s.inHand i l job driver)
  /-- The job taken up is announced. -/
  | begins {job : Job} {driver : Driver Job} {s' : Site} (looking : l.phase = .looking)
      (mayTake : s.pool.mayTake l = true) (oldest : s.driver.dequeue = (some job, driver))
      (onClock : s.onClock job = true)
      (announces : (s.inHand i l job driver).stepRun i (.start job s.pool.settings.job s.now) =
        some s') : Cycles s i l s'
  | runs {run : Run} {s' : Site} (running : l.phase = .running run)
      (goes : s.stepRun i run = some s') : Cycles s i l s'
  | crashes {run : Run} (running : l.phase = .running run) (unwound : run.phase = .unwound) :
      Cycles s i l (s.withPool (s.pool.setPhase i .crashed))
  | finishes {run : Run} {success : Bool} (running : l.phase = .running run)
      (done : run.phase = .finished success)
      (current : s.pool.check (·.generation == l.generation) l.worker = true) :
      Cycles s i l { s with
        driver := s.driver.complete success
        pool := (s.pool.modifyWorker l.worker
          (·.finish (s.pool.tokens.isCancelled l.token) s.wall)).setPhase i
            (if s.pool.tokens.isCancelled l.token then .ended else .looking) }
  /-- The worker was started again meanwhile. -/
  | finishesLate {run : Run} {success : Bool} (running : l.phase = .running run)
      (done : run.phase = .finished success)
      (outdated : s.pool.check (·.generation == l.generation) l.worker = false) :
      Cycles s i l ({ s with driver := s.driver.complete success }.endLoop i l)

theorem cycles_takeUp (looking : l.phase = .looking) (mayTake : s.pool.mayTake l = true)
    (oldest : s.driver.dequeue = (some job, driver)) :
    s.Cycles i l ({ s with driver }.takeUp i l job) := by
  let run := Run.start job s.pool.settings.job s.now
  let up := s.inHand i l job driver
  have taken : { s with driver }.takeUp i l job = (up.stepRun i run).getD up := rfl
  cases onClock : s.onClock job with
  | false =>
    have cut : run.phase = .unwound := Run.phase_start_of_offClock onClock
    have still : up.stepRun i run = none := by simp [stepRun, Run.step, Run.turn, cut]
    rw [taken, still]
    exact .strays looking mayTake oldest onClock
  | true =>
    have opening : run.phase = .opening := Run.phase_start_of_onClock onClock
    obtain ⟨s', announces⟩ : ∃ s', up.stepRun i run = some s' := by
      refine Option.isSome_iff_exists.1 ?_
      simp [stepRun, Run.step, Run.turn, opening]
    rw [taken, announces]
    exact .begins looking mayTake oldest onClock announces

theorem cycles_look (looking : l.phase = .looking) : s.Cycles i l (s.look i l) := by
  unfold look
  split
  · rename_i mayTake
    split
    · rename_i oldest
      exact cycles_takeUp looking mayTake oldest
    · rename_i empty
      exact .parks looking mayTake empty
  · rename_i barred
    exact .ends (Loop.free_of_looking looking) (by simpa using barred)

/-- Once asked to end, a worker is stopped when its job is done, and the end of
its loop adds nothing to that. -/
theorem markStopped_finish (k : Worker) (generation wall : Nat) :
    (k.finish true wall).markStopped generation wall = k.finish true wall := by
  simp [Worker.markStopped, Worker.finish, Worker.isStopped]

theorem cycles_finishJob {success : Bool} (running : l.phase = .running run)
    (done : run.phase = .finished success) : s.Cycles i l (s.finishJob i l success) := by
  cases current : s.pool.check (·.generation == l.generation) l.worker with
  | false =>
    simp only [finishJob, current, Bool.false_eq_true, if_false]
    exact .finishesLate running done current
  | true =>
    have finishes := Cycles.finishes (s := s) (i := i) running done current
    simp only [finishJob, current, if_true]
    cases cancelled : s.pool.tokens.isCancelled l.token with
    | false =>
      simp only [cancelled, Bool.false_eq_true, if_false] at finishes ⊢
      exact finishes
    | true =>
      simp only [cancelled, if_true] at finishes ⊢
      have same : (s.pool.modifyWorker l.worker (·.finish true s.wall)).modifyWorker l.worker
          (·.markStopped l.generation s.wall) =
          s.pool.modifyWorker l.worker (·.finish true s.wall) := by
        simp only [Pool.modifyWorker, List.modify_modify_eq, Function.comp_def, markStopped_finish]
      rw [← same] at finishes
      exact finishes

/-- A step of a loop is one of the cases. -/
theorem cycles_of_stepLoop (h : s.stepLoop i = some s') :
    ∃ l, s.pool.loops[i]? = some l ∧ s.Cycles i l s' := by
  unfold stepLoop at h
  obtain ⟨l, found, h⟩ := Option.bind_eq_some_iff.1 h
  refine ⟨l, found, ?_⟩
  cases phase : l.phase with
  | looking =>
    simp only [phase] at h
    cases h
    exact cycles_look phase
  | running run =>
    simp only [phase] at h
    split at h
    · rename_i done
      cases h
      exact cycles_finishJob phase done
    · rename_i unwound
      cases h
      exact .crashes phase unwound
    · exact .runs phase h
  | parked notified wake =>
    simp only [phase] at h
    split at h
    · rename_i cancelled
      cases h
      exact .ends (Loop.free_of_parked phase) (by simp [Pool.mayTake, cancelled])
    · split at h
      · cases h
        exact .wakes phase
      · cases h
  | ended => simp [phase] at h
  | crashed => simp [phase] at h

/-! ## §3 Watchers and their checks -/

/-- What a step of the watcher of upkeep `k` comes to: how far the watcher is then, and the site
but for that. -/
inductive Patrols (s : Site) (k : Upkeep) : Watcher → Site → Prop where
  | begins (fresh : k.watcher = .fresh) :
      Patrols s k (.ticking (.start s.now s.pool.watchInterval)) s
  /-- It is told to end, or finds at a tick that nobody can reach the pool. -/
  | ends {ticker : Ticker} (ticking : k.watcher = .ticking ticker)
      (told : s.pool.tokens.isCancelled k.token = true ∨ s.pool.held = false) :
      Patrols s k .ended s
  | ticks {ticker : Ticker} (ticking : k.watcher = .ticking ticker)
      (live : s.pool.tokens.isCancelled k.token = false) :
      Patrols s k (.reaping (ticker.advance s.now) s.pool.registry []) s
  | keeps {ticker : Ticker} {unchecked : List WorkerId} {w : WorkerId}
      {verdicts : List (WorkerId × Bool)}
      (reaping : k.watcher = .reaping ticker unchecked ((w, false) :: verdicts)) :
      Patrols s k (.reaping ticker unchecked verdicts) s
  /-- A worker is dismissed, and its loop is waited for. -/
  | dismisses {ticker : Ticker} {unchecked : List WorkerId} {w : WorkerId}
      {verdicts : List (WorkerId × Bool)} {loop : LoopId} {s₁ : Site}
      (reaping : k.watcher = .reaping ticker unchecked ((w, true) :: verdicts))
      (reply : s.releaseStopped w = (some loop, s₁)) :
      Patrols s k (.releasing ticker loop unchecked verdicts) s₁
  | spares {ticker : Ticker} {unchecked : List WorkerId} {w : WorkerId}
      {verdicts : List (WorkerId × Bool)} {s₁ : Site}
      (reaping : k.watcher = .reaping ticker unchecked ((w, true) :: verdicts))
      (reply : s.releaseStopped w = (none, s₁)) :
      Patrols s k (.reaping ticker unchecked verdicts) s₁
  /-- The pass ends with a round of growth if jobs wait. -/
  | grows {ticker : Ticker} (reaping : k.watcher = .reaping ticker [] []) :
      Patrols s k (.ticking ticker) (if 0 < s.driver.pending then s.spawnWorkers.2 else s)
  | goesOn {ticker : Ticker} {loop : LoopId} {unchecked : List WorkerId}
      {verdicts : List (WorkerId × Bool)}
      (releasing : k.watcher = .releasing ticker loop unchecked verdicts) :
      Patrols s k (.reaping ticker unchecked verdicts) s

theorem patrols_of_stepWatcher {u : UpkeepId} (h : s.stepWatcher u = some s') :
    ∃ k watcher s₁, s.pool.upkeeps[u]? = some k ∧ s.Patrols k watcher s₁ ∧
      s' = s₁.setWatcher u watcher := by
  unfold stepWatcher at h
  obtain ⟨k, found, h⟩ := Option.bind_eq_some_iff.1 h
  split at h
  · rename_i fresh
    cases h
    exact ⟨k, _, _, found, .begins fresh, rfl⟩
  · rename_i ticking
    split at h
    · rename_i cancelled
      cases h
      exact ⟨k, _, _, found, .ends ticking (.inl cancelled), rfl⟩
    · rename_i live
      split at h
      · split at h
        · cases h
          exact ⟨k, _, _, found, .ticks ticking (by simpa using live), rfl⟩
        · rename_i unheld
          cases h
          exact ⟨k, _, _, found, .ends ticking (.inr (by simpa using unheld)), rfl⟩
      · cases h
  · rename_i w release verdicts reaping
    cases release with
    | false =>
      cases h
      exact ⟨k, _, _, found, .keeps reaping, rfl⟩
    | true =>
      rw [if_pos rfl] at h
      split at h
      · rename_i reply
        cases h
        exact ⟨k, _, _, found, .dismisses reaping reply, rfl⟩
      · rename_i reply
        cases h
        exact ⟨k, _, _, found, .spares reaping reply, rfl⟩
  · rename_i reaping
    cases h
    exact ⟨k, _, _, found, .grows reaping, rfl⟩
  · cases h
  · rename_i releasing
    split at h
    · cases h
      exact ⟨k, _, _, found, .goesOn releasing, rfl⟩
    · cases h
  · cases h

/-- How far the watcher of upkeep `k` is once worker `w` has been checked. -/
inductive Inspects (s : Site) (k : Upkeep) (w : WorkerId) : Watcher → Prop where
  | reaping {ticker : Ticker} {unchecked : List WorkerId} {verdicts : List (WorkerId × Bool)}
      (reaping : k.watcher = .reaping ticker unchecked verdicts) (mem : w ∈ unchecked) :
      Inspects s k w
        (.reaping ticker (unchecked.erase w) (verdicts ++ [(w, (s.checkWorker w).1)]))
  | releasing {ticker : Ticker} {loop : LoopId} {unchecked : List WorkerId}
      {verdicts : List (WorkerId × Bool)}
      (releasing : k.watcher = .releasing ticker loop unchecked verdicts) (mem : w ∈ unchecked) :
      Inspects s k w
        (.releasing ticker loop (unchecked.erase w) (verdicts ++ [(w, (s.checkWorker w).1)]))

theorem inspects_of_stepCheck {u : UpkeepId} {w : WorkerId} (h : s.stepCheck u w = some s') :
    ∃ k watcher, s.pool.upkeeps[u]? = some k ∧ s.Inspects k w watcher ∧
      s' = (s.checkWorker w).2.setWatcher u watcher := by
  unfold stepCheck at h
  obtain ⟨k, found, h⟩ := Option.bind_eq_some_iff.1 h
  split at h
  · rename_i reaping
    split at h
    · rename_i mem
      cases h
      exact ⟨k, _, found, .reaping reaping mem, rfl⟩
    · cases h
  · rename_i releasing
    split at h
    · rename_i mem
      cases h
      exact ⟨k, _, found, .releasing releasing mem, rfl⟩
    · cases h
  · cases h

/-! ## §4 Forwarders -/

/-- What a step of the forwarder of upkeep `k`, which is number `u`, comes to. -/
inductive Reports (s : Site) (u : UpkeepId) (k : Upkeep) : Site → Prop where
  | subscribes {c : Channel Progress} (fresh : k.forwarder = .fresh)
      (watched : s.driver.channel? = some c) (silent : s.publishes (.forwarder u) = none) :
      Reports s u k (s.setForwarder u (.watching c.subscribe))
  | polls (fresh : k.forwarder = .fresh) (unwatched : s.driver.channel? = none)
      (silent : s.publishes (.forwarder u) = none) :
      Reports s u k (s.setForwarder u
        (.polling s.driver.progress (.start s.now s.pool.watchInterval)))
  | ends (begun : (∃ r, k.forwarder = .watching r) ∨
        ∃ last ticker, k.forwarder = .polling last ticker)
      (told : s.pool.tokens.isCancelled k.token = true)
      (silent : s.publishes (.forwarder u) = none) : Reports s u k (s.setForwarder u .ended)
  /-- The channel says that something changed. -/
  | tells {r : Receiver} {c : Channel Progress} (watching : k.forwarder = .watching r)
      (live : s.pool.tokens.isCancelled k.token = false) (watched : s.driver.channel? = some c)
      (publishes : s.publishes (.forwarder u) = some (.progress c.value)) :
      Reports s u k (s.publishProgress u c.value (.watching c.subscribe))
  /-- A look at the counts finds them as they were. -/
  | looks {ticker : Ticker} (polling : k.forwarder = .polling s.driver.progress ticker)
      (live : s.pool.tokens.isCancelled k.token = false)
      (silent : s.publishes (.forwarder u) = none) :
      Reports s u k (s.setForwarder u (.polling s.driver.progress (ticker.advance s.now)))
  /-- A look at the counts finds that they changed. -/
  | finds {last : Progress} {ticker : Ticker} (polling : k.forwarder = .polling last ticker)
      (live : s.pool.tokens.isCancelled k.token = false) (news : s.driver.progress ≠ last)
      (publishes : s.publishes (.forwarder u) = some (.progress s.driver.progress)) :
      Reports s u k (s.publishProgress u s.driver.progress
        (.polling s.driver.progress (ticker.advance s.now)))

theorem reports_of_stepForwarder {u : UpkeepId} (h : s.stepForwarder u = some s') :
    ∃ k, s.pool.upkeeps[u]? = some k ∧ s.Reports u k s' := by
  unfold stepForwarder at h
  obtain ⟨k, found, h⟩ := Option.bind_eq_some_iff.1 h
  have mute (told : s.pool.tokens.isCancelled k.token = true) :
      s.publishes (.forwarder u) = none := by simp [publishes, found, told]
  refine ⟨k, found, ?_⟩
  cases stage : k.forwarder with
  | fresh =>
    have silent : s.publishes (.forwarder u) = none := by simp [publishes, found, stage]
    simp only [stage] at h
    split at h
    · rename_i watched
      cases h
      exact .subscribes stage watched silent
    · rename_i unwatched
      cases h
      exact .polls stage unwatched silent
  | watching r =>
    simp only [stage] at h
    split at h
    · rename_i told
      cases h
      exact .ends (.inl ⟨r, stage⟩) told (mute told)
    · rename_i live
      split at h
      · rename_i c watched
        split at h
        · rename_i changed
          cases h
          refine .tells stage (by simpa using live) watched ?_
          simp [publishes, found, live, stage, watched, changed, Channel.update]
        · cases h
      · cases h
  | polling last ticker =>
    simp only [stage] at h
    split at h
    · rename_i told
      cases h
      exact .ends (.inr ⟨last, ticker, stage⟩) told (mute told)
    · rename_i live
      split at h
      · rename_i due
        split at h
        · rename_i same
          cases h
          subst same
          refine .looks stage (by simpa using live) ?_
          simp [publishes, found, live, stage]
        · rename_i news
          cases h
          refine .finds stage (by simpa using live) news ?_
          simp [publishes, found, live, stage, due, news]
      · cases h
  | ended => simp [stage] at h
  | crashed => simp [stage] at h

/-! ## §5 Calls -/

/-- What a step of a call comes to: how far the call is then, and the site but for that. -/
inductive Proceeds (s : Site) : Call → Call → Site → Prop where
  | halts {u : Option UpkeepId} (ended : s.pool.upkeepIsOver u = true) :
      Proceeds s (.stopping u) .returned (s.stopWorkers s.pool.registry)
  | drains {u : Option UpkeepId} (ended : s.pool.upkeepIsOver u = true) :
      Proceeds s (.releasing u) (.draining s.drainRegistry.1) s.drainRegistry.2
  | returns {loops : List LoopId} (ended : loops.all s.pool.loopIsOver = true) :
      Proceeds s (.draining loops) .returned s

theorem proceeds_of_stepCall {c : CallId} (h : s.stepCall c = some s') :
    ∃ call call' s₁, s.pool.calls[c]? = some call ∧ s.Proceeds call call' s₁ ∧
      s' = s₁.withPool (s₁.pool.setCall c call') := by
  unfold stepCall at h
  obtain ⟨call, found, h⟩ := Option.bind_eq_some_iff.1 h
  refine ⟨call, ?_⟩
  cases call with
  | stopping u =>
    simp only at h
    split at h
    · rename_i ended
      cases h
      exact ⟨_, _, found, .halts ended, rfl⟩
    · cases h
  | releasing u =>
    simp only at h
    split at h
    · rename_i ended
      cases h
      exact ⟨_, _, found, .drains ended, rfl⟩
    · cases h
  | draining loops =>
    simp only at h
    split at h
    · rename_i ended
      cases h
      exact ⟨_, _, found, .returns ended, rfl⟩
    · cases h
  | returned => cases h

end Site
end JobPool
