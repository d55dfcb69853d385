/-
JobPool.Pool.Tasks — the tasks of a pool and the steps they take.

A pool is carried out by several tasks: the loops of its workers, the watcher
and the forwarder of each stretch of upkeep, the checks of a reap pass, and the
calls of stop and release. `Site.step` is one step of one task; `none` means that
the task has to wait or is over. Tasks may take their steps in any order.

Between two steps anybody may use the pool, its driver and its bus. Where a
step publishes an event the step ends, so what listeners do with the pool also
comes between two steps.
-/
import JobPool.Pool.Growth

namespace JobPool

/-- A task of a pool. -/
inductive PoolTask where
  | loop (i : LoopId)
  | watcher (u : UpkeepId)
  | check (u : UpkeepId) (worker : WorkerId)
  | forwarder (u : UpkeepId)
  | call (c : CallId)
  deriving DecidableEq, Repr

namespace Pool

/-- How often an idle worker looks for jobs by itself, at least a millisecond
apart. -/
def pollInterval (p : Pool) : Duration :=
  .saturate (max p.settings.worker.idlePollInterval.nanos Duration.nanosPerMilli)

/-- The period of upkeep, at least a millisecond. -/
def watchInterval (p : Pool) : Duration :=
  .saturate (max p.settings.worker.watchInterval.nanos Duration.nanosPerMilli)

/-- True if a loop may take a job: it is the current one of its worker, and was
not asked to stop. -/
def mayTake (p : Pool) (l : Loop) : Bool :=
  p.check (·.generation == l.generation) l.worker && !p.tokens.isCancelled l.token

end Pool

namespace Site

/-! ## Loops of workers -/

/-- A loop ends; a worker of its generation is stopped. -/
def endLoop (s : Site) (i : LoopId) (l : Loop) : Site :=
  s.withPool
    ((s.pool.modifyWorker l.worker (·.markStopped l.generation s.wall)).setPhase i .ended)

/-- A run of a loop takes a step, if it does not wait. -/
def stepRun (s : Site) (i : LoopId) (run : Run) : Option Site :=
  (run.step s.stage).map fun (stage, run) =>
    let s := s.withStage stage
    s.withPool (s.pool.setPhase i (.running run))

/-- A loop takes up a job: the worker is working, and the run of the job is
announced at once, if it was not cut short by the clock. -/
def takeUp (s : Site) (i : LoopId) (l : Loop) (job : Job) : Site :=
  let run := Run.start job s.pool.settings.job s.now
  let s := s.withPool ((s.pool.modifyWorker l.worker (·.take)).setPhase i (.running run))
  (s.stepRun i run).getD s

/-- A loop looks for a job. It ends if it may take none; else it takes the
oldest job, or parks. -/
def look (s : Site) (i : LoopId) (l : Loop) : Site :=
  if s.pool.mayTake l then
    match s.driver.dequeue with
    | (some job, driver) => { s with driver }.takeUp i l job
    | (none, driver) =>
      { s with
        driver
        pool := s.pool.setPhase i
          (.parked false (Instant.after s.now s.pool.pollInterval)) }
  else s.endLoop i l

/-- The job of a loop is done: its outcome is recorded, and the worker becomes
idle, or stops if it was asked to. -/
def finishJob (s : Site) (i : LoopId) (l : Loop) (success : Bool) : Site :=
  let s := { s with driver := s.driver.complete success }
  if s.pool.check (·.generation == l.generation) l.worker then
    let cancelled := s.pool.tokens.isCancelled l.token
    let pool := s.pool.modifyWorker l.worker (·.finish cancelled s.wall)
    if cancelled then (s.withPool pool).endLoop i l
    else s.withPool (pool.setPhase i .looking)
  else s.endLoop i l

/-- One step of a loop. -/
def stepLoop (s : Site) (i : LoopId) : Option Site := do
  let l ← s.pool.loops[i]?
  match l.phase with
  | .looking => some (s.look i l)
  | .running run =>
    match run.phase with
    | .finished success => some (s.finishJob i l success)
    | .unwound => some (s.withPool (s.pool.setPhase i .crashed))
    | _ => s.stepRun i run
  | .parked notified wake =>
    if s.pool.tokens.isCancelled l.token then some (s.endLoop i l)
    else if notified ∨ wake ≤ s.now then some (s.withPool (s.pool.setPhase i .looking))
    else none
  | .ended | .crashed => none

/-! ## Upkeep -/

/-- Sets how far the watcher of an upkeep has come. -/
def setWatcher (s : Site) (u : UpkeepId) (watcher : Watcher) : Site :=
  s.withPool (s.pool.modifyUpkeep u fun k => { k with watcher })

/-- Sets how far the forwarder of an upkeep has come. -/
def setForwarder (s : Site) (u : UpkeepId) (forwarder : Forwarder) : Site :=
  s.withPool (s.pool.modifyUpkeep u fun k => { k with forwarder })

/-- Takes a worker out of the registry if it is still stopped, and asks it to
end; the answer is the loop to wait for, if any. -/
def releaseStopped (s : Site) (w : WorkerId) : Option LoopId × Site :=
  if w ∈ s.pool.registry ∧ s.pool.check (·.isStopped) w then
    let pool := { s.pool with registry := s.pool.registry.erase w }
    let (loop, pool) := pool.releaseWorker s.wall w
    (loop, s.withPool pool)
  else (none, s)

/-- One step of a watcher. On a tick all registered workers are checked; as
verdicts come in, workers to be released leave the registry, one after another;
when all are dealt with there is a growth round if jobs wait.

Cancellation is looked at before the tick. Where both are there either may be
taken, but a pass that begins after a cancellation in the same instant is one that
begins before it (`Site.pass_before_cancel`): it goes on in any case. -/
def stepWatcher (s : Site) (u : UpkeepId) : Option Site := do
  let k ← s.pool.upkeeps[u]?
  match k.watcher with
  | .fresh => some (s.setWatcher u (.ticking (.start s.now s.pool.watchInterval)))
  | .ticking ticker =>
    if s.pool.tokens.isCancelled k.token then some (s.setWatcher u .ended)
    else if ticker.isDue s.now then
      if s.pool.held then
        some (s.setWatcher u (.reaping (ticker.advance s.now) s.pool.registry []))
      else some (s.setWatcher u .ended)
    else none
  | .reaping ticker unchecked ((w, release) :: verdicts) =>
    if release then
      match s.releaseStopped w with
      | (some loop, s) => some (s.setWatcher u (.releasing ticker loop unchecked verdicts))
      | (none, s) => some (s.setWatcher u (.reaping ticker unchecked verdicts))
    else some (s.setWatcher u (.reaping ticker unchecked verdicts))
  | .reaping ticker [] [] =>
    let s := if 0 < s.driver.pending then s.spawnWorkers.2 else s
    some (s.setWatcher u (.ticking ticker))
  | .reaping _ (_ :: _) [] => none
  | .releasing ticker loop unchecked verdicts =>
    if s.pool.loopIsOver loop then some (s.setWatcher u (.reaping ticker unchecked verdicts))
    else none
  | .ended => none

/-- The check of one worker in a reap pass: an idle one past the idle limit is
stopped, a stopped one past the stopped limit is to be released. -/
def checkWorker (s : Site) (w : WorkerId) : Bool × Site :=
  match s.pool.workers[w]? with
  | none => (false, s)
  | some worker =>
    let limits := s.pool.settings.worker
    if (worker.idleFor s.wall).any (limits.maxIdleTime.nanos < ·) then
      (false, s.withPool (s.pool.stopWorker s.wall w))
    else ((worker.stoppedFor s.wall).any (limits.maxStoppedTime.nanos < ·), s)

/-- A check of a reap pass, if it is still to be made. -/
def stepCheck (s : Site) (u : UpkeepId) (w : WorkerId) : Option Site := do
  let k ← s.pool.upkeeps[u]?
  match k.watcher with
  | .reaping ticker unchecked verdicts =>
    if w ∈ unchecked then
      let (release, s) := s.checkWorker w
      some (s.setWatcher u
        (.reaping ticker (unchecked.erase w) (verdicts ++ [(w, release)])))
    else none
  | .releasing ticker loop unchecked verdicts =>
    if w ∈ unchecked then
      let (release, s) := s.checkWorker w
      some (s.setWatcher u
        (.releasing ticker loop (unchecked.erase w) (verdicts ++ [(w, release)])))
    else none
  | _ => none

/-- Publishes counts and goes on to the given state of a forwarder. -/
def publishProgress (s : Site) (u : UpkeepId) (p : Progress) (next : Forwarder) : Site :=
  match s.hub.publish (.progress p) with
  | (true, hub) => { s with hub }.setForwarder u next
  | (false, hub) => { s with hub }.setForwarder u .crashed

/-- One step of a forwarder: it publishes what the channel holds when the channel
says that something changed, or, without a channel, the counts when a look at them
shows it. Cancellation is looked at first; what is told after a cancellation in the
same instant is told before it (`Site.news_before_cancel`, `Site.look_before_cancel`). -/
def stepForwarder (s : Site) (u : UpkeepId) : Option Site := do
  let k ← s.pool.upkeeps[u]?
  let cancelled := s.pool.tokens.isCancelled k.token
  match k.forwarder with
  | .fresh =>
    match s.driver.channel? with
    | some channel => some (s.setForwarder u (.watching channel.subscribe))
    | none =>
      some (s.setForwarder u
        (.polling s.driver.progress (.start s.now s.pool.watchInterval)))
  | .watching receiver =>
    if cancelled then some (s.setForwarder u .ended)
    else
      match s.driver.channel? with
      | some channel =>
        if channel.hasChanged receiver then
          let (p, receiver) := channel.update receiver
          some (s.publishProgress u p (.watching receiver))
        else none
      | none => none
  | .polling last ticker =>
    if cancelled then some (s.setForwarder u .ended)
    else if ticker.isDue s.now then
      let ticker := ticker.advance s.now
      if s.driver.progress = last then some (s.setForwarder u (.polling last ticker))
      else some (s.publishProgress u s.driver.progress (.polling s.driver.progress ticker))
    else none
  | .ended | .crashed => none

/-! ## Calls -/

/-- Asks every worker of a list to stop. -/
def stopWorkers (s : Site) (ws : List WorkerId) : Site :=
  s.withPool (ws.foldl (fun p w => p.stopWorker s.wall w) s.pool)

/-- Empties the registry and asks its workers to end; the answer is the loops
to wait for. -/
def drainRegistry (s : Site) : List LoopId × Site :=
  let empty : Pool := { s.pool with registry := [] }
  let (loops, pool) := s.pool.registry.foldl
    (fun (acc : List LoopId × Pool) w =>
      let (loop, p) := acc.2.releaseWorker s.wall w
      (acc.1 ++ loop.toList, p))
    ([], empty)
  (loops, s.withPool pool)

/-- One step of a call. -/
def stepCall (s : Site) (c : CallId) : Option Site := do
  match ← s.pool.calls[c]? with
  | .stopping u =>
    if s.pool.upkeepIsOver u then
      let s := s.stopWorkers s.pool.registry
      some (s.withPool (s.pool.setCall c .returned))
    else none
  | .releasing u =>
    if s.pool.upkeepIsOver u then
      let (loops, s) := s.drainRegistry
      some (s.withPool (s.pool.setCall c (.draining loops)))
    else none
  | .draining loops =>
    if loops.all s.pool.loopIsOver then some (s.withPool (s.pool.setCall c .returned))
    else none
  | .returned => none

/-! ## All tasks -/

/-- One step of a task; `none` if it has to wait or is over. -/
def step (s : Site) : PoolTask → Option Site
  | .loop i => s.stepLoop i
  | .watcher u => s.stepWatcher u
  | .check u w => s.stepCheck u w
  | .forwarder u => s.stepForwarder u
  | .call c => s.stepCall c

end Site

namespace Pool

/-- The time that a waiting task waits for, if any. -/
def wakeAt (p : Pool) : PoolTask → Option Nat
  | .loop i => (p.loops[i]?).bind (·.wakeAt)
  | .watcher u =>
    match (p.upkeeps[u]?).map Upkeep.watcher with
    | some (.ticking ticker) => some ticker.due
    | _ => none
  | .forwarder u =>
    match (p.upkeeps[u]?).map Upkeep.forwarder with
    | some (.polling _ ticker) => some ticker.due
    | _ => none
  | .check .. | .call _ => none

/-- True once a task takes no further step. -/
def taskIsOver (p : Pool) : PoolTask → Bool
  | .loop i => p.loopIsOver i
  | .watcher u => (p.upkeeps[u]?).all (·.watcher == .ended)
  | .forwarder u =>
    (p.upkeeps[u]?).all fun k => k.forwarder == .ended || k.forwarder == .crashed
  | .check u w =>
    match (p.upkeeps[u]?).map Upkeep.watcher with
    | some (.reaping _ unchecked _) | some (.releasing _ _ unchecked _) => !unchecked.contains w
    | _ => true
  | .call c => (p.calls[c]?).all (· == .returned)

end Pool
end JobPool
