/-
JobPool.Pool.Service — what can be done to workers, whoever does it.

A pool creates workers and starts them again only where its status, its bound and its queue ask
for it. A `Service` asks for nothing of that: workers are created, started, asked to stop and to
end, and the root is cancelled at any time, and the loops of all generations take their steps in
any order. So what holds along every service holds of a worker by itself, however a pool uses
it. `Site.Switch` is the state machine of a worker.
-/
import JobPool.Pool.Growth
import JobPool.Pool.Path
import JobPool.Run.Course

namespace JobPool

/-- Something done to workers. -/
inductive WorkerOp where
  | spawn
  | start (w : WorkerId)
  | stop (w : WorkerId)
  /-- A worker is asked to end; whoever asks may wait for its loop then. -/
  | release (w : WorkerId)
  | cancelRoot
  /-- A loop takes a step. -/
  | step (i : LoopId)
  | notify
  /-- Something that is none of the workers' business. -/
  | elsewhere

/-- True if the operation asks worker `w` to stop. -/
def WorkerOp.stops (w : WorkerId) : WorkerOp → Bool
  | stop v | release v => w == v
  | cancelRoot => true
  | _ => false

namespace Site

/-- Workers, their loops and their tokens are left alone. The driver, the bus, the clocks and the
rest of the pool may change in any way; other tokens may be handed out and cancelled. -/
structure Elsewhere (s s' : Site) : Prop where
  workers : s'.pool.workers = s.pool.workers
  loops : s'.pool.loops = s.pool.loops
  tokens : s.pool.tokens.Before s'.pool.tokens
  root : s'.pool.tokens.root = s.pool.tokens.root
  spared : ∀ (w : WorkerId) (k : Worker), s.pool.workers[w]? = some k →
    s'.pool.tokens.isCancelled k.token = s.pool.tokens.isCancelled k.token

/-- An operation on workers. -/
inductive Performs (s : Site) : WorkerOp → Site → Prop where
  | spawn : Performs s .spawn (s.withPool (s.pool.addWorker s.wall))
  | start (w : WorkerId) : Performs s (.start w) (s.withPool (s.pool.restartWorker s.wall w).2)
  | stop (w : WorkerId) : Performs s (.stop w) (s.withPool (s.pool.stopWorker s.wall w))
  | release (w : WorkerId) :
      Performs s (.release w) (s.withPool (s.pool.releaseWorker s.wall w).2)
  | cancelRoot :
      Performs s .cancelRoot (s.withPool { s.pool with tokens := s.pool.tokens.cancelRoot })
  | step {i : LoopId} {s' : Site} (stepped : s.stepLoop i = some s') : Performs s (.step i) s'
  | notify : Performs s .notify (s.withPool s.pool.notifyAll)
  | elsewhere {s' : Site} (apart : s.Elsewhere s') : Performs s .elsewhere s'

/-- Loop `i` is the current loop of worker `w`, which is `k`. -/
def IsCurrent (s : Site) (i : LoopId) (w : WorkerId) (k : Worker) : Prop :=
  ∃ l, s.pool.loops[i]? = some l ∧ l.worker = w ∧ l.generation = k.generation

/-- What an operation makes of worker `w`, which was `k`. -/
inductive Switch (s : Site) (w : WorkerId) (k : Worker) : WorkerOp → Worker → Prop where
  /-- It is not asked to stop while it is idle, not started while it is stopped, and its current
  loop neither takes nor finishes a job. At most the right to wait for that loop is taken. -/
  | stays {op : WorkerOp} {k' : Worker} (same : { k' with loop := k.loop } = k)
      (unasked : k.isIdle = true → op ≠ .stop w ∧ op ≠ .release w)
      (unstarted : k.isStopped = true → s.pool.tokens.root = false → op ≠ .start w)
      (quiet : ∀ i, op = .step i → s.IsCurrent i w k →
        s.takes (.loop i) = none ∧ s.finishes (.loop i) = none) : Switch s w k op k'
  | takes {i : LoopId} {job : Job} (current : s.IsCurrent i w k) (idle : k.isIdle = true)
      (live : s.pool.tokens.isCancelled k.token = false)
      (taken : s.takes (.loop i) = some job) : Switch s w k (.step i) k.take
  /-- The job of its current loop is done: it stops if its token is cancelled, else it is idle. -/
  | finishes {i : LoopId} {job : Job} {success : Bool} (current : s.IsCurrent i w k)
      (working : k.isWorking = true) (done : s.finishes (.loop i) = some (job, success)) :
      Switch s w k (.step i) (k.finish (s.pool.tokens.isCancelled k.token) s.wall)
  | stops {op : WorkerOp} {k' : Worker} (asked : op = .stop w ∨ op = .release w)
      (idle : k.isIdle = true) (stopped : { k' with loop := k.loop } = k.stop s.wall) :
      Switch s w k op k'
  /-- Its current loop ends, for the root is cancelled. -/
  | ends {i : LoopId} (current : s.IsCurrent i w k) (idle : k.isIdle = true)
      (root : s.pool.tokens.root = true) : Switch s w k (.step i) (k.stop s.wall)
  | starts (stopped : k.isStopped = true) (live : s.pool.tokens.root = false) :
      Switch s w k (.start w) (k.restart s.wall s.pool.tokens.child.1 s.pool.loops.length)

end Site

/-- From `start`, operations on workers lead to a state; each is kept with the state in which it
was performed. -/
inductive Service (start : Site) : List (Site × WorkerOp) → Site → Prop where
  | here : Service start [] start
  | step {s s' : Site} {ops : List (Site × WorkerOp)} (op : WorkerOp)
      (service : Service start ops s) (performed : s.Performs op s') :
      Service start (ops ++ [(s, op)]) s'

end JobPool
