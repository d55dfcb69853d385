/-
JobPool.Pool.Phases — the status of a pool as a machine of its own.

A pool has a status, times, workers and upkeep, and calls of start, stop and release take
effect on all of them. The status by itself is a machine of four states with three moves
(`Pool.Status.after`). `Site.Phased` says how times and workers go along with it, and
`Site.Answers` what calls answer in which status. A stop and a release take effect at once
and return later; calls that wait for each other come in turn (`Site.InTurn`).
-/
import JobPool.Pool.Moves

namespace JobPool

/-- True of a move that only workers, the driver, the bus or the clocks have to do with. -/
def Move.sparesFrame : Move → Bool
  | task (.loop _) | spawnWorkers | dispatch _ | stopWorker _ | clear | enqueue _ | take
  | complete _ | bus _ | pass _ _ => true
  | task _ | start | beginStop | beginRelease | abandon => false

namespace Pool

/-- The status after a move. -/
def Status.after : Move → Status → Status
  | .start, .pending => .running
  | .start, .stopped => .running
  | .beginStop, .running => .stopped
  | .beginRelease, _ => .released
  | _, status => status

/-- True of a status in which a pool takes jobs. -/
def Status.takesJobs : Status → Bool
  | pending | running => true
  | stopped | released => false

/-- True if all calls of stop and release have returned. -/
def isSettled (p : Pool) : Bool := p.calls.all (· == .returned)

/-- The number of watchers that have not ended. -/
def watchers (p : Pool) : Nat := p.upkeeps.countP (·.watcher != .ended)

/-- The number of forwarders that have neither ended nor crashed. -/
def forwarders (p : Pool) : Nat :=
  p.upkeeps.countP fun k => !(k.forwarder == .ended || k.forwarder == .crashed)

end Pool

namespace Site

/-- The pool is started and released only when the calls made before have returned, and somebody
can always reach it. A stop needs no such care, for in between it is refused. -/
def InTurn (s : Site) : Move → Prop
  | .start | .beginRelease => s.pool.isSettled = true
  | .abandon => False
  | _ => True

instance (s : Site) : (m : Move) → Decidable (s.InTurn m)
  | .start => inferInstanceAs (Decidable (s.pool.isSettled = true))
  | .beginRelease => inferInstanceAs (Decidable (s.pool.isSettled = true))
  | .abandon => inferInstanceAs (Decidable False)
  | .task _ | .beginStop | .spawnWorkers | .dispatch _ | .stopWorker _ | .clear | .enqueue _ | .take
  | .complete _ | .bus _ | .pass _ _ => inferInstanceAs (Decidable True)

/-- How a move that leads from `s` to `s'` goes along with the status: the pool has a new time of
start just when it comes to run, and a new time of stop just when it ceases to, and no worker
is created or started again unless it runs then. -/
structure Phased (s : Site) (m : Move) (s' : Site) : Prop where
  status : s'.pool.status = s.pool.status.after m
  startedAt : s'.pool.startedAt =
    if s.pool.status ≠ .running ∧ s'.pool.status = .running then some s.wall else s.pool.startedAt
  stoppedAt : s'.pool.stoppedAt =
    if s.pool.status = .running ∧ s'.pool.status ≠ .running then some s.wall else s.pool.stoppedAt
  hires : s'.pool.status = .running ∨
    s'.pool.workers.map (·.generation) = s.pool.workers.map (·.generation)

/-- What calls answer, and when they change nothing. -/
structure Answers (s : Site) : Prop where
  start : s.start.1 = false ↔ s.pool.status = .released
  startAgain : s.pool.status = .running → s.start = (true, s)
  stop : s.beginStop.1.isSome = true ↔ s.pool.status = .running
  stopRefused : s.pool.status ≠ .running → s.beginStop = (none, s)
  releaseAgain : s.pool.status = .released → s.beginRelease = (none, s)
  dispatch : ∀ job, (s.dispatch job).1 = true ↔
    s.pool.status.takesJobs = true ∧ (s.driver.enqueue job).1 = true
  dispatchRefused : ∀ job, (s.dispatch job).1 = false → (s.dispatch job).2 = s
  spawnWorkers : s.pool.status ≠ .running → s.spawnWorkers = (0, s)

end Site
end JobPool
