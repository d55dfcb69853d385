/-
JobPool.Pool.Reaping — what a reap pass is to do to the workers.

A pass begins with a tick of the watcher. Each worker registered then is checked once, by a
task of its own, and the watcher deals with the findings one by one; a worker that was found
stopped for too long leaves the registry if it is still stopped. Between these steps anybody
may do anything, so what a pass does is said of its own steps, each in the state in which it
comes: `Pool.Stops` and `Pool.DismissesWorker` say which worker changes and that no other does,
and `Site.Reaps` what the checks and the dismissals of a pass have to do with each other.
-/
import JobPool.Pool.Path
import JobPool.Pool.Round

namespace JobPool

/-- The workers that a pass has still to check, and the findings that it has not dealt with. -/
def Watcher.pass? : Watcher → Option (List WorkerId × List (WorkerId × Bool))
  | .reaping _ unchecked findings | .releasing _ _ unchecked findings => some (unchecked, findings)
  | _ => none

/-- The finding that a watcher deals with in its next step, if any. -/
def Watcher.finding? : Watcher → Option (WorkerId × Bool)
  | .reaping _ _ findings => findings.head?
  | _ => none

namespace Pool

/-- From `p` to `q` nothing changes but how far upkeep has come. -/
def Rests (p q : Pool) : Prop := q = { p with upkeeps := q.upkeeps }

/-- From `p` to `q` other workers than `w` stay as they are, and no token is cancelled but that
of `w`. -/
structure Excepts (p : Pool) (w : WorkerId) (q : Pool) : Prop where
  workers : ∀ v ≠ w, q.workers[v]? = p.workers[v]?
  tokens : ∀ v ≠ w, ∀ k, p.workers[v]? = some k →
    q.tokens.isCancelled k.token = p.tokens.isCancelled k.token
  attempts : ∀ b ∈ p.begun, q.tokens.isCancelled b.token = p.tokens.isCancelled b.token
  upkeeps : ∀ u ∈ p.upkeeps, q.tokens.isCancelled u.token = p.tokens.isCancelled u.token

/-- From `p` to `q` the idle worker `w` is stopped. Registry and loops stay. -/
structure Stops (p : Pool) (wall : Nat) (w : WorkerId) (q : Pool) : Prop where
  rest : q = { p with workers := q.workers, tokens := q.tokens, upkeeps := q.upkeeps }
  worker : ∃ k, p.workers[w]? = some k ∧ k.isIdle = true ∧
    q.workers[w]? = some { k with status := .stopped, stoppedAt := some wall } ∧
    q.tokens.isCancelled k.token = true
  excepts : p.Excepts w q

/-- From `p` to `q` the worker `w`, which is stopped and has no loop with a job, leaves the
registry. All loops stay. -/
structure DismissesWorker (p : Pool) (w : WorkerId) (q : Pool) : Prop where
  rest : q = { p with registry := p.registry.erase w, workers := q.workers, tokens := q.tokens,
                      upkeeps := q.upkeeps }
  registered : w ∈ p.registry
  gone : w ∉ q.registry
  worker : ∃ k, p.workers[w]? = some k ∧ k.isStopped = true ∧
    q.workers[w]? = some { k with loop := none }
  jobless : ∀ l ∈ p.loops, l.worker = w → l.job? = none
  excepts : p.Excepts w q

end Pool

namespace Site

/-- The worker has been idle for longer than a worker may be. -/
def idlesTooLong (s : Site) (w : WorkerId) : Bool :=
  s.pool.check (fun k => k.isIdle &&
    decide (s.pool.settings.worker.maxIdleTime.nanos < s.wall - k.idledAt)) w

/-- The worker has been stopped for longer than a worker may be. -/
def restsTooLong (s : Site) (w : WorkerId) : Bool :=
  s.pool.check (fun k => k.isStopped &&
    k.stoppedAt.any fun since => s.pool.settings.worker.maxStoppedTime.nanos < s.wall - since) w

/-- The worker is registered and stopped. -/
def mayDismiss (s : Site) (w : WorkerId) : Bool :=
  s.pool.registry.contains w && s.pool.check (·.isStopped) w

/-- The worker that a move checks for upkeep `u`, if any. -/
def checked? (u : UpkeepId) : Site × Move → Option WorkerId
  | (_, .task (.check v w)) => if v = u then some w else none
  | _ => none

/-- The finding that a move deals with for upkeep `u`, if any. -/
def dealt? (u : UpkeepId) : Site × Move → Option (WorkerId × Bool)
  | (s, .task (.watcher v)) =>
    if v = u then (s.pool.watcherAt u).bind (·.finding?) else none
  | _ => none

/-- True of the step with which the watcher of upkeep `u` ends a pass. -/
def endsPass (u : UpkeepId) : Site × Move → Bool
  | (s, .task (.watcher v)) => v == u && (s.pool.watcherAt u).any (·.hasReaped)
  | _ => false

/-- What the checks among some moves find, in order: whether the worker is to leave. -/
def findings (u : UpkeepId) (ms : List (Site × Move)) : List (WorkerId × Bool) :=
  ms.filterMap fun x => (checked? u x).map fun w => (w, x.1.restsTooLong w)

/-- A pass of upkeep `u` that began in `start` has come to `s`. -/
structure Reaps (u : UpkeepId) (start : Site) (ms : List (Site × Move)) (s : Site) : Prop where
  /-- Every worker registered at the start is checked once, or is still to be checked, and
  findings are dealt with in the order in which they were made. -/
  progress : ∃ unchecked waiting, (s.pool.watcherAt u).bind (·.pass?) = some (unchecked, waiting) ∧
    (ms.filterMap (checked? u) ++ unchecked).Perm start.pool.registry ∧
    ms.filterMap (dealt? u) ++ waiting = findings u ms
  /-- A check stops a worker that has been idle for too long, and does nothing else. -/
  checks : ∀ x ∈ ms, ∀ x', x.1.move x.2 = some x' → ∀ w, checked? u x = some w →
    if x.1.idlesTooLong w then x.1.pool.Stops x.1.wall w x'.pool else x.1.pool.Rests x'.pool
  /-- The watcher dismisses a worker that was found stopped for too long if it still is stopped,
  and does nothing else. -/
  dismisses : ∀ x ∈ ms, ∀ x', x.1.move x.2 = some x' → x.2 = .task (.watcher u) →
    (∃ w, dealt? u x = some (w, true) ∧ x.1.mayDismiss w = true ∧
      x.1.pool.DismissesWorker w x'.pool) ∨
    (∀ w, dealt? u x = some (w, true) → x.1.mayDismiss w = false) ∧ x.1.pool.Rests x'.pool
  /-- No worker is both stopped and dismissed. -/
  apart : ∀ x ∈ ms, ∀ w, checked? u x = some w → x.1.idlesTooLong w = true →
    ∀ y ∈ ms, dealt? u y ≠ some (w, true)

end Site
end JobPool
