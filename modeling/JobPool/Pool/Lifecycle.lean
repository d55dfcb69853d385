/-
JobPool.Pool.Lifecycle — starting, stopping, releasing and feeding a pool.

A start takes effect at once. A stop and a release take effect on the status at
once and then wait: for upkeep to end, and a release also for all loops. What
waits is a call, carried on by the steps of `JobPool.Pool.Tasks`; until it
returns, other calls may come in between.
-/
import JobPool.Pool.Tasks

namespace JobPool
namespace Site

/-- A new pool on a driver and a bus. The lifecycle topics are made sure of. -/
def create (name : String) (settings : Settings) (driver : Driver Job) (hub : Hub)
    (wall : Nat) (picks : Picks) : Site :=
  { pool := .create name settings, driver
    hub := hub.withBus hub.bus.ensureLifecycle
    wall, picks }

/-- Starts the pool: upkeep begins, and workers for the waiting jobs. False
once it is released; on a running pool nothing changes. -/
def start (s : Site) : Bool × Site :=
  match s.pool.status with
  | .released => (false, s)
  | .running => (true, s)
  | .pending | .stopped =>
    let (token, tokens) := s.pool.tokens.child
    let pool :=
      { s.pool with
        status := .running
        startedAt := some s.wall
        tokens
        upkeeps := s.pool.upkeeps ++ [{ token }]
        current := some s.pool.upkeeps.length }
    (true, (s.withPool pool).spawnWorkers.2)

/-- Cancels the token of the current upkeep and gives that upkeep up. -/
def endUpkeep (p : Pool) : Option UpkeepId × Pool :=
  let tokens := match p.current.bind (p.upkeeps[·]?) with
    | some u => p.tokens.cancel u.token
    | none => p.tokens
  (p.current, { p with tokens, current := none })

/-- Begins a stop. It is refused unless the pool is running; else the answer
is the call that waits for the stop to be done. -/
def beginStop (s : Site) : Option CallId × Site :=
  if s.pool.status = .running then
    let (u, p) := endUpkeep { s.pool with status := .stopped, stoppedAt := some s.wall }
    (some p.calls.length, s.withPool { p with calls := p.calls ++ [.stopping u] })
  else (none, s)

/-- Begins a release. There is nothing to do if the pool is released; else all
tokens are cancelled, and the answer is the call that waits for the rest. -/
def beginRelease (s : Site) : Option CallId × Site :=
  if s.pool.status = .released then (none, s)
  else
    let stoppedAt := if s.pool.status = .running then some s.wall else s.pool.stoppedAt
    let (u, p) := endUpkeep { s.pool with status := .released, stoppedAt }
    (some p.calls.length,
      s.withPool
        { p with tokens := p.tokens.cancelRoot, calls := p.calls ++ [.releasing u] })

/-- Hands a job to the pool. It is refused once the pool is stopped or released,
or if the driver refuses it. A running pool notifies its parked loops and has a
growth round. -/
def dispatch (s : Site) (job : Job) : Bool × Site :=
  match s.pool.status with
  | .stopped | .released => (false, s)
  | status =>
    match s.driver.enqueue job with
    | (false, driver) => (false, { s with driver })
    | (true, driver) =>
      let s := { s with driver }
      if status = .running then (true, (s.withPool s.pool.notifyAll).spawnWorkers.2)
      else (true, s)

/-- Asks the registered worker at a place of the registry to stop; false if
there is none. -/
def stopWorkerAt (s : Site) (place : Nat) : Bool × Site :=
  match s.pool.registry[place]? with
  | some w => (true, s.withPool (s.pool.stopWorker s.wall w))
  | none => (false, s)

/-- Nobody can reach the pool any more: all its tokens are cancelled. -/
def abandon (s : Site) : Site :=
  s.withPool { s.pool with held := false, tokens := s.pool.tokens.cancelRoot }

end Site
end JobPool
