/-
JobPool.Pool.Growth — starting workers for waiting jobs.

One growth round wants as many workers as there are waiting jobs beyond the idle
workers, but no more than a round may start. It starts stopped workers again, in
the order of the registry, before it creates new ones, and never registers more
workers than the bound.
-/
import JobPool.Pool.State

namespace JobPool
namespace Pool

/-- Creates a worker and registers it. -/
def addWorker (p : Pool) (wall : Nat) : Pool :=
  let (token, tokens) := p.tokens.child
  { p with
    tokens
    workers := p.workers ++ [.create wall token p.loops.length]
    registry := p.registry ++ [p.workers.length]
    loops := p.loops ++ [⟨p.workers.length, 0, token, .looking⟩] }

/-- Creates `n` workers and registers them. -/
def addWorkers (p : Pool) (wall : Nat) : Nat → Pool
  | 0 => p
  | n + 1 => (p.addWorker wall).addWorkers wall n

/-- Starts a stopped worker again. Refused if it is not stopped or the root
token is cancelled. -/
def restartWorker (p : Pool) (wall : Nat) (i : WorkerId) : Bool × Pool :=
  match p.workers[i]? with
  | none => (false, p)
  | some w =>
    if p.tokens.root || !w.isStopped then (false, p)
    else
      let (token, tokens) := p.tokens.child
      (true,
        { p with
          tokens
          workers := p.workers.set i (w.restart wall token p.loops.length)
          loops := p.loops ++ [⟨i, w.generation + 1, token, .looking⟩] })

/-- Starts stopped workers of a list again, at most `want` of them, and counts
those it started. -/
def restartStopped (wall : Nat) : List WorkerId → Nat → Pool → Nat × Pool
  | _, 0, p => (0, p)
  | [], _, p => (0, p)
  | i :: rest, want + 1, p =>
    match p.restartWorker wall i with
    | (true, p) =>
      let (n, p) := restartStopped wall rest want p
      (n + 1, p)
    | (false, p) => restartStopped wall rest (want + 1) p

/-- One growth round for so many waiting jobs; counts the workers started. -/
def grow (p : Pool) (wall : Nat) (pending : Nat) : Nat × Pool :=
  let want := min p.settings.worker.perRound (pending - p.countWorkers (·.isIdle))
  if want = 0 then (0, p)
  else
    let (started, p) := restartStopped wall p.registry want p
    let fresh := min (want - started) (p.settings.worker.bound - p.registry.length)
    (started + fresh, p.addWorkers wall fresh)

end Pool

namespace Site

/-- One growth round, if the pool is running; counts the workers started. -/
def spawnWorkers (s : Site) : Nat × Site :=
  if s.pool.status = .running then
    let (n, pool) := s.pool.grow s.wall s.driver.pending
    (n, s.withPool pool)
  else (0, s)

end Site
end JobPool
