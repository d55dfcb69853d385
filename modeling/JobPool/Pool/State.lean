/-
JobPool.Pool.State — the state of a pool, and of a pool in its surroundings.

A pool has workers, of which the registered ones count towards its bound; the
loops of all its workers of all generations; one stretch of upkeep for each
time it was started; and the calls of stop and release that have not returned.
A `Site` is a pool with what it works on: its driver, its bus, and the clocks.
-/
import JobPool.Pool.Worker
import JobPool.Queue.Driver

namespace JobPool

/-- What a pool is doing. -/
inductive Pool.Status where
  /-- Never started; jobs wait. -/
  | pending
  /-- Workers take jobs. -/
  | running
  /-- Stopped; it may be started again. -/
  | stopped
  /-- Released for good. -/
  | released
  deriving DecidableEq, Repr

/-- The name of a status. -/
def Pool.Status.render : Pool.Status → String
  | pending => "Pending"
  | running => "Running"
  | stopped => "Stopped"
  | released => "Released"

/-- The number of a stretch of upkeep in its pool. -/
abbrev UpkeepId := Nat

/-- The number of a call of stop or release on a pool. -/
abbrev CallId := Nat

/-- How far the watcher of a stretch of upkeep has come. -/
inductive Watcher where
  /-- Not begun. -/
  | fresh
  /-- Waiting for its next tick. -/
  | ticking (ticker : Ticker)
  /-- Reaping: the workers still to be checked, and the verdicts on checked
  ones, oldest first; a verdict is whether the worker is to be released. -/
  | reaping (ticker : Ticker) (unchecked : List WorkerId) (verdicts : List (WorkerId × Bool))
  /-- Waiting for the loop of a released worker to end. -/
  | releasing (ticker : Ticker) (loop : LoopId) (unchecked : List WorkerId)
      (verdicts : List (WorkerId × Bool))
  | ended
  deriving DecidableEq, Repr

/-- How far the forwarder of a stretch of upkeep has come. -/
inductive Forwarder where
  /-- Not begun. -/
  | fresh
  /-- Watching a channel. -/
  | watching (receiver : Receiver)
  /-- Looking at the counts from time to time. -/
  | polling (last : Progress) (ticker : Ticker)
  | ended
  /-- Ended by a panic out of an event chain. -/
  | crashed
  deriving DecidableEq, Repr

/-- What goes on beside the workers from a start of the pool on. -/
structure Upkeep where
  token : TokenId
  watcher : Watcher := .fresh
  forwarder : Forwarder := .fresh
  deriving DecidableEq, Repr

/-- True once neither watcher nor forwarder takes a further step. -/
def Upkeep.isOver (u : Upkeep) : Bool :=
  u.watcher == .ended && (u.forwarder == .ended || u.forwarder == .crashed)

/-- How far a call of stop or release has come. -/
inductive Call where
  /-- A stop that waits for upkeep to end. -/
  | stopping (upkeep : Option UpkeepId)
  /-- A release that waits for upkeep to end. -/
  | releasing (upkeep : Option UpkeepId)
  /-- A release that waits for loops to end. -/
  | draining (loops : List LoopId)
  | returned
  deriving DecidableEq, Repr

/-- A pool. Times are readings of the wall clock. -/
structure Pool where
  name : String
  settings : Settings
  status : Pool.Status := .pending
  startedAt : Option Nat := none
  stoppedAt : Option Nat := none
  tokens : Tokens := {}
  /-- Every worker the pool ever had, by number. -/
  workers : List Worker := []
  /-- The workers that the pool has now, in the order of creation. -/
  registry : List WorkerId := []
  /-- Every loop the pool ever had, by number. -/
  loops : List Loop := []
  /-- Every stretch of upkeep the pool ever had, by number. -/
  upkeeps : List Upkeep := []
  /-- The upkeep that the next stop or release ends. -/
  current : Option UpkeepId := none
  calls : List Call := []
  /-- Every attempt begun by the pool, in order. -/
  begun : List Begun := []
  /-- False once nobody can reach the pool any more. -/
  held : Bool := true

/-- A pool with its driver, its bus, what was noted, and the clocks. The
wall clock measures idle and stopped times; the time of the hub all others. -/
structure Site where
  pool : Pool
  driver : Driver Job
  hub : Hub
  wall : Nat
  picks : Picks

namespace Pool

/-- A pool that was never started. -/
def create (name : String) (settings : Settings) : Pool := { name, settings }

/-- A registered worker satisfies `p`. -/
def check (p : Pool) (f : Worker → Bool) (i : WorkerId) : Bool := (p.workers[i]?).any f

/-- The number of registered workers that satisfy `f`. -/
def countWorkers (p : Pool) (f : Worker → Bool) : Nat := p.registry.countP (p.check f)

/-- Changes one worker. -/
def modifyWorker (p : Pool) (i : WorkerId) (f : Worker → Worker) : Pool :=
  { p with workers := p.workers.modify i f }

theorem workers_modifyWorker (p : Pool) (w : WorkerId) (f : Worker → Worker) (v : WorkerId) :
    (p.modifyWorker w f).workers[v]? = (p.workers[v]?).map fun k => if w = v then f k else k :=
  List.getElem?_modify ..

/-- Changes how far one loop has come. -/
def setPhase (p : Pool) (i : LoopId) (phase : Loop.Phase) : Pool :=
  { p with loops := p.loops.modify i fun l => { l with phase } }

/-- Changes one stretch of upkeep. -/
def modifyUpkeep (p : Pool) (u : UpkeepId) (f : Upkeep → Upkeep) : Pool :=
  { p with upkeeps := p.upkeeps.modify u f }

/-- Changes how far one call has come. -/
def setCall (p : Pool) (c : CallId) (call : Call) : Pool :=
  { p with calls := p.calls.set c call }

/-- True if the loop takes no further step. -/
def loopIsOver (p : Pool) (i : LoopId) : Bool := (p.loops[i]?).all (·.isOver)

/-- True if the upkeep, if any, takes no further step. -/
def upkeepIsOver (p : Pool) (u : Option UpkeepId) : Bool :=
  (u.bind (p.upkeeps[·]?)).all (·.isOver)

/-- Every parked loop is notified. -/
def notifyAll (p : Pool) : Pool := { p with loops := p.loops.map (·.notify) }

/-- Asks a worker to stop. -/
def stopWorker (p : Pool) (wall : Nat) (i : WorkerId) : Pool :=
  match p.workers[i]? with
  | none => p
  | some w => { p.modifyWorker i (·.stop wall) with tokens := p.tokens.cancel w.token }

/-- Takes the right to wait for the end of a worker's loop. -/
def takeLoop (p : Pool) (i : WorkerId) : Option LoopId × Pool :=
  ((p.workers[i]?).bind (·.loop), p.modifyWorker i fun w => { w with loop := none })

/-- Asks a worker to stop and takes the right to wait for the end of its loop. -/
def releaseWorker (p : Pool) (wall : Nat) (i : WorkerId) : Option LoopId × Pool :=
  (p.stopWorker wall i).takeLoop i

/-- The pool as a record; `id` stands for its identity. -/
def render (p : Pool) (id : String) : String :=
  Text.record "WorkerPool"
    [("id", id), ("name", Text.Quoted.encode p.name), ("status", p.status.render),
     ("workers", toString p.registry.length)]

end Pool

namespace Site

/-- The time. -/
def now (s : Site) : Nat := s.hub.now

/-- Puts a changed pool in place. -/
def withPool (s : Site) (pool : Pool) : Site := { s with pool }

/-- What a run of the pool works with. -/
def stage (s : Site) : Stage :=
  { tokens := s.pool.tokens, begun := s.pool.begun, hub := s.hub, picks := s.picks }

/-- Puts what a run changed in place. -/
def withStage (s : Site) (st : Stage) : Site :=
  { s with hub := st.hub, pool := { s.pool with tokens := st.tokens, begun := st.begun } }

end Site
end JobPool
