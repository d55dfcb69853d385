/-
JobPool.Pool.Moves — everything that can happen at a pool, one move at a time.

A move is a step of one of the pool's tasks, a call from outside, something that
somebody else does to the driver or to the bus, or the passing of time. Moves
may come in any order, so what holds whatever moves were made holds however the
tasks take turns; the order of a session is one of them.

A state forgets what became of the jobs. `Record` keeps it: which jobs were
accepted, taken, done, lost and dropped, and which events the pool published. The main
definition is `Reached start allowed s r`: from `start`, moves that are `allowed`
lead to `s` and leave the record `r`.
-/
import JobPool.Pool.Lifecycle

namespace JobPool

/-- Something that can happen at a pool. -/
inductive Move where
  /-- A task takes a step. -/
  | task (t : PoolTask)
  | start
  | beginStop
  | beginRelease
  | spawnWorkers
  | dispatch (job : Job)
  /-- A worker, registered or not, is asked to stop. -/
  | stopWorker (w : WorkerId)
  | abandon
  /-- The jobs that wait in the driver are dropped. -/
  | clear
  /-- Somebody else puts a job into the driver. -/
  | enqueue (job : Job)
  /-- Somebody else takes a job from the driver. -/
  | take
  /-- Somebody else records an outcome. -/
  | complete (success : Bool)
  /-- An operation on the bus. -/
  | bus (op : BusOp)
  /-- Time passes, by the clock of the timers and by the wall clock. -/
  | pass (time wall : Nat)

/-- True unless the move has somebody else put jobs into the driver, take jobs
from it, or record outcomes there. -/
def Move.isOwn : Move → Bool
  | enqueue _ | take | complete _ => false
  | _ => true

/-- What became of the jobs of a pool, and what the pool published, oldest
first. -/
structure Record where
  /-- Jobs that a dispatch accepted. -/
  accepted : List Job := []
  /-- Jobs that a loop took. -/
  taken : List Job := []
  /-- Jobs that were run to their end, with their outcomes. -/
  finished : List (Job × Bool) := []
  /-- Jobs that were lost with the loop that ran them. -/
  lost : List Job := []
  /-- Jobs that were dropped while they waited. -/
  dropped : List Job := []
  /-- Events of runs and forwarders. -/
  published : List Event := []

namespace Site

/-- The outcome of a move; `none` if a task would have to wait or is over. -/
def move (s : Site) : Move → Option Site
  | .task t => s.step t
  | .start => some s.start.2
  | .beginStop => some s.beginStop.2
  | .beginRelease => some s.beginRelease.2
  | .spawnWorkers => some s.spawnWorkers.2
  | .dispatch job => some (s.dispatch job).2
  | .stopWorker w => some (s.withPool (s.pool.stopWorker s.wall w))
  | .abandon => some s.abandon
  | .clear => some { s with driver := s.driver.clear }
  | .enqueue job => some { s with driver := (s.driver.enqueue job).2 }
  | .take => some { s with driver := s.driver.dequeue.2 }
  | .complete success => some { s with driver := s.driver.complete success }
  | .bus op => some { s with hub := (s.hub.perform op).2 }
  | .pass time wall =>
    some { s with hub := { s.hub with now := s.hub.now + time }, wall := s.wall + wall }

/-- The job that a task takes from the driver in its next step, if any. -/
def takes (s : Site) : PoolTask → Option Job
  | .loop i =>
    match s.pool.loops[i]? with
    | some l =>
      match l.phase with
      | .looking => if s.pool.mayTake l then s.driver.dequeue.1 else none
      | _ => none
    | none => none
  | _ => none

/-- The job whose outcome a task records in its next step, if any. -/
def finishes (s : Site) : PoolTask → Option (Job × Bool)
  | .loop i =>
    match (s.pool.loops[i]?).map Loop.phase with
    | some (.running run) =>
      match run.phase with
      | .finished success => some (run.job, success)
      | _ => none
    | _ => none
  | _ => none

/-- The job that a task loses in its next step, if any: that of a run that was cut short. -/
def loses (s : Site) : PoolTask → Option Job
  | .loop i =>
    match (s.pool.loops[i]?).map Loop.phase with
    | some (.running run) =>
      match run.phase with
      | .unwound => some run.job
      | _ => none
    | _ => none
  | _ => none

/-- True if the clock can tell the deadline of a job that a loop takes up now. -/
def onClock (s : Site) (job : Job) : Bool := Run.onClock job s.pool.settings.job s.now

/-- The event that a task publishes in its next step, if any: a run that of its
turn, a loop that takes up a job its announcement unless its deadline is not on
the clock, a forwarder counts. -/
def publishes (s : Site) : PoolTask → Option Event
  | .loop i =>
    match (s.pool.loops[i]?).map Loop.phase with
    | some (.running run) => (run.turn s.picks s.now s.pool.tokens).bind (·.event)
    | _ => ((s.takes (.loop i)).filter s.onClock).map .before
  | .forwarder u =>
    match s.pool.upkeeps[u]? with
    | some k =>
      if s.pool.tokens.isCancelled k.token then none
      else
        match k.forwarder with
        | .watching receiver =>
          match s.driver.channel? with
          | some channel =>
            if channel.hasChanged receiver then some (.progress (channel.update receiver).1)
            else none
          | none => none
        | .polling last ticker =>
          if ticker.isDue s.now ∧ s.driver.progress ≠ last then
            some (.progress s.driver.progress)
          else none
        | _ => none
    | none => none
  | _ => none

/-- The record `r` continued by a move made in `s`. -/
def record (s : Site) (r : Record) : Move → Record
  | .dispatch job =>
    if (s.dispatch job).1 then { r with accepted := r.accepted ++ [job] } else r
  | .clear => { r with dropped := r.dropped ++ s.driver.waiting }
  | .task t =>
    { r with
      taken := r.taken ++ (s.takes t).toList
      finished := r.finished ++ (s.finishes t).toList
      lost := r.lost ++ (s.loses t).toList
      published := r.published ++ (s.publishes t).toList }
  | _ => r

/-- The jobs that loops hold, in the order of the loops. -/
def held (s : Site) : List Job := s.pool.loops.filterMap (·.job?)

end Site

/-- From `start`, moves that are `allowed` lead to a state and leave a record. -/
inductive Reached (start : Site) (allowed : Site → Move → Prop) : Site → Record → Prop where
  | here : Reached start allowed start {}
  | step {s s' : Site} {r : Record} (m : Move) (reached : Reached start allowed s r)
      (isAllowed : allowed s m) (moved : s.move m = some s') :
      Reached start allowed s' (s.record r m)

end JobPool
