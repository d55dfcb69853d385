/-
JobPool.Session.Schedule — a world run on one thread with a virtual clock.

Tasks that can take a step stand in a queue; the first one goes on until it has
to wait, then the next. A task that waits comes back into the queue when it can
take a step again, in the order in which tasks began to wait; within one change,
upkeep comes before loops, and new tasks come last. When no task can take a step
the clock jumps to the next time that some task waits for, rounded up to a whole
millisecond.

This is one order out of all those in which `World.step` lets tasks go on.
-/
import JobPool.Manager

namespace JobPool

/-- True of the tasks of upkeep. -/
def PoolTask.isUpkeep : PoolTask → Bool
  | .watcher _ | .forwarder _ => true
  | _ => false

/-- The workers that a watcher has just begun to check. -/
def Watcher.beginsChecks : Watcher → Watcher → List WorkerId
  | .ticking _, .reaping _ unchecked _ => unchecked
  | _, _ => []

/-- The tasks of `new` that `old`, an earlier state of the pool, did not have. -/
def Pool.tasksSince (old new : Pool) : List PoolTask :=
  let upkeeps := (List.range' old.upkeeps.length (new.upkeeps.length - old.upkeeps.length)).flatMap
    fun u => [.watcher u, .forwarder u]
  let checks := (List.range old.upkeeps.length).flatMap fun u =>
    match old.upkeeps[u]?, new.upkeeps[u]? with
    | some k, some k' => (k.watcher.beginsChecks k'.watcher).map (.check u)
    | _, _ => []
  let loops := (List.range' old.loops.length (new.loops.length - old.loops.length)).map .loop
  upkeeps ++ checks ++ loops

/-- A task of some pool of a world. -/
abbrev WorldTask := PoolId × PoolTask

namespace World

/-- True if a task can take a step. -/
def isReady (w : World) (t : WorldTask) : Bool := (w.step t.1 t.2).isSome

/-- True once a task takes no further step. -/
def isOver (w : World) (t : WorldTask) : Bool :=
  match w.members[t.1]? with
  | some m => m.pool.taskIsOver t.2
  | none => true

/-- The whole millisecond at which a waiting task goes on, if it waits for a time. -/
def wakeAt (w : World) (t : WorldTask) : Option Nat := do
  let m ← w.members[t.1]?
  let time ← m.pool.wakeAt t.2
  some (Instant.onGrain time)

/-- The tasks of `new` that `old`, an earlier state of the world, did not have. -/
def tasksSince (old new : World) : List WorldTask :=
  (List.range old.members.length).flatMap fun i =>
    match old.members[i]?, new.members[i]? with
    | some m, some m' => (m.pool.tasksSince m'.pool).map fun t => (i, t)
    | _, _ => []

/-- A world a moment later by the wall clock. -/
def moment (w : World) : World := { w with wall := w.wall + 1 }

end World

/-- A world, the tasks that can go on, and the tasks that wait, each in order. -/
structure Session where
  world : World := {}
  ready : List WorldTask := []
  waiting : List WorldTask := []

namespace Session

/-- Puts a changed world in place. Waiting tasks that can go on now, and new
tasks, join the queue. -/
def adopt (s : Session) (world : World) : Session :=
  let (woken, waiting) := s.waiting.partition world.isReady
  let (upkeep, others) := woken.partition fun t => t.2.isUpkeep
  { world, waiting
    ready := s.ready ++ upkeep ++ others ++ s.world.tasksSince world }

/-- Changes the world. -/
def change (s : Session) (f : World → World) : Session := s.adopt (f s.world.moment)

/-- Does something in the world that has an answer. -/
def act {α : Type} (s : Session) (f : World → α × World) : α × Session :=
  let (a, w) := f s.world.moment
  (a, s.adopt w)

/-- Does something at a pool; `none` if there is no such pool. -/
def atSite {α : Type} (s : Session) (i : PoolId) (f : Site → α × Site) : Option (α × Session) :=
  (s.world.moment.atSite i f).map fun r => (r.1, s.adopt r.2)

/-- The first task in the queue takes a step, or leaves the queue; `none` if the
queue is empty. -/
def advance (s : Session) : Option Session :=
  match s.ready with
  | [] => none
  | t :: rest =>
    let world := s.world.moment
    match world.step t.1 t.2 with
    | some world => some (s.adopt world)
    | none =>
      let waiting := if world.isOver t then s.waiting else s.waiting ++ [t]
      some { world, ready := rest, waiting }

/-- At most `n` steps of tasks in the queue. -/
def settleWithin : Nat → Session → Session
  | 0, s => s
  | n + 1, s =>
    match s.advance with
    | some s => settleWithin n s
    | none => s

/-- More steps than tasks take while the clock stands still. -/
def patience : Nat := 1099511627776

/-- Everything that can go on without time passing goes on. -/
def settle (s : Session) : Session := settleWithin patience s

/-- The earliest time that a waiting task waits for. -/
def nextWake (s : Session) : Option Nat :=
  (s.waiting.filterMap s.world.wakeAt).min?

/-- The clock jumps to `t`. -/
def jump (s : Session) (t : Nat) : Session := s.adopt { s.world with now := t }

/-- Time passes until `target`, with at most `n` jumps of the clock on the way. -/
def elapseWithin : Nat → Nat → Session → Session
  | 0, target, s => (s.settle.jump target).settle
  | n + 1, target, s =>
    let s := s.settle
    match s.nextWake with
    | some t => if t ≤ target then elapseWithin n target (s.jump t) else s.jump target
    | none => s.jump target

/-- So many milliseconds pass. Every jump on the way goes to a later whole
millisecond, so there are no more than that. -/
def elapse (s : Session) (ms : Nat) : Session :=
  (elapseWithin ms (s.world.now + ms * Duration.nanosPerMilli) s).settle

/-- True once a call has returned. -/
def hasReturned (s : Session) (c : PoolId × CallId) : Bool := s.world.isOver (c.1, .call c.2)

/-- A call goes on by one step, if it can. -/
def stepCall (s : Session) (c : PoolId × CallId) : Session :=
  (s.world.moment.step c.1 (.call c.2)).elim s s.adopt

/-- Each call goes on as far as it can; a call takes at most three steps. -/
def stepCalls (s : Session) (calls : List (PoolId × CallId)) : Session :=
  calls.foldl (fun s c => (List.range 3).foldl (fun s _ => s.stepCall c) s) s

/-- Waits for calls to return, with at most `n` jumps of the clock. -/
def awaitWithin : Nat → List (PoolId × CallId) → Session → Session
  | 0, _, s => s
  | n + 1, calls, s =>
    let s := s.stepCalls calls
    if calls.all s.hasReturned then s
    else
      let s := s.settle
      if calls.any fun c => s.world.isReady (c.1, .call c.2) then awaitWithin n calls s
      else
        match s.nextWake with
        | some t => awaitWithin n calls (s.jump t)
        | none => s

/-- Waits for calls to return; time passes as it has to. -/
def await (s : Session) (calls : List (PoolId × CallId)) : Session := awaitWithin patience calls s

end Session
end JobPool
