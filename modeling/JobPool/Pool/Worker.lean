/-
JobPool.Pool.Worker — a worker and the loops that carry it out.

A worker is idle, working or stopped. Its loop takes jobs one at a time; when it
is stopped and started again a new loop with the next generation number takes
its place, and a loop of an older generation no longer changes the worker.

The functions here are the changes of a worker by itself. That taking a job
needs the current generation and a live token is the matter of the loop.
-/
import JobPool.Run

namespace JobPool

/-- The number of a worker in its pool, in the order of creation. -/
abbrev WorkerId := Nat

/-- The number of a loop in its pool, in the order of creation. -/
abbrev LoopId := Nat

/-- What a worker is doing. -/
inductive Worker.Status where
  /-- It waits for a job. -/
  | idle
  /-- It runs a job. -/
  | working
  /-- Its loop has ended or is about to; it may be started again. -/
  | stopped
  deriving DecidableEq, Repr

/-- A worker. Times are readings of the wall clock. -/
structure Worker where
  status : Worker.Status
  idledAt : Nat
  stoppedAt : Option Nat
  generation : Nat
  /-- The token of its current loop. -/
  token : TokenId
  /-- Its current loop, until somebody waits for that loop to end. -/
  loop : Option LoopId
  deriving DecidableEq, Repr

namespace Worker

/-- A new idle worker. -/
def create (wall : Nat) (token : TokenId) (loop : LoopId) : Worker :=
  { status := .idle, idledAt := wall, stoppedAt := none, generation := 0, token,
    loop := some loop }

/-- True of an idle worker. -/
def isIdle (w : Worker) : Bool := w.status == .idle

/-- True of a working worker. -/
def isWorking (w : Worker) : Bool := w.status == .working

/-- True of a stopped worker. -/
def isStopped (w : Worker) : Bool := w.status == .stopped

/-- The worker once it is started again. -/
def restart (w : Worker) (wall : Nat) (token : TokenId) (loop : LoopId) : Worker :=
  { status := .idle, idledAt := wall, stoppedAt := none, generation := w.generation + 1, token,
    loop := some loop }

/-- The worker once it is asked to stop: at once if it is idle. A working one
stops after its job. -/
def stop (w : Worker) (wall : Nat) : Worker :=
  if w.isIdle then { w with status := .stopped, stoppedAt := some wall } else w

/-- The worker once it has taken a job. -/
def take (w : Worker) : Worker := { w with status := .working }

/-- The worker once its job is done: stopped if that was asked for meanwhile,
else idle. -/
def finish (w : Worker) (cancelled : Bool) (wall : Nat) : Worker :=
  if cancelled then { w with status := .stopped, stoppedAt := some wall }
  else { w with status := .idle, idledAt := wall }

/-- The worker once a loop of the given generation has ended. -/
def markStopped (w : Worker) (generation : Nat) (wall : Nat) : Worker :=
  if w.generation = generation ∧ ¬ w.isStopped then
    { w with status := .stopped, stoppedAt := some wall }
  else w

@[simp] theorem token_stop (w : Worker) (wall : Nat) : (w.stop wall).token = w.token := by
  unfold stop
  split <;> rfl

@[simp] theorem generation_stop (w : Worker) (wall : Nat) :
    (w.stop wall).generation = w.generation := by
  unfold stop
  split <;> rfl

theorem isStopped_stop (w : Worker) (wall : Nat) :
    (w.stop wall).isStopped = (w.isStopped || w.isIdle) := by
  cases h : w.status <;> simp [stop, isStopped, isIdle, h]

@[simp] theorem isWorking_stop (w : Worker) (wall : Nat) :
    (w.stop wall).isWorking = w.isWorking := by
  unfold stop
  split
  · rename_i idle
    have status : w.status = .idle := by simpa [isIdle] using idle
    simp only [isWorking, status]
    rfl
  · rfl

@[simp] theorem token_markStopped (w : Worker) (generation wall : Nat) :
    (w.markStopped generation wall).token = w.token := by
  unfold markStopped
  split <;> rfl

@[simp] theorem generation_markStopped (w : Worker) (generation wall : Nat) :
    (w.markStopped generation wall).generation = w.generation := by
  unfold markStopped
  split <;> rfl

theorem isStopped_markStopped (w : Worker) (wall : Nat) :
    (w.markStopped w.generation wall).isStopped = true := by
  cases h : w.status <;> simp [markStopped, isStopped, h]

theorem markStopped_of_ne {w : Worker} {generation : Nat} (h : w.generation ≠ generation)
    (wall : Nat) : w.markStopped generation wall = w := by
  simp [markStopped, h]

theorem isWorking_of_isStopped {w : Worker} (h : w.isStopped = true) : w.isWorking = false := by
  cases status : w.status <;> simp [isWorking, isStopped, status] at h ⊢

@[simp] theorem generation_finish (w : Worker) (cancelled : Bool) (wall : Nat) :
    (w.finish cancelled wall).generation = w.generation := by
  cases cancelled <;> rfl

/-- How long the worker has been idle; none unless it is idle. -/
def idleFor (w : Worker) (wall : Nat) : Option Nat :=
  if w.isIdle then some (wall - w.idledAt) else none

/-- How long the worker has been stopped; none unless it is stopped. -/
def stoppedFor (w : Worker) (wall : Nat) : Option Nat :=
  if w.isStopped then w.stoppedAt.map (wall - ·) else none

end Worker

/-- How far the loop of a worker has come. -/
inductive Loop.Phase where
  /-- About to look for a job. -/
  | looking
  /-- Running a job. -/
  | running (run : Run)
  /-- Waiting to be notified, or for the next look by itself. -/
  | parked (notified : Bool) (wake : Nat)
  /-- Ended. -/
  | ended
  /-- Ended by a panic out of an event chain, in the middle of a job. -/
  | crashed

/-- A loop of a worker. -/
structure Loop where
  worker : WorkerId
  generation : Nat
  token : TokenId
  phase : Loop.Phase

namespace Loop

/-- True once the loop takes no further step. -/
def isOver (l : Loop) : Bool :=
  match l.phase with
  | .ended | .crashed => true
  | _ => false

/-- The job that the loop holds, if any. -/
def job? (l : Loop) : Option Job :=
  match l.phase with
  | .running run => some run.job
  | _ => none

/-- A parked loop that is notified; any other stays as it is. -/
def notify (l : Loop) : Loop :=
  match l.phase with
  | .parked _ wake => { l with phase := .parked true wake }
  | _ => l

/-- The time that a waiting loop waits for, if any. -/
def wakeAt (l : Loop) : Option Nat :=
  match l.phase with
  | .running run => run.wakeAt
  | .parked _ wake => some wake
  | _ => none

end Loop
end JobPool
