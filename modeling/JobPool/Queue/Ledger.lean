/-
JobPool.Queue.Ledger — what was asked of a driver, and what became of its jobs.

A driver forgets the jobs that have left it. A `Ledger` keeps them: which jobs were
accepted, taken and dropped, in order, and which outcomes were recorded. Nothing
forbids to record an outcome while by the counts no job runs; such an outcome is
unmatched, and makes a job done that was never executing. `Driver.workAll` carries
out calls one after another, in any order, and keeps the ledger beside the driver.
-/
import JobPool.Queue.Driver

namespace JobPool

/-- What can be asked of a driver. -/
inductive DriverCall (α : Type) where
  | enqueue (job : α)
  /-- Waits for room until `timeout` after `since`. -/
  | enqueueWithin (job : α) (since : Nat) (timeout : Duration)
  | dequeue
  | clear
  | complete (success : Bool)
  deriving DecidableEq, Repr

/-- What a driver answers. -/
inductive DriverAnswer (α : Type) where
  | accepted
  | refused
  /-- The oldest job, which has left the driver. -/
  | took (job : α)
  /-- There was no job. -/
  | nothing
  | done
  /-- Drivers of this kind cannot be asked that. -/
  | unsupported
  /-- None: the call panicked. -/
  | panicked
  deriving DecidableEq, Repr

/-- The answer to a job that was accepted or refused. -/
def DriverAnswer.ofAccepted {α : Type} (ok : Bool) : DriverAnswer α :=
  if ok then .accepted else .refused

namespace Driver

variable {α : Type}

/-- Carries out one call. Only a driver over a ring can wait for room. -/
def answer (d : Driver α) : DriverCall α → DriverAnswer α × Driver α
  | .enqueue job =>
    let (ok, d) := d.enqueue job
    (.ofAccepted ok, d)
  | .enqueueWithin job since timeout =>
    match d with
    | queue q =>
      let (ok, q) := q.enqueueWithin job since timeout
      (ok.elim .panicked .ofAccepted, queue q)
    | d => (.unsupported, d)
  | .dequeue =>
    match d.dequeue with
    | (some job, d) => (.took job, d)
    | (none, d) => (.nothing, d)
  | .clear => (.done, d.clear)
  | .complete success => (.done, d.complete success)

end Driver

/-- What became of the jobs of a driver, oldest first. -/
structure Ledger (α : Type) where
  accepted : List α := []
  taken : List α := []
  dropped : List α := []
  outcomes : List Bool := []
  /-- How many outcomes were recorded while by the counts no job ran. -/
  unmatched : Nat := 0

/-- The ledger continued by a call on `d`. -/
def Ledger.enter {α : Type} (l : Ledger α) (d : Driver α) (call : DriverCall α) : Ledger α :=
  match call, (d.answer call).1 with
  | .enqueue job, .accepted | .enqueueWithin job _ _, .accepted =>
    { l with accepted := l.accepted ++ [job] }
  | .dequeue, .took job => { l with taken := l.taken ++ [job] }
  | .clear, _ => { l with dropped := l.dropped ++ d.waiting }
  | .complete success, _ =>
    { l with
      outcomes := l.outcomes ++ [success]
      unmatched := if d.executing = 0 then l.unmatched + 1 else l.unmatched }
  | _, _ => l

/-- Carries out calls one after another; the driver after them, and the ledger. -/
def Driver.workAll {α : Type} (start : Driver α) (calls : List (DriverCall α)) :
    Driver α × Ledger α :=
  calls.foldl (fun s call => ((s.1.answer call).2, s.2.enter s.1 call)) (start, {})

end JobPool
