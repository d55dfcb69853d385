/-
JobPool.Job.Basic — jobs: a name, a retry policy of their own, and behaviour.

A job may leave any part of its policy open (`Overrides`); the pool's
defaults then apply. Its behaviour says, for the first, second, … attempt, how
long that attempt runs and how it ends; an attempt may also react to the
cancellation of its token, or panic before there is anything to run.
-/
import JobPool.Job.Error

namespace JobPool

/-- The parts of the retry policy that a job brings itself. -/
structure Overrides where
  notRetryable : Bool := false
  maxAttempts : Option Nat := none
  retryDelay : Option Duration := none
  retryMaxDelay : Option Duration := none
  retryDelayStep : Option Duration := none
  attemptLimit : Option Duration := none
  totalLimit : Option Duration := none
  deriving DecidableEq, Repr, Inhabited

/-- The overrides as a record. -/
def Overrides.render (o : Overrides) : String :=
  let span := Text.optional Text.Span.render
  Text.record "Overrides"
    [("not_retryable", Text.truth o.notRetryable),
     ("max_attempts", Text.optional toString o.maxAttempts),
     ("retry_delay", span o.retryDelay),
     ("retry_max_delay", span o.retryMaxDelay),
     ("retry_delay_step", span o.retryDelayStep),
     ("max_execute_time", span o.attemptLimit),
     ("max_execute_time_total", span o.totalLimit)]

/-- How an attempt ends. -/
inductive Ending where
  | success
  | failure (e : JobError)
  | panic (p : Panic)
  deriving DecidableEq, Repr, Inhabited

/-- The error an ending stands for, if any. -/
def Ending.error? : Ending → Option JobError
  | success => none
  | failure e => some e
  | panic p => some (.ofPanic p)

/-- What one attempt does. -/
inductive Attempt where
  /-- It panics before there is anything to run. -/
  | stillborn (p : Panic)
  /-- It ends with `ending` after running for `length` nanoseconds, or never
  when there is no length. If `onCancel` is given, it ends in that way as soon
  as its token is cancelled, which it looks at first. -/
  | runs (length : Option Nat) (ending : Ending) (onCancel : Option Ending)
  deriving DecidableEq, Repr

/-- An attempt that succeeds at once. -/
def Attempt.instant : Attempt := .runs (some 0) .success none

/-- A unit of work with its own policy and behaviour. -/
structure Job where
  /-- Tells jobs apart; two jobs may share a name. -/
  id : Nat
  name : String
  overrides : Overrides
  /-- Whether an error may be followed by another attempt. -/
  shouldRetry : JobError → Bool
  /-- What the first, second, … attempt does, counted from one. -/
  attempt : Nat → Attempt

namespace Job

instance : Inhabited Job := ⟨⟨0, "", {}, JobError.isRetryable, fun _ => .instant⟩⟩

/-- Behaviour read off a list: attempt `k` does what member `k` says, and all
attempts past the end what the last member says. Without members every
attempt succeeds at once. -/
def followScript (script : List Attempt) (k : Nat) : Attempt :=
  (script[min (k - 1) (script.length - 1)]?).getD .instant

/-- The job as a record. -/
def render (j : Job) : String :=
  Text.record "JobFn"
    [("name", Text.Quoted.encode j.name), ("overrides", j.overrides.render)]

end Job
end JobPool
