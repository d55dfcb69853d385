/-
JobPool.Job.Precedence — values that a job brings, and values that its pool is set up with.

Six values of the policy of a job come from the job if it brings them, and else from the
defaults of its pool. An `Override` is one of them. A job brings values one after another
(`Overrides.bring`), and a pool can be given the same ones (`JobDefaults.put`); of two values
for one thing the later stands. Whether the job may be tried again is for the job alone to
say, and jitter for the pool.
-/
import JobPool.Job.Terms

namespace JobPool

/-- A value of the policy of a job. -/
inductive Override where
  | maxAttempts (n : Nat)
  | retryDelay (d : Duration)
  | retryMaxDelay (d : Duration)
  | retryDelayStep (d : Duration)
  | attemptLimit (d : Duration)
  | totalLimit (d : Duration)
  deriving DecidableEq, Repr

namespace Overrides

/-- The job brings a value. -/
def bring (o : Overrides) : Override → Overrides
  | .maxAttempts n => { o with maxAttempts := some n }
  | .retryDelay d => { o with retryDelay := some d }
  | .retryMaxDelay d => { o with retryMaxDelay := some d }
  | .retryDelayStep d => { o with retryDelayStep := some d }
  | .attemptLimit d => { o with attemptLimit := some d }
  | .totalLimit d => { o with totalLimit := some d }

/-- The job brings values, one after another. -/
def bringAll (o : Overrides) (vs : List Override) : Overrides := vs.foldl bring o

/-- The same job without the values that it brings. -/
def bare (o : Overrides) : Overrides := { notRetryable := o.notRetryable }

end Overrides

namespace JobDefaults

/-- The defaults with a value put in its place. -/
def put (d : JobDefaults) : Override → JobDefaults
  | .maxAttempts n => { d with maxAttempts := n }
  | .retryDelay t => { d with retryDelay := t }
  | .retryMaxDelay t => { d with retryMaxDelay := t }
  | .retryDelayStep t => { d with retryDelayStep := t }
  | .attemptLimit t => { d with attemptLimit := t }
  | .totalLimit t => { d with totalLimit := t }

/-- The defaults with values put in their places, one after another. -/
def putAll (d : JobDefaults) (vs : List Override) : JobDefaults := vs.foldl put d

/-- The defaults with all that a job brings in its place. -/
def overriddenBy (d : JobDefaults) (o : Overrides) : JobDefaults :=
  { d with
    maxAttempts := o.maxAttempts.getD d.maxAttempts
    retryDelay := o.retryDelay.getD d.retryDelay
    retryMaxDelay := o.retryMaxDelay.getD d.retryMaxDelay
    retryDelayStep := o.retryDelayStep.getD d.retryDelayStep
    attemptLimit := o.attemptLimit.getD d.attemptLimit
    totalLimit := o.totalLimit.getD d.totalLimit }

end JobDefaults

/-- At least one attempt is made, and a limit that is in force is longer than no time. -/
structure Terms.IsNormal (t : Terms) : Prop where
  one_le : 1 ≤ t.maxAttempts
  attempt_pos : ∀ limit ∈ t.attemptTimeout, 0 < limit.nanos
  total_pos : ∀ limit ∈ t.totalTimeout, 0 < limit.nanos

end JobPool
