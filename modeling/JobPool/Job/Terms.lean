/-
JobPool.Job.Terms — the policy that a job actually runs under.

What a job overrides comes from the job, everything else from the pool's
defaults. At least one attempt is made; limits of zero are no limits; a job
that is not retryable has a single attempt whatever its number of attempts.
-/
import JobPool.Job.Basic
import JobPool.Settings

namespace JobPool

/-- The policy that a job runs under. -/
structure Terms where
  retryable : Bool
  /-- At least one. -/
  maxAttempts : Nat
  backoff : Backoff
  /-- The limit of one attempt. -/
  attemptTimeout : Option Duration
  /-- The limit of all attempts together. -/
  totalTimeout : Option Duration
  deriving DecidableEq, Repr, Inhabited

namespace Terms

/-- Settles overrides against the defaults of a pool. -/
def resolve (o : Overrides) (d : JobDefaults) : Terms where
  retryable := !o.notRetryable
  maxAttempts := max (o.maxAttempts.getD d.maxAttempts) 1
  backoff :=
    { delay := o.retryDelay.getD d.backoff.delay
      step := o.retryDelayStep.getD d.backoff.step
      max := o.retryMaxDelay.getD d.backoff.max
      jitter := d.backoff.jitter }
  attemptTimeout := o.attemptLimit.elim d.attemptTimeout Duration.nonZero?
  totalTimeout := o.totalLimit.elim d.totalTimeout Duration.nonZero?

/-- True if another attempt is allowed after failed attempt `n`. -/
def allowsRetryAfter (t : Terms) (n : Nat) : Bool :=
  t.retryable && decide (n < t.maxAttempts)

end Terms
end JobPool
