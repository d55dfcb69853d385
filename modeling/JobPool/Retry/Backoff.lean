/-
JobPool.Retry.Backoff — how long to wait before the next attempt.

The delay after failed attempt `n` is `delay + step * n`, at most `max`, and
then jitter is applied. Growth is linear, so what jitter did to one delay has
no bearing on the next. A sum or product too long for a duration counts as the
longest duration, which the cap then cuts.
-/
import JobPool.Retry.Jitter

namespace JobPool

/-- Linear back-off with a cap. -/
structure Backoff where
  /-- The delay before anything is added. -/
  delay : Duration
  /-- Added once per failed attempt. -/
  step : Duration
  /-- The longest delay, before jitter. -/
  max : Duration
  jitter : Jitter
  deriving DecidableEq, Repr

namespace Backoff

/-- 100 ms, 100 ms more per attempt, at most 30 s, no jitter. -/
def standard : Backoff := ⟨.ofMillis 100, .ofMillis 100, .ofSecs 30, .off⟩

instance : Inhabited Backoff := ⟨standard⟩

/-- No waiting at all. -/
def immediate : Backoff := ⟨.zero, .zero, .zero, .off⟩

/-- The delay after failed attempt `n` before the cap. -/
def grown (b : Backoff) (n : Nat) : Duration :=
  ((b.step.mul? n).bind b.delay.add?).getD .max

/-- The delay after failed attempt `n` before jitter. -/
def base (b : Backoff) (n : Nat) : Duration := (b.grown n).shorter b.max

/-- The delay after failed attempt `n`. -/
def next (b : Backoff) (pick : Pick) (n : Nat) : Duration :=
  b.jitter.apply pick (b.base n)

end Backoff
end JobPool
