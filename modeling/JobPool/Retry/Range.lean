/-
JobPool.Retry.Range — what a back-off and a jitter promise, in plain numbers.

`Backoff.formula` reckons a delay as if durations had no end. `Jitter.Allows` is the range
in which a delay lies after jitter, to the nanosecond. The random choice knows nothing of
nanoseconds: it is one of whole milliseconds, of which it sees as many as 64 bits count.
`Jitter.Halves` singles out the delays for which that makes no difference to their half.
-/
import JobPool.Retry.Backoff

namespace JobPool
namespace Backoff

/-- The nanoseconds to wait after failed attempt `n` before jitter, reckoned on numbers
without bound. -/
def formula (b : Backoff) (n : Nat) : Nat := min (b.delay.nanos + b.step.nanos * n) b.max.nanos

/-- No duration of `b` is longer than that of `c`. -/
structure AtMost (b c : Backoff) : Prop where
  delay : b.delay.nanos ≤ c.delay.nanos
  step : b.step.nanos ≤ c.step.nanos
  max : b.max.nanos ≤ c.max.nanos

end Backoff

/-- The choice that comes closest to `k`. -/
def Pick.near (k : Nat) : Pick := fun n => ⟨min k n, Nat.lt_succ_of_le (Nat.min_le_right k n)⟩

namespace Jitter

/-- What a jitter may make of the delay `d`: `d` itself, anything up to `d`, or anything
from half of `d` up to `d`. -/
def Allows (j : Jitter) (d v : Duration) : Prop :=
  match j with
  | off => v = d
  | full => v.nanos ≤ d.nanos
  | equal => d.nanos ≤ 2 * v.nanos ∧ v.nanos ≤ d.nanos

/-- Delays of which `equal` keeps half. Those below a millisecond stay as they are; others
have to be an even number of whole milliseconds, and no more than 64 bits count. -/
def Halves (d : Duration) : Prop :=
  d.nanos < Duration.nanosPerMilli ∨
    (d.nanos % (2 * Duration.nanosPerMilli) = 0 ∧ d.millis ≤ Duration.maxMillis)

instance (d : Duration) : Decidable (Halves d) :=
  inferInstanceAs (Decidable (d.nanos < _ ∨ (_ = 0 ∧ _ ≤ _)))

end Jitter
end JobPool
