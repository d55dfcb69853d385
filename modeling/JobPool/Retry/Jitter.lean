/-
JobPool.Retry.Jitter — randomising a retry delay.

A jitter replaces a delay by a random whole number of milliseconds: anything
up to the delay (`full`), or half of it plus anything up to the other half
(`equal`). The random choice is an argument, so the functions here are plain;
`Jitter.support` lists what the choice can lead to.
-/
import JobPool.Time.Duration

namespace JobPool

/-- A way to choose one of the numbers `0, …, n`, for every `n`. -/
abbrev Pick := (n : Nat) → Fin (n + 1)

/-- The choice of the smallest number. -/
def Pick.least : Pick := fun _ => 0

/-- How a computed delay is randomised. -/
inductive Jitter where
  /-- The delay as it is. -/
  | off
  /-- Anything from nothing to the delay. -/
  | full
  /-- Half the delay, plus anything from nothing to half the delay. -/
  | equal
  deriving DecidableEq, Repr, Inhabited

namespace Jitter

/-- The name of a jitter. -/
def render : Jitter → String
  | off => "None"
  | full => "Full"
  | equal => "Equal"

/-- The milliseconds of `d` that a random choice ranges over. -/
def grains (d : Duration) : Nat := min d.millis Duration.maxMillis

/-- The delay after jitter. Delays below a millisecond stay as they are. -/
def apply (j : Jitter) (pick : Pick) (d : Duration) : Duration :=
  let ms := grains d
  if ms = 0 then d
  else
    match j with
    | off => d
    | full => .ofMillis (pick ms)
    | equal => .ofMillis (ms / 2 + pick (ms / 2))

/-- The smallest and the largest delay that `apply` can give, and the step
between neighbouring ones. -/
structure Support where
  least : Duration
  steps : Nat

/-- What `apply` can give for `d`: `least` and each of the next `steps`
whole milliseconds. -/
def support (j : Jitter) (d : Duration) : Support :=
  let ms := grains d
  if ms = 0 then ⟨d, 0⟩
  else
    match j with
    | off => ⟨d, 0⟩
    | full => ⟨.zero, ms⟩
    | equal => ⟨.ofMillis (ms / 2), ms / 2⟩

/-- All members of a support, in rising order. -/
def Support.members (s : Support) : List Duration :=
  (List.range (s.steps + 1)).map fun k =>
    .saturate (s.least.nanos + k * Duration.nanosPerMilli)

end Jitter
end JobPool
