/-
JobPool.Time.Clock — points in time, the grain of timers, and periodic ticks.

An instant is a number of nanoseconds since the clock started. The clock has a
last instant (`Instant.last`), and whoever needs a later one does not get it.
A timer may be set for later all the same.

Deadlines are exact; a timer, however, only fires on a whole millisecond, namely
the first one at or after its deadline (`Instant.onGrain`). A ticker is due at
once and then every period, counted from the tick before, unless it has fallen
more than `Ticker.slack` behind.
-/
import JobPool.Time.Duration

namespace JobPool

namespace Instant

/-- The last instant that the clock can tell: 2^63 - 1 s and 999999999 ns after it started. -/
def last : Nat := 9223372036854775807999999999

/-- The instant `d` after `t`; it may lie beyond the last one. -/
def after (t : Nat) (d : Duration) : Nat := t + d.nanos

/-- True if the clock can tell the instant `d` after `t`. -/
def canTell (t : Nat) (d : Duration) : Bool := decide (after t d ≤ last)

/-- The first whole millisecond at or after `t`. -/
def onGrain (t : Nat) : Nat :=
  (t + (Duration.nanosPerMilli - 1)) / Duration.nanosPerMilli * Duration.nanosPerMilli

/-- The time from `now` until `t`, nothing if `t` has passed. -/
def left (now t : Nat) : Duration := Duration.saturate (t - now)

/-- Whole milliseconds since the clock started. -/
def millis (t : Nat) : Nat := t / Duration.nanosPerMilli

theorem le_onGrain (t : Nat) : t ≤ onGrain t := by
  unfold onGrain Duration.nanosPerMilli; omega

theorem canTell_iff {t : Nat} {d : Duration} : canTell t d = true ↔ after t d ≤ last :=
  decide_eq_true_iff

/-- What the clock could not tell before it cannot tell later. -/
theorem canTell_of_le {t t' : Nat} {d : Duration} (le : t ≤ t') (h : canTell t' d = true) :
    canTell t d = true := by
  rw [canTell_iff] at h ⊢
  unfold after at h ⊢
  omega

end Instant

/-- A repeating timer: when it is due next, and its period. -/
structure Ticker where
  due : Nat
  period : Duration
  deriving DecidableEq, Repr

namespace Ticker

/-- How late a tick may be taken before the schedule is moved: 5 ms. -/
def slack : Nat := 5 * Duration.nanosPerMilli

/-- A ticker whose first tick is due at `now`. -/
def start (now : Nat) (period : Duration) : Ticker := ⟨now, period⟩

/-- True once the next tick may be taken. -/
def isDue (k : Ticker) (now : Nat) : Bool := decide (k.due ≤ now)

/-- Takes a tick at `now`. The next one is a period after the time this one
was due, or after `now` if it was taken too late. -/
def advance (k : Ticker) (now : Nat) : Ticker :=
  let base := if k.due + slack < now then now else k.due
  { k with due := base + k.period.nanos }

end Ticker
end JobPool
