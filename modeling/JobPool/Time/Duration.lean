/-
JobPool.Time.Duration — spans of time in whole nanoseconds, with a largest value.

A duration is a natural number of nanoseconds that is at most
`Duration.maxNanos` (2^64 - 1 seconds and 999 999 999 ns). The bound is a
field of the type, so sums and products either stay below it (`add?`,
`mul?`) or are cut to it (`saturate`).
-/

namespace JobPool

/-- The length of the longest duration, in nanoseconds. -/
def Duration.maxNanos : Nat := 18446744073709551615999999999

/-- A span of time: nanoseconds up to `Duration.maxNanos`. -/
structure Duration where
  nanos : Nat
  nanos_le : nanos ≤ Duration.maxNanos
  deriving DecidableEq, Repr

namespace Duration

/-- Nanoseconds in a millisecond, the grain of the clock. -/
def nanosPerMilli : Nat := 1000000

/-- The number of milliseconds that fit into 64 bits. -/
def maxMillis : Nat := 18446744073709551615

/-- No time at all. -/
def zero : Duration := ⟨0, by decide⟩

/-- The longest duration. -/
def max : Duration := ⟨maxNanos, Nat.le_refl _⟩

instance : Inhabited Duration := ⟨zero⟩

/-- The duration of `n` nanoseconds, if it is not too long. -/
def ofNanos? (n : Nat) : Option Duration :=
  if h : n ≤ maxNanos then some ⟨n, h⟩ else none

/-- The duration of `n` nanoseconds, cut to the longest one. -/
def saturate (n : Nat) : Duration := ⟨min n maxNanos, Nat.min_le_right _ _⟩

/-- The duration of `n` milliseconds, cut to the longest one. -/
def ofMillis (n : Nat) : Duration := saturate (n * nanosPerMilli)

/-- The duration of `n` seconds, cut to the longest one. -/
def ofSecs (n : Nat) : Duration := saturate (n * 1000000000)

/-- Whole milliseconds in `d`. -/
def millis (d : Duration) : Nat := d.nanos / nanosPerMilli

/-- True of the empty duration only. -/
def isZero (d : Duration) : Bool := d.nanos == 0

/-- `d` repeated `n` times, if that is not too long. -/
def mul? (d : Duration) (n : Nat) : Option Duration := ofNanos? (d.nanos * n)

/-- `d` followed by `e`, if that is not too long. -/
def add? (d e : Duration) : Option Duration := ofNanos? (d.nanos + e.nanos)

/-- The shorter of two durations. -/
def shorter (d e : Duration) : Duration := if d.nanos ≤ e.nanos then d else e

/-- `none` for the empty duration: a limit of zero is no limit. -/
def nonZero? (d : Duration) : Option Duration := if d.isZero then none else some d

@[ext] theorem ext {d e : Duration} (h : d.nanos = e.nanos) : d = e := by
  cases d; cases e; simp_all

@[simp] theorem nanos_zero : zero.nanos = 0 := rfl

@[simp] theorem nanos_max : max.nanos = maxNanos := rfl

@[simp] theorem nanos_saturate (n : Nat) : (saturate n).nanos = min n maxNanos := rfl

@[simp] theorem nanos_shorter (d e : Duration) : (d.shorter e).nanos = min d.nanos e.nanos := by
  unfold shorter; split <;> omega

theorem ofNanos?_eq_some {n : Nat} {d : Duration} : ofNanos? n = some d ↔ d.nanos = n := by
  unfold ofNanos?
  split
  · rename_i h
    constructor
    · intro e; cases e; rfl
    · intro e; cases d; simp_all
  · rename_i h
    constructor
    · intro e; cases e
    · intro e; exact absurd (e ▸ d.nanos_le) h

theorem ofNanos?_eq_none {n : Nat} : ofNanos? n = none ↔ maxNanos < n := by
  unfold ofNanos?
  split <;> simp <;> omega

@[simp] theorem isZero_iff {d : Duration} : d.isZero = true ↔ d.nanos = 0 := by
  simp [isZero]

end Duration
end JobPool
