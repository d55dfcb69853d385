/-
JobPool.Proofs.Retry.Backoff — the delays of a back-off are those of its formula.

Products and sums that are too long for a duration are cut to the longest one
(`nanos_grown`). The cap is a duration, so it is at most that long, and what was cut off
lies above it: the capped delay is that of the formula (`nanos_base`). A choice of
milliseconds never lengthens a delay (`Jitter.nanos_apply_le`), hence the cap is one for
delays with jitter too.
-/
import JobPool.Retry.Range

namespace JobPool

/-! ## Durations of whole milliseconds -/

namespace Duration

/-- Milliseconds that 64 bits count are not too long for a duration. -/
theorem nanos_ofMillis {n : Nat} (countable : n ≤ maxMillis) :
    (ofMillis n).nanos = n * nanosPerMilli := by
  simp only [ofMillis, nanos_saturate, maxNanos, maxMillis, nanosPerMilli] at countable ⊢
  omega

theorem nanos_getD_ofNanos? (n : Nat) : ((ofNanos? n).getD max).nanos = min n maxNanos := by
  cases short : ofNanos? n with
  | some d =>
    have le := d.nanos_le
    rw [ofNanos?_eq_some] at short
    simp only [Option.getD_some]
    omega
  | none =>
    rw [ofNanos?_eq_none] at short
    simp only [Option.getD_none, nanos_max]
    omega

end Duration

/-! ## What a choice of milliseconds comes to -/

namespace Jitter

theorem grains_eq_zero_iff (d : Duration) : grains d = 0 ↔ d.nanos < Duration.nanosPerMilli := by
  simp only [grains, Duration.millis, Duration.maxMillis, Duration.nanosPerMilli]
  omega

theorem grains_le (d : Duration) : grains d ≤ Duration.maxMillis := Nat.min_le_right ..

/-- The milliseconds that are chosen from take no longer than the delay. -/
theorem grains_mul_le (d : Duration) : grains d * Duration.nanosPerMilli ≤ d.nanos := by
  simp only [grains, Duration.millis, Duration.nanosPerMilli]
  omega

theorem apply_of_short {d : Duration} (short : grains d = 0) (j : Jitter) (pick : Pick) :
    j.apply pick d = d := by
  simp [apply, short]

theorem apply_off (pick : Pick) (d : Duration) : off.apply pick d = d := by
  simp [apply]

theorem apply_full {d : Duration} (long : grains d ≠ 0) (pick : Pick) :
    full.apply pick d = .ofMillis (pick (grains d)) := by
  simp [apply, long]

theorem apply_equal {d : Duration} (long : grains d ≠ 0) (pick : Pick) :
    equal.apply pick d = .ofMillis (grains d / 2 + pick (grains d / 2)) := by
  simp [apply, long]

/-- No choice lengthens a delay. -/
theorem nanos_apply_le (j : Jitter) (pick : Pick) (d : Duration) :
    (j.apply pick d).nanos ≤ d.nanos := by
  by_cases short : grains d = 0
  · exact Nat.le_of_eq (congrArg Duration.nanos (apply_of_short short j pick))
  have countable := grains_le d
  have inside := grains_mul_le d
  cases j with
  | off => exact Nat.le_of_eq (congrArg Duration.nanos (apply_off pick d))
  | full =>
    have chosen := (pick (grains d)).isLt
    rw [apply_full short, Duration.nanos_ofMillis (by omega)]
    exact Nat.le_trans (Nat.mul_le_mul_right _ (by omega)) inside
  | equal =>
    have chosen := (pick (grains d / 2)).isLt
    rw [apply_equal short, Duration.nanos_ofMillis (by omega)]
    exact Nat.le_trans (Nat.mul_le_mul_right _ (by omega)) inside

end Jitter

/-! ## The delays of a back-off -/

namespace Backoff

variable {b c : Backoff}

/-- Before the cap a delay is cut to the longest duration, whether the product or the sum
is too long. -/
theorem nanos_grown (b : Backoff) (n : Nat) :
    (b.grown n).nanos = min (b.delay.nanos + b.step.nanos * n) Duration.maxNanos := by
  unfold grown Duration.mul?
  cases product : Duration.ofNanos? (b.step.nanos * n) with
  | some e =>
    rw [Duration.ofNanos?_eq_some] at product
    simp only [Option.bind_some, Duration.add?, Duration.nanos_getD_ofNanos?, product]
  | none =>
    rw [Duration.ofNanos?_eq_none] at product
    simp only [Option.bind_none, Option.getD_none, Duration.nanos_max]
    omega

/-- The cap hides the cut. -/
theorem nanos_base (b : Backoff) (n : Nat) : (b.base n).nanos = b.formula n := by
  have cap := b.max.nanos_le
  rw [base, Duration.nanos_shorter, nanos_grown, formula]
  omega

theorem formula_le_max (b : Backoff) (n : Nat) : b.formula n ≤ b.max.nanos := Nat.min_le_right ..

theorem nanos_next_le (b : Backoff) (pick : Pick) (n : Nat) :
    (b.next pick n).nanos ≤ b.formula n := by
  rw [← nanos_base]
  exact b.jitter.nanos_apply_le pick (b.base n)

theorem nanos_next_of_off (plain : b.jitter = .off) (pick : Pick) (n : Nat) :
    (b.next pick n).nanos = b.formula n := by
  rw [next, plain, Jitter.apply_off, nanos_base]

/-- Longer durations and later attempts make for longer delays. -/
theorem AtMost.formula_le (h : b.AtMost c) {m n : Nat} (later : m ≤ n) :
    b.formula m ≤ c.formula n := by
  have grows : b.step.nanos * m ≤ c.step.nanos * n := Nat.mul_le_mul h.step later
  have delay := h.delay
  have max := h.max
  unfold formula
  omega

end Backoff

/-- The delay of a back-off without jitter is the one reckoned on numbers without bound,
also where a product or a sum is too long for a duration. It comes to a duration whatever the
attempt, is no longer than the cap, and grows with the attempt and with each duration of the
back-off. -/
theorem delay_follows_formula {b : Backoff} (plain : b.jitter = .off) (pick : Pick) (n : Nat) :
    (b.next pick n).nanos = min (b.delay.nanos + b.step.nanos * n) b.max.nanos ∧
      (b.next pick n).nanos ≤ b.max.nanos ∧
      ∀ (c : Backoff) (pick' : Pick) (m : Nat), c.jitter = .off → b.AtMost c → n ≤ m →
        (b.next pick n).nanos ≤ (c.next pick' m).nanos := by
  have reckoned := Backoff.nanos_next_of_off plain pick n
  refine ⟨reckoned, ?_, ?_⟩
  · rw [reckoned]
    exact b.formula_le_max n
  · intro c pick' m plain' longer later
    rw [reckoned, Backoff.nanos_next_of_off plain' pick' m]
    exact longer.formula_le later

/-- A second, the longest step and a cap of a minute, after the last attempt that 32 bits
count: the product is too long for a duration, and the delay is the minute. With a cap of two
minutes it is no shorter. -/
theorem delay_follows_formula_overlong :
    let b : Backoff := ⟨.ofSecs 1, .max, .ofSecs 60, .off⟩
    let c : Backoff := { b with max := .ofSecs 120 }
    b.step.mul? 4294967295 = none ∧ b.next .least 4294967295 = .ofSecs 60 ∧
      (b.next .least 4294967295).nanos ≤ (c.next .least 4294967295).nanos := by
  intro b c
  obtain ⟨minute, -, grows⟩ := delay_follows_formula (b := b) rfl .least 4294967295
  refine ⟨by decide +kernel, Duration.ext (minute.trans (by decide +kernel)), ?_⟩
  exact grows c .least 4294967295 rfl ⟨Nat.le_refl _, Nat.le_refl _, by decide +kernel⟩
    (Nat.le_refl _)

end JobPool
