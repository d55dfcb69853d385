/-
JobPool.Proofs.Retry.Jitter — where a delay can lie after jitter.

Which delays come out is settled exactly by `Jitter.mem_support_iff`: the choice is one of
whole milliseconds, and `Jitter.support` lists what it leads to. The range that a jitter
promises is one of nanoseconds. Nothing lies above it. Below it lies what is lost on the way
to `equal`'s half: the part of a millisecond, the odd millisecond of a halving, and all that
64 bits do not count. `Jitter.halves_iff` says that nothing else is lost, and that each of the
three shows in the smallest choice.
-/
import JobPool.Proofs.Retry.Backoff

namespace JobPool

theorem Pick.near_of_le {k n : Nat} (le : k ≤ n) : (Pick.near k n).val = k := Nat.min_eq_left le

/-- A choice among `0, …, n` can come out as any of them, and as nothing else. -/
theorem Pick.exists_iff {α : Type} (n : Nat) (f : Nat → α) (a : α) :
    (∃ pick : Pick, f (pick n) = a) ↔ ∃ k, k ≤ n ∧ f k = a := by
  constructor
  · intro ⟨pick, comes⟩
    exact ⟨pick n, Nat.le_of_lt_succ (pick n).isLt, comes⟩
  · intro ⟨k, le, comes⟩
    exact ⟨near k, by rw [near_of_le le, comes]⟩

namespace Jitter

/-! ## What can come out -/

theorem Support.mem_members {s : Support} {v : Duration} :
    v ∈ s.members ↔
      ∃ k, k ≤ s.steps ∧ .saturate (s.least.nanos + k * Duration.nanosPerMilli) = v := by
  simp only [members, List.mem_map, List.mem_range, Nat.lt_succ_iff]

/-- A support of one member. -/
theorem Support.mem_members_zero {d v : Duration} :
    v ∈ (Support.mk d 0).members ↔ d = v := by
  have same : Duration.saturate (d.nanos + 0 * Duration.nanosPerMilli) = d := by
    apply Duration.ext
    have le := d.nanos_le
    rw [Duration.nanos_saturate]
    omega
  rw [mem_members]
  constructor
  · intro ⟨k, le, comes⟩
    obtain rfl : k = 0 := Nat.le_zero.mp le
    rw [← comes, same]
  · intro comes
    exact ⟨0, Nat.le_refl _, by rw [same, comes]⟩

/-- The members above a least one of `m` whole milliseconds. -/
theorem Support.mem_members_ofMillis {m steps : Nat} (countable : m ≤ Duration.maxMillis)
    {v : Duration} :
    v ∈ (Support.mk (.ofMillis m) steps).members ↔ ∃ k, k ≤ steps ∧ .ofMillis (m + k) = v := by
  rw [mem_members, Duration.nanos_ofMillis countable]
  simp only [Duration.ofMillis, Nat.add_mul]

/-- What some choice leads to are the members of the support. -/
theorem mem_support_iff (j : Jitter) (d v : Duration) :
    (∃ pick, j.apply pick d = v) ↔ v ∈ (j.support d).members := by
  by_cases short : grains d = 0
  · simp [apply, support, short, Support.mem_members_zero]
  cases j with
  | off => simp [apply_off, support, short, Support.mem_members_zero]
  | full =>
    have zero : Duration.zero = .ofMillis 0 := rfl
    simp only [apply_full short, support, short, ↓reduceIte, zero,
      Support.mem_members_ofMillis (Nat.zero_le _), Nat.zero_add]
    exact Pick.exists_iff (grains d) Duration.ofMillis v
  | equal =>
    have countable : grains d / 2 ≤ Duration.maxMillis :=
      Nat.le_trans (Nat.div_le_self _ 2) (grains_le d)
    simp only [apply_equal short, support, short, ↓reduceIte,
      Support.mem_members_ofMillis countable]
    exact Pick.exists_iff (grains d / 2) (fun k => .ofMillis (grains d / 2 + k)) v

/-! ## The half that `equal` keeps -/

theorem nanos_apply_equal {d : Duration} (long : grains d ≠ 0) (pick : Pick) :
    (equal.apply pick d).nanos =
      (grains d / 2 + pick (grains d / 2)) * Duration.nanosPerMilli := by
  have chosen := (pick (grains d / 2)).isLt
  have countable := grains_le d
  rw [apply_equal long, Duration.nanos_ofMillis (by omega)]

/-- A delay of at least a millisecond comes down to half of its milliseconds at worst. -/
theorem half_le_nanos_apply_equal {d : Duration} (long : grains d ≠ 0) (pick : Pick) :
    grains d / 2 * Duration.nanosPerMilli ≤ (equal.apply pick d).nanos := by
  rw [nanos_apply_equal long]
  exact Nat.mul_le_mul_right _ (Nat.le_add_right ..)

theorem nanos_apply_equal_least {d : Duration} (long : grains d ≠ 0) :
    (equal.apply .least d).nanos = grains d / 2 * Duration.nanosPerMilli := by
  rw [nanos_apply_equal long]
  rfl

/-- `equal` keeps half of a delay whatever the choice just if nothing of the delay is lost on
the way to its half. -/
theorem halves_iff (d : Duration) :
    (∀ pick, d.nanos ≤ 2 * (equal.apply pick d).nanos) ↔ Halves d := by
  by_cases short : grains d = 0
  · have below := (grains_eq_zero_iff d).mp short
    constructor
    · intro _
      exact .inl below
    · intro _ pick
      rw [apply_of_short short]
      omega
  have long := mt (grains_eq_zero_iff d).mpr short
  constructor
  · intro keeps
    -- the smallest choice is twice half of the milliseconds, which are never more than `d`
    have least := keeps .least
    rw [nanos_apply_equal_least short] at least
    right
    simp only [grains, Duration.millis, Duration.nanosPerMilli, Duration.maxMillis] at least ⊢
    omega
  · intro halves pick
    obtain ⟨even, countable⟩ := halves.resolve_left long
    have least := half_le_nanos_apply_equal short pick
    simp only [grains, Duration.millis, Duration.nanosPerMilli, Duration.maxMillis]
      at even countable least ⊢
    omega

/-- Of a delay whose milliseconds 64 bits count, `equal` keeps all but a millisecond of
half. -/
theorem nanos_lt_of_equal {d : Duration} (countable : d.millis ≤ Duration.maxMillis)
    (pick : Pick) :
    d.nanos < 2 * (equal.apply pick d).nanos + 2 * Duration.nanosPerMilli := by
  by_cases short : grains d = 0
  · rw [apply_of_short short]
    simp only [Duration.nanosPerMilli]
    omega
  have least := half_le_nanos_apply_equal short pick
  simp only [grains, Duration.millis, Duration.nanosPerMilli, Duration.maxMillis]
    at countable least ⊢
  omega

/-- The range that a jitter promises is kept whatever the choice, but by `equal` just where
it keeps half. -/
theorem allows_iff (j : Jitter) (d : Duration) :
    (∀ pick, j.Allows d (j.apply pick d)) ↔ (j = .equal → Halves d) := by
  cases j with
  | off => simp [Allows, apply_off]
  | full => simp [Allows, nanos_apply_le]
  | equal => simp [Allows, nanos_apply_le, halves_iff]

end Jitter

/-- Jitter gives exactly the delays of its support, and none is longer than the delay it is
given or, in a back-off, than the cap. The range it promises it keeps whatever the choice,
except that `equal` keeps half only of the delays that `Jitter.Halves` singles out. Of other
delays that 64 bits count in milliseconds it keeps all but a millisecond of half. -/
theorem jitter_range (j : Jitter) (d : Duration) (b : Backoff) (n : Nat) :
    (∀ v, (∃ pick, j.apply pick d = v) ↔ v ∈ (j.support d).members) ∧
      (∀ pick, (j.apply pick d).nanos ≤ d.nanos) ∧
      ((∀ pick, j.Allows d (j.apply pick d)) ↔ (j = .equal → Jitter.Halves d)) ∧
      (d.millis ≤ Duration.maxMillis → ∀ pick,
        d.nanos < 2 * (Jitter.equal.apply pick d).nanos + 2 * Duration.nanosPerMilli) ∧
      (∀ pick, (b.next pick n).nanos ≤ b.max.nanos) ∧
      (b.jitter = .equal →
        ((∀ pick, (b.base n).nanos ≤ 2 * (b.next pick n).nanos) ↔
          Jitter.Halves (b.base n))) := by
  refine ⟨j.mem_support_iff d, fun pick => j.nanos_apply_le pick d, j.allows_iff d,
    Jitter.nanos_lt_of_equal, ?_, ?_⟩
  · intro pick
    exact Nat.le_trans (b.nanos_next_le pick n) (b.formula_le_max n)
  · intro halved
    simp only [Backoff.next, halved]
    exact Jitter.halves_iff (b.base n)

/-- A second keeps half under any choice. Of three milliseconds, the cap of a back-off, the
smallest choice leaves one, which is less than half. -/
theorem jitter_range_odd :
    let b : Backoff := ⟨.ofSecs 1, .zero, .ofMillis 3, .equal⟩
    (∀ pick, Jitter.equal.Allows (.ofSecs 1) (Jitter.equal.apply pick (.ofSecs 1))) ∧
      b.next .least 7 = .ofMillis 1 ∧
      ¬ ∀ pick, (b.base 7).nanos ≤ 2 * (b.next pick 7).nanos := by
  intro b
  obtain ⟨-, -, kept, -, -, half⟩ := jitter_range .equal (.ofSecs 1) b 7
  refine ⟨kept.mpr fun _ => by decide +kernel, by decide +kernel, ?_⟩
  exact mt (half rfl).mp (by decide +kernel)

/-- Half of a millisecond is no whole one: under `equal` nothing is left of it, whatever the
choice. -/
theorem equal_jitter_drops_half :
    (∀ pick, Jitter.equal.apply pick (.ofMillis 1) = .zero) ∧
      ¬ ∀ (j : Jitter) (d : Duration) (pick : Pick), j.Allows d (j.apply pick d) := by
  have gone : ∀ pick, Jitter.equal.apply pick (.ofMillis 1) = .zero := by
    intro pick
    have only : ∀ k : Fin 1, Duration.ofMillis (1 / 2 + k) = .zero := by decide
    exact (Jitter.apply_equal (by decide) pick).trans (only (pick 0))
  refine ⟨gone, ?_⟩
  intro kept
  have half := (kept .equal (.ofMillis 1) .least).1
  rw [gone] at half
  exact absurd half (by decide)

end JobPool
