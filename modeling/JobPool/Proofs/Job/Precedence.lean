/-
JobPool.Proofs.Job.Precedence — it makes no difference who brings a value.

Counts of zero mean one and limits of zero mean none, whether they come from the job or from
the defaults: the defaults with the values of the job in their places (`overriddenBy`) are
normalised as the values of the job are (`resolve_eq_bare`). A value that is brought to the job
is put in the same place (`overriddenBy_bring`), so the same goes for values that are brought
one after another.
-/
import JobPool.Job.Precedence

namespace JobPool

theorem Duration.nonZero?_pos {d d' : Duration} (h : d.nonZero? = some d') : 0 < d'.nanos := by
  unfold nonZero? at h
  split at h
  · cases h
  · rename_i nonzero
    cases h
    rw [isZero_iff] at nonzero
    omega

namespace Terms

/-- The limit that is in force is the one that comes first, if it is not zero. -/
theorem limit_eq_nonZero? (own : Option Duration) (default : Duration) :
    own.elim default.nonZero? Duration.nonZero? = (own.getD default).nonZero? := by
  cases own <;> rfl

theorem isNormal_resolve (o : Overrides) (d : JobDefaults) : (resolve o d).IsNormal where
  one_le := Nat.le_max_right ..
  attempt_pos limit inForce := by
    refine Duration.nonZero?_pos (d := o.attemptLimit.getD d.attemptLimit) ?_
    rw [← limit_eq_nonZero?]
    exact inForce
  total_pos limit inForce := by
    refine Duration.nonZero?_pos (d := o.totalLimit.getD d.totalLimit) ?_
    rw [← limit_eq_nonZero?]
    exact inForce

theorem resolve_eq_bare (o : Overrides) (d : JobDefaults) :
    resolve o d = resolve o.bare (d.overriddenBy o) := by
  have attempt := limit_eq_nonZero? o.attemptLimit d.attemptLimit
  have total := limit_eq_nonZero? o.totalLimit d.totalLimit
  simp only [resolve, JobDefaults.attemptTimeout, JobDefaults.totalTimeout, attempt, total]
  rfl

end Terms

namespace JobDefaults

variable (d : JobDefaults) (o : Overrides)

theorem overriddenBy_bring (v : Override) :
    d.overriddenBy (o.bring v) = (d.overriddenBy o).put v := by
  cases v <;> rfl

theorem overriddenBy_bringAll (vs : List Override) :
    d.overriddenBy (o.bringAll vs) = (d.overriddenBy o).putAll vs := by
  induction vs generalizing o with
  | nil => rfl
  | cons v vs ih => exact (ih (o.bring v)).trans (congrArg (putAll · vs) (d.overriddenBy_bring o v))

end JobDefaults

theorem Overrides.bare_bringAll (o : Overrides) (vs : List Override) :
    (o.bringAll vs).bare = o.bare := by
  induction vs generalizing o with
  | nil => rfl
  | cons v vs ih =>
    refine (ih (o.bring v)).trans ?_
    cases v <;> rfl

/-- A job that brings values of its own runs under the same terms as the job without them in a
pool that has these values for defaults, also if they are brought one after another and some of
them more than once. Nothing else is settled by them: who may be tried again and which jitter
there is stay as they are. Either way there is at least one attempt and no limit of zero: none
at all counts as one attempt, and a limit of zero switches off the one that the pool has. -/
theorem overrides_interchangeable (o : Overrides) (d : JobDefaults) :
    Terms.resolve o d = Terms.resolve o.bare (d.overriddenBy o) ∧
    (∀ vs, Terms.resolve (o.bare.bringAll vs) d = Terms.resolve o.bare (d.putAll vs)) ∧
    (d.overriddenBy o).jitter = d.jitter ∧ (Terms.resolve o d).backoff.jitter = d.jitter ∧
    (Terms.resolve o d).retryable = !o.notRetryable ∧
    (Terms.resolve o d).IsNormal ∧
    (Terms.resolve (o.bring (.maxAttempts 0)) d).maxAttempts = 1 ∧
    (Terms.resolve (o.bring (.attemptLimit .zero)) d).attemptTimeout = none ∧
    (Terms.resolve (o.bring (.totalLimit .zero)) d).totalTimeout = none ∧
    (Terms.resolve o.bare (d.put (.maxAttempts 0))).maxAttempts = 1 ∧
    (Terms.resolve o.bare (d.put (.attemptLimit .zero))).attemptTimeout = none ∧
    (Terms.resolve o.bare (d.put (.totalLimit .zero))).totalTimeout = none := by
  refine ⟨Terms.resolve_eq_bare o d, fun vs => ?_, rfl, rfl, rfl, Terms.isNormal_resolve o d,
    rfl, rfl, rfl, rfl, rfl, rfl⟩
  have brought := Terms.resolve_eq_bare (o.bare.bringAll vs) d
  rw [Overrides.bare_bringAll, d.overriddenBy_bringAll] at brought
  exact brought

/-- A limit of zero stands, though the job brought another one before. -/
example :
    (Terms.resolve (Overrides.bringAll {} [.totalLimit (.ofSecs 1), .totalLimit .zero])
      { totalLimit := .ofSecs 2 }).totalTimeout = none := by
  decide

end JobPool
