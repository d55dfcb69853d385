/-
JobPool.Run.Verdict — what an attempt comes to, and what is told about it.

An attempt succeeds, fails with an error of the job, panics, or overruns its limit. Which of
these it is depends on the job, on the limit, on the time since it began and on whether its
token is cancelled (`Attempt.ComesTo`), and not on the policy of the run. The policy says what
is told then (`Attempt.Result.Told`): a success in any case; a failure as the last one if the
deadline has passed, the terms allow no further attempt or the job wants none; else a retry.
-/
import JobPool.Run.Beat

namespace JobPool

/-- How an attempt ended. -/
inductive Attempt.Result where
  | success
  | failure (e : JobError)
  | panic (p : Panic)
  /-- It ran up to its limit. -/
  | overrun
  deriving DecidableEq, Repr

/-- The result of an attempt that ends by itself. -/
def Ending.result : Ending → Attempt.Result
  | success => .success
  | failure e => .failure e
  | panic p => .panic p

/-- What an attempt has come to, given its limit, whether its token is cancelled, and how long ago
it began. It looks at its token first, and its limit is looked at last. -/
inductive Attempt.ComesTo (limit : Option Duration) (cancelled : Bool) (elapsed : Nat) :
    Attempt → Attempt.Result → Prop where
  | stillborn (p : Panic) : ComesTo limit cancelled elapsed (.stillborn p) (.panic p)
  | heeds {length : Option Nat} {ending onCancel : Ending} (told : cancelled = true) :
      ComesTo limit cancelled elapsed (.runs length ending (some onCancel)) onCancel.result
  | ends {length : Nat} {ending : Ending} {onCancel : Option Ending}
      (unheeded : cancelled = false ∨ onCancel = none) (ready : length ≤ elapsed) :
      ComesTo limit cancelled elapsed (.runs (some length) ending onCancel) ending.result
  | overruns {length : Option Nat} {ending : Ending} {onCancel : Option Ending} {most : Duration}
      (unheeded : cancelled = false ∨ onCancel = none) (unready : ∀ n ∈ length, elapsed < n)
      (limited : limit = some most) (passed : most.nanos ≤ elapsed) :
      ComesTo limit cancelled elapsed (.runs length ending onCancel) .overrun

/-- What the current attempt of a run has come to, if it is over: an attempt that is at hand as soon
as it begins, with a new token, or the one that is being made. -/
inductive Run.ComesTo (r : Run) (tokens : Tokens) (now : Nat) (result : Attempt.Result) :
    Prop where
  | atOnce (phase : r.phase = .ready) (inTime : r.isExpired now = false)
      (comes : (r.job.attempt r.attempt).ComesTo (r.attemptLimit now) tokens.root 0 result)
  | inTheEnd {a : Underway} (phase : r.phase = .attempting a)
      (comes : (r.job.attempt r.attempt).ComesTo (r.attemptLimit a.began)
        (tokens.isCancelled a.token) (now - a.began) result)

namespace Attempt.Result

/-- The error of an attempt by itself. An overrun is told with the limit that the terms set for an
attempt, not with what was left of the total limit. -/
inductive Own (terms : Terms) : Attempt.Result → JobError → Prop where
  | returned (e : JobError) : Own terms (.failure e) e
  | panicked (p : Panic) : Own terms (.panic p) (.panicked p.info)
  | overran {limit : Duration} (limited : terms.attemptTimeout = some limit) :
      Own terms .overrun (.timeout limit)

/-- What is told about attempt `n` with this result, and the outcome of the run if it is over then.
`isLate` is whether the deadline has passed. -/
inductive Told (job : Job) (terms : Terms) (isLate : Prop) (n : Nat) :
    Attempt.Result → Event → Option Bool → Prop where
  | handled : Told job terms isLate n .success (.after job) (some true)
  /-- Past the deadline the total limit replaces the error. -/
  | late {result : Attempt.Result} {total : Duration} (unhandled : result ≠ .success)
      (late : isLate) (limited : terms.totalTimeout = some total) :
      Told job terms isLate n result (.failed job (.timeout total)) (some false)
  | failed {result : Attempt.Result} {e : JobError} (own : result.Own terms e) (inTime : ¬ isLate)
      (refused : terms.retryable = false ∨ terms.maxAttempts ≤ n ∨ job.shouldRetry e = false) :
      Told job terms isLate n result (.failed job e) (some false)
  | retried {result : Attempt.Result} {e : JobError} (own : result.Own terms e)
      (inTime : ¬ isLate) (retryable : terms.retryable = true) (more : n < terms.maxAttempts)
      (wanted : job.shouldRetry e = true) :
      Told job terms isLate n result (.retry job n e) none

end Attempt.Result

namespace Run

/-- The outcome of a run that is over. -/
def outcome? (r : Run) : Option Bool :=
  match r.phase with
  | .finished success => some success
  | _ => none

/-- The total limit of a run that began at `start` has passed at `now`. -/
def IsLate (terms : Terms) (start now : Nat) : Prop :=
  ∃ total, terms.totalTimeout = some total ∧ Instant.after start total ≤ now

/-- In this scene a run of the job that began at `start` tells what there is to tell. -/
structure Scene.Judges (job : Job) (terms : Terms) (start : Nat) (x : Scene) : Prop where
  /-- A result is told as soon as the run has its turn. -/
  results : ∀ result, x.run.ComesTo x.stage.tokens x.stage.hub.now result →
    ∃ t ev, x.turn = some t ∧ t.event = some ev ∧
      result.Told job terms (IsLate terms start x.stage.hub.now) x.run.attempt ev t.next.outcome?
  /-- Nothing is told but that the job is picked up, results, and that no time is left for the next
  attempt. -/
  events : ∀ t ev, x.turn = some t → t.event = some ev →
    (x.run.phase = .opening ∧ ev = .before job ∧ t.next.outcome? = none) ∨
    (∃ result, x.run.ComesTo x.stage.tokens x.stage.hub.now result ∧
      result.Told job terms (IsLate terms start x.stage.hub.now) x.run.attempt ev
        t.next.outcome?) ∨
    (x.run.phase = .ready ∧ IsLate terms start x.stage.hub.now ∧ t.next.outcome? = some false ∧
      ∃ total, terms.totalTimeout = some total ∧ ev = .failed job (.timeout total))
  /-- A time limit that is told is one that the terms set, unless the job itself failed with it. -/
  timeouts : ∀ t limit, x.turn = some t →
    (t.event = some (.failed job (.timeout limit)) ∨
      ∃ n, t.event = some (.retry job n (.timeout limit))) →
    terms.attemptTimeout = some limit ∨ terms.totalTimeout = some limit ∨
      x.run.ComesTo x.stage.tokens x.stage.hub.now (.failure (.timeout limit))

end Run
end JobPool
