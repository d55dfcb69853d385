/-
JobPool.Proofs.Run.Verdict — every result is told as the policy says.

A turn looks at an attempt and finds it going on, over or past its limit; that is just the
question what it has come to (`Attempt.ComesTo`), put to the attempt with its own limit
(`ends_iff`). What the turn tells then depends on the error, which for an overrun carries the
limit that was used. If that was what was left of the total limit, the deadline has passed, for
a timer does not fire early, and the total limit replaces it; else it is the limit that the terms
set (`Abides.attemptTimeout_of_inTime`).

  §1 How an attempt stands
  §2 What holds of a run at any time
  §3 What is told
-/
import JobPool.Proofs.Run.Beats
import JobPool.Proofs.Run.Tale
import JobPool.Run.Verdict

namespace JobPool

open Attempt (Result)

/-! ## §1 How an attempt stands -/

/-- The error that a turn finds, given the limit of the attempt. -/
def Attempt.Result.raised (limit : Option Duration) : Result → Option JobError
  | success => none
  | failure e => some e
  | panic p => some (.ofPanic p)
  | overrun => limit.map .timeout

theorem Ending.raised_result (ending : Ending) (limit : Option Duration) :
    ending.result.raised limit = ending.error? := by
  cases ending <;> rfl

theorem Ending.result_ne_overrun (ending : Ending) : ending.result ≠ .overrun := by
  cases ending <;> simp [result]

namespace Underway

variable {a : Underway} {cancelled : Bool} {now : Nat} {result : Result}

/-- What the attempt does. -/
def behaviour (a : Underway) : Attempt := .runs a.length a.ending a.onCancel

/-- Without a cancellation to heed, it is length and limit that count. -/
theorem standing_of_unheeded (quiet : cancelled = false ∨ a.onCancel = none) :
    a.standing cancelled now =
      if a.length.any (fun n => a.began + n ≤ now) then .over a.ending.error?
      else
        match a.limit with
        | some limit => if Instant.after a.began limit ≤ now then .overran limit else .ongoing
        | none => .ongoing := by
  rcases quiet with rfl | deaf
  · rfl
  · unfold standing
    rw [deaf]
    cases cancelled <;> rfl

theorem standing_of_unready (quiet : cancelled = false ∨ a.onCancel = none)
    (unready : ∀ n ∈ a.length, now < a.began + n) :
    a.standing cancelled now =
      match a.limit with
      | some limit => if Instant.after a.began limit ≤ now then .overran limit else .ongoing
      | none => .ongoing := by
  have going : a.length.any (fun n => decide (a.began + n ≤ now)) = false := by
    rw [Option.any_eq_false]
    intro n hn
    simpa using unready n hn
  rw [standing_of_unheeded quiet, going, if_neg Bool.false_ne_true]

/-- An attempt that has come to a result stands accordingly. -/
theorem standing_of_comesTo (began_le : a.began ≤ now)
    (comes : a.behaviour.ComesTo a.limit cancelled (now - a.began) result) :
    (result ≠ .overrun ∧ a.standing cancelled now = .over (result.raised a.limit)) ∨
      (result = .overrun ∧ ∃ limit, a.limit = some limit ∧
        a.standing cancelled now = .overran limit) := by
  unfold behaviour at comes
  generalize lengthEq : a.length = length at comes
  generalize endingEq : a.ending = ending at comes
  generalize onCancelEq : a.onCancel = onCancel at comes
  cases comes with
  | @heeds length ending onCancel told =>
    refine .inl ⟨onCancel.result_ne_overrun, ?_⟩
    simp [standing, told, onCancelEq, Ending.raised_result]
  | @ends length ending onCancel quiet ready =>
    refine .inl ⟨ending.result_ne_overrun, ?_⟩
    have done : a.began + length ≤ now := by omega
    rw [standing_of_unheeded (onCancelEq ▸ quiet), Ending.raised_result, lengthEq, endingEq]
    simp [done]
  | @overruns length ending onCancel limit quiet unready limited passed =>
    refine .inr ⟨rfl, limit, limited, ?_⟩
    have due : Instant.after a.began limit ≤ now := by
      unfold Instant.after
      omega
    rw [standing_of_unready (onCancelEq ▸ quiet) fun n hn => ?_, limited]
    · simp [due]
    · have := unready n (lengthEq ▸ hn)
      omega

/-- An attempt that does not go on has come to a result. -/
theorem exists_comesTo (h : a.standing cancelled now ≠ .ongoing) :
    ∃ result, a.behaviour.ComesTo a.limit cancelled (now - a.began) result := by
  by_cases heeds : cancelled = true ∧ a.onCancel.isSome = true
  · obtain ⟨onCancel, found⟩ := Option.isSome_iff_exists.1 heeds.2
    exact ⟨_, by rw [behaviour, found]; exact .heeds heeds.1⟩
  · have quiet : cancelled = false ∨ a.onCancel = none := by
      cases cancelled <;> cases onCancel : a.onCancel <;> simp [onCancel] at heeds ⊢
    by_cases ready : ∃ n ∈ a.length, n ≤ now - a.began
    · obtain ⟨n, found, le⟩ := ready
      exact ⟨_, by rw [behaviour, found]; exact .ends quiet le⟩
    · have unready : ∀ n ∈ a.length, now - a.began < n := fun n hn =>
        Nat.lt_of_not_le fun le => ready ⟨n, hn, le⟩
      rw [standing_of_unready quiet fun n hn => by have := unready n hn; omega] at h
      split at h
      · rename_i limit limited
        split at h
        · rename_i due
          unfold Instant.after at due
          exact ⟨.overrun, .overruns quiet unready limited (by omega)⟩
        · exact absurd rfl h
      · exact absurd rfl h

/-- An attempt ends just when it has come to a result. Its error is what the result raises, and its
token is cancelled if it overran. -/
theorem ends_iff {tokens tokens' : Tokens} {e : Option JobError} (began_le : a.began ≤ now) :
    a.Ends tokens now e tokens' ↔
      ∃ result, a.behaviour.ComesTo a.limit (tokens.isCancelled a.token) (now - a.began) result ∧
        e = result.raised a.limit ∧
        tokens' = if result = .overrun then tokens.cancel a.token else tokens := by
  constructor
  · intro ends
    have ended : a.standing (tokens.isCancelled a.token) now ≠ .ongoing := by
      cases ends with
      | byItself standing => simp [standing]
      | overran standing => simp [standing]
    obtain ⟨result, comes⟩ := exists_comesTo ended
    refine ⟨result, comes, ?_⟩
    rcases standing_of_comesTo began_le comes with ⟨other, stands⟩ | ⟨rfl, limit, limited, stands⟩
    · rw [if_neg other]
      cases ends with
      | byItself standing =>
        rw [stands] at standing
        exact ⟨(Standing.over.inj standing).symm, rfl⟩
      | overran standing => simp [stands] at standing
    · rw [if_pos rfl]
      cases ends with
      | byItself standing => simp [stands] at standing
      | overran standing =>
        rw [stands] at standing
        obtain rfl := Standing.overran.inj standing
        exact ⟨by simp [Result.raised, limited], rfl⟩
  · rintro ⟨result, comes, rfl, rfl⟩
    rcases standing_of_comesTo began_le comes with ⟨other, stands⟩ | ⟨rfl, limit, limited, stands⟩
    · rw [if_neg other]
      exact .byItself stands
    · rw [if_pos rfl, Result.raised, limited]
      exact .overran stands

end Underway

/-- An attempt comes to no more than one result. -/
theorem Attempt.ComesTo.unique {limit : Option Duration} {cancelled : Bool} {elapsed : Nat}
    {attempt : Attempt} {result result' : Result}
    (h : attempt.ComesTo limit cancelled elapsed result)
    (h' : attempt.ComesTo limit cancelled elapsed result') : result' = result := by
  cases h with
  | stillborn p =>
    cases h'
    rfl
  | heeds told =>
    cases h' with
    | heeds _ => rfl
    | ends quiet _ => simp [told] at quiet
    | overruns quiet _ _ _ => simp [told] at quiet
  | ends quiet ready =>
    cases h' with
    | heeds told => simp [told] at quiet
    | ends _ _ => rfl
    | overruns _ unready _ _ => exact absurd (unready _ rfl) (Nat.not_lt_of_le ready)
  | overruns quiet unready _ _ =>
    cases h' with
    | heeds told => simp [told] at quiet
    | ends _ ready => exact absurd (unready _ rfl) (Nat.not_lt_of_le ready)
    | overruns _ _ _ _ => rfl

namespace Run

/-! ## §2 What holds of a run at any time -/

/-- At `now` a run of the job that began at `start` keeps its terms, and the attempt that it makes
is one of the job, with the limit that was due to it. -/
structure Abides (job : Job) (terms : Terms) (start now : Nat) (r : Run) : Prop where
  inRound : InRound job terms r
  deadline_eq : r.deadline = terms.totalTimeout.map (Instant.after start)
  start_le : start ≤ now
  behaviour_eq : ∀ a, r.phase = .attempting a → a.behaviour = job.attempt r.attempt
  limit_eq : ∀ a, r.phase = .attempting a → a.limit = r.attemptLimit a.began
  began : ∀ a, r.phase = .attempting a →
    start ≤ a.began ∧ a.began ≤ now ∧ r.isExpired a.began = false

variable {job : Job} {terms : Terms} {start now : Nat} {r : Run} {picks : Picks} {tokens : Tokens}
  {t : Turn} {result : Result}

theorem abides_start (job : Job) (defaults : JobDefaults) (start : Nat) :
    Abides job (.resolve job.overrides defaults) start start (.start job defaults start) where
  inRound := inRound_start job defaults start
  deadline_eq := rfl
  start_le := Nat.le_refl _
  behaviour_eq a attempting := absurd attempting (phase_start_ne_attempting job defaults start a)
  limit_eq a attempting := absurd attempting (phase_start_ne_attempting job defaults start a)
  began a attempting := absurd attempting (phase_start_ne_attempting job defaults start a)

theorem Concluded.phase_ne {r' : Run} {pick : Pick} {e : Option JobError} {ev : Event}
    (h : Concluded r pick now e ev r') (a : Underway) : r'.phase ≠ .attempting a := by
  cases h <;> simp

/-- Past the deadline a failed attempt is the last one. -/
theorem Concluded.of_expired {r' : Run} {pick : Pick} {e : JobError} {ev : Event}
    (h : Concluded r pick now (some e) ev r') (expired : r.isExpired now = true) :
    ev = .failed r.job r.totalTimeout ∧ r' = { r with phase := .finished false } := by
  cases h with
  | late _ => exact ⟨rfl, rfl⟩
  | failed inTime _ | retriedAtOnce inTime _ _ _ | retriedLater inTime _ _ _ =>
    simp [expired] at inTime

/-- A turn that leaves an attempt to be made has just begun it. -/
theorem Turned.underway_of_attempting (turned : Turned r picks now tokens t) {a : Underway}
    (phase : t.next.phase = .attempting a) :
    ∃ length ending onCancel, r.isExpired now = false ∧
      r.job.attempt r.attempt = .runs length ending onCancel ∧
      a = r.underway now tokens.child.1 length ending onCancel ∧
      t.next = { r with phase := .attempting a } := by
  cases turned with
  | announced _ _ _ _ next => simp [next] at phase
  | woken _ _ _ _ _ next => simp [next] at phase
  | @begun length ending onCancel _ inTime attempt _ _ _ _ next =>
    rw [next] at phase
    obtain rfl := Phase.attempting.inj phase
    exact ⟨length, ending, onCancel, inTime, attempt, rfl, next⟩
  | expired _ _ _ _ concludes | stillborn _ _ _ _ _ concludes | «instant» _ _ _ _ _ concludes
  | ended _ _ _ concludes => exact absurd phase (concludes.choose_spec.2.phase_ne a)

theorem Abides.turn (h : Abides job terms start now r) (turned : Turned r picks now tokens t) :
    Abides job terms start now t.next where
  inRound := h.inRound.of_turned turned
  deadline_eq := turned.deadline.trans h.deadline_eq
  start_le := h.start_le
  behaviour_eq a phase := by
    obtain ⟨length, ending, onCancel, -, attempt, rfl, next⟩ := turned.underway_of_attempting phase
    rw [next, ← h.inRound.job_eq]
    exact attempt.symm
  limit_eq a phase := by
    obtain ⟨length, ending, onCancel, -, -, rfl, next⟩ := turned.underway_of_attempting phase
    rw [next]
    rfl
  began a phase := by
    obtain ⟨length, ending, onCancel, inTime, -, rfl, next⟩ := turned.underway_of_attempting phase
    rw [next]
    exact ⟨h.start_le, Nat.le_refl _, inTime⟩

theorem Abides.later (h : Abides job terms start now r) {now' : Nat} (le : now ≤ now') :
    Abides job terms start now' r :=
  ⟨h.inRound, h.deadline_eq, Nat.le_trans h.start_le le, h.behaviour_eq, h.limit_eq,
    fun a phase => ⟨(h.began a phase).1, Nat.le_trans (h.began a phase).2.1 le,
      (h.began a phase).2.2⟩⟩

/-- A panic out of an event chain leaves no attempt to be made. -/
theorem Abides.unwound (h : Abides job terms start now r) :
    Abides job terms start now { r with phase := .unwound } where
  inRound := { h.inRound with more := by simp }
  deadline_eq := h.deadline_eq
  start_le := h.start_le
  behaviour_eq := by simp
  limit_eq := by simp
  began := by simp

theorem Scene.abides_next {x : Scene} (h : Abides job terms start x.stage.hub.now x.run)
    (b : Beat) : Abides job terms start (x.next b).stage.hub.now (x.next b).run := by
  cases b with
  | turn =>
    cases found : x.turn with
    | none =>
      simp only [next, found]
      exact h
    | some t =>
      have after := h.turn (turned_of_turn found)
      obtain ⟨-, -, now, -⟩ := x.stage.play_stage t
      simp only [next, found]
      rw [now]
      rcases x.stage.play_run t with same | same
      · rw [same]
        exact after
      · rw [same]
        exact after.unwound
  | pass time => exact h.later (Nat.le_add_right ..)
  | _ => exact h

theorem Scene.abides_plays {x : Scene} (h : Abides job terms start x.stage.hub.now x.run)
    (bs : List Beat) : Abides job terms start (x.plays bs).stage.hub.now (x.plays bs).run := by
  induction bs generalizing x with
  | nil => exact h
  | cons b bs ih => exact ih (abides_next h b)

/-! ## §3 What is told -/

theorem Abides.isExpired_iff (h : Abides job terms start now r) :
    r.isExpired now = true ↔ IsLate terms start now := by
  rw [Run.isExpired_iff, h.deadline_eq, IsLate]
  cases terms.totalTimeout <;> simp

/-- Where the limit of an attempt has passed and the deadline has not, it is the limit that the
terms set: what was left of the total limit ends at the deadline. -/
theorem Abides.attemptTimeout_of_inTime (h : Abides job terms start now r) {began : Nat}
    {limit : Duration} (le : start ≤ began) (limited : r.attemptLimit began = some limit)
    (passed : Instant.after began limit ≤ now) (inTime : r.isExpired now = false) :
    terms.attemptTimeout = some limit := by
  cases limits : terms.totalTimeout with
  | none =>
    have unlimited : r.left began = none := by rw [left, h.deadline_eq, limits]; rfl
    rw [attemptLimit, unlimited, h.inRound.terms_eq] at limited
    cases own : terms.attemptTimeout with
    | none => simp [own, shorterLimit] at limited
    | some most => simpa [own, shorterLimit] using limited
  | some total =>
    have deadline : r.deadline = some (Instant.after start total) := by
      rw [h.deadline_eq, limits]
      rfl
    have lt := lt_deadline inTime (d := Instant.after start total) (by rw [deadline]; rfl)
    have cut := total.nanos_le
    have rest : r.left began = some (Instant.left began (Instant.after start total)) := by
      rw [left, deadline]
      rfl
    have longer : limit.nanos < (Instant.left began (Instant.after start total)).nanos := by
      unfold Instant.after at passed lt
      simp only [Instant.left, Instant.after, Duration.nanos_saturate]
      omega
    rw [attemptLimit, rest, h.inRound.terms_eq] at limited
    cases own : terms.attemptTimeout with
    | none =>
      simp only [own, shorterLimit, Option.some.injEq] at limited
      rw [limited] at longer
      exact absurd longer (Nat.lt_irrefl _)
    | some most =>
      simp only [own, shorterLimit, Option.some.injEq, Duration.shorter] at limited
      split at limited
      · rw [limited]
      · rw [limited] at longer
        exact absurd longer (Nat.lt_irrefl _)

/-- What a turn finds is the attempt's own error, unless the deadline has passed. -/
theorem Abides.own_of_raised (h : Abides job terms start now r) {began : Nat} {e : JobError}
    (le : start ≤ began) (overran : result = .overrun →
      ∀ limit, r.attemptLimit began = some limit → Instant.after began limit ≤ now)
    (raised : result.raised (r.attemptLimit began) = some e) (inTime : r.isExpired now = false) :
    result.Own terms e := by
  cases result with
  | success => cases raised
  | failure e' =>
    obtain rfl := Option.some.inj raised
    exact .returned _
  | panic p =>
    obtain rfl := Option.some.inj raised
    exact .panicked p
  | overrun =>
    obtain ⟨limit, limited, rfl⟩ := Option.map_eq_some_iff.1 raised
    exact .overran (h.attemptTimeout_of_inTime le limited (overran rfl limit limited) inTime)

/-- The turn that ends an attempt tells its result. -/
theorem Abides.told_of_concludes (h : Abides job terms start now r) {pick : Pick} {began : Nat}
    (le : start ≤ began) (overran : result = .overrun →
      ∃ limit, r.attemptLimit began = some limit ∧ Instant.after began limit ≤ now)
    (concludes : t.Concludes r pick now (result.raised (r.attemptLimit began))) :
    ∃ ev, t.event = some ev ∧
      result.Told job terms (IsLate terms start now) r.attempt ev t.next.outcome? := by
  obtain ⟨ev, event, concluded⟩ := concludes
  have own := fun e => h.own_of_raised (e := e) le fun overruns limit limited => by
    obtain ⟨limit', limited', passed⟩ := overran overruns
    obtain rfl := Option.some.inj (limited.symm.trans limited')
    exact passed
  have inTime : r.isExpired now = false → ¬ IsLate terms start now := by
    intro inTime late
    rw [h.isExpired_iff.2 late] at inTime
    cases inTime
  refine ⟨ev, event, ?_⟩
  generalize raised : result.raised (r.attemptLimit began) = e at concluded
  generalize t.next = next at concluded
  rw [← h.inRound.job_eq]
  cases concluded with
  | handled =>
    cases result with
    | success => exact .handled
    | overrun =>
      obtain ⟨limit, limited, -⟩ := overran rfl
      simp [Result.raised, limited] at raised
    | _ => cases raised
  | late expired =>
    obtain ⟨total, limited, passed⟩ := h.isExpired_iff.1 expired
    have error : r.totalTimeout = .timeout total := by
      rw [totalTimeout, h.inRound.terms_eq, limited]
      rfl
    rw [error]
    refine .late ?_ ⟨total, limited, passed⟩ limited
    rintro rfl
    cases raised
  | failed expired refused =>
    refine .failed (own _ raised expired) (inTime expired) ?_
    rw [h.inRound.terms_eq] at refused
    rcases refused with refused | unwanted
    · rw [Terms.allowsRetryAfter, Bool.and_eq_false_iff, decide_eq_false_iff_not,
        Nat.not_lt] at refused
      exact refused.imp_right .inl
    · exact .inr (.inr unwanted)
  | retriedAtOnce expired allowed wanted delay | retriedLater expired allowed wanted delay =>
    rw [h.inRound.terms_eq] at allowed
    obtain ⟨retryable, more⟩ := allowsRetryAfter_iff.1 allowed
    exact .retried (own _ raised expired) (inTime expired) retryable more wanted

/-- What an attempt that is at hand has come to as soon as it begins. -/
theorem comesTo_underway {length : Option Nat} {ending : Ending} {onCancel : Option Ending}
    (attempt : r.job.attempt r.attempt = .runs length ending onCancel) :
    (r.underway now tokens.child.1 length ending onCancel).behaviour.ComesTo
        (r.underway now tokens.child.1 length ending onCancel).limit
        (tokens.child.2.isCancelled tokens.child.1)
        (now - (r.underway now tokens.child.1 length ending onCancel).began) result ↔
      (r.job.attempt r.attempt).ComesTo (r.attemptLimit now) tokens.root 0 result := by
  rw [attempt, tokens.isCancelled_child]
  show Attempt.ComesTo _ _ (now - now) _ _ ↔ _
  rw [Nat.sub_self]
  rfl

/-- An attempt overruns only where it has a limit, and the limit has passed. -/
theorem passed_of_overrun {limit : Option Duration} {cancelled : Bool} {began : Nat}
    {attempt : Attempt} (le : began ≤ now)
    (comes : attempt.ComesTo limit cancelled (now - began) .overrun) :
    ∃ most, limit = some most ∧ Instant.after began most ≤ now := by
  generalize same : Result.overrun = result at comes
  cases comes with
  | stillborn p => cases same
  | heeds _ => exact absurd same.symm (Ending.result_ne_overrun _)
  | ends _ _ => exact absurd same.symm (Ending.result_ne_overrun _)
  | @overruns _ _ _ most _ _ limited passed =>
    refine ⟨most, limited, ?_⟩
    unfold Instant.after
    omega

theorem ComesTo.unique {result' : Result} (h : r.ComesTo tokens now result)
    (h' : r.ComesTo tokens now result') : result' = result := by
  cases h with
  | atOnce ready _ comes =>
    cases h' with
    | atOnce _ _ comes' => exact comes.unique comes'
    | inTheEnd attempting _ => simp [ready] at attempting
  | inTheEnd attempting comes =>
    cases h' with
    | atOnce ready _ _ => simp [attempting] at ready
    | inTheEnd attempting' comes' =>
      obtain rfl := Phase.attempting.inj (attempting.symm.trans attempting')
      exact comes.unique comes'

/-- The attempt that a turn ends has come to a result, which says what error is raised; if it
overran its token is cancelled. -/
theorem Abides.comesTo_of_ends (h : Abides job terms start now r) {a : Underway}
    (attempting : r.phase = .attempting a) {e : Option JobError} {tokens' : Tokens}
    (ends : a.Ends tokens now e tokens') :
    ∃ result, r.ComesTo tokens now result ∧ e = result.raised a.limit ∧
      tokens' = if result = .overrun then tokens.cancel a.token else tokens := by
  obtain ⟨result, comes, raised, same⟩ := (Underway.ends_iff (h.began a attempting).2.1).1 ends
  rw [h.behaviour_eq a attempting, h.limit_eq a attempting, ← h.inRound.job_eq] at comes
  exact ⟨result, .inTheEnd attempting comes, raised, same⟩

/-- A turn that comes when the attempt has come to a result tells it. -/
theorem Abides.told_of_comesTo (h : Abides job terms start now r)
    (turned : Turned r picks now tokens t) (comes : r.ComesTo tokens now result) :
    ∃ ev, t.event = some ev ∧
      result.Told job terms (IsLate terms start now) r.attempt ev t.next.outcome? := by
  cases comes with
  | atOnce phase inTime comes =>
    have told : ∀ {pick : Pick}, t.Concludes r pick now (result.raised (r.attemptLimit now)) →
        ∃ ev, t.event = some ev ∧
          result.Told job terms (IsLate terms start now) r.attempt ev t.next.outcome? := by
      refine h.told_of_concludes h.start_le ?_
      rintro rfl
      exact passed_of_overrun (Nat.le_refl now) (by rwa [Nat.sub_self])
    cases turned with
    | announced opening _ _ _ _ => simp [phase] at opening
    | woken waiting _ _ _ _ _ => simp [phase] at waiting
    | expired _ late _ _ _ => simp [inTime] at late
    | begun _ _ attempt ongoing _ _ _ _ =>
      have stands := Underway.standing_of_comesTo (Nat.le_refl now)
        ((comesTo_underway attempt).2 comes)
      rw [ongoing] at stands
      simp at stands
    | @stillborn p _ _ attempt _ _ concludes =>
      rw [attempt] at comes
      obtain rfl := (Attempt.ComesTo.stillborn p).unique comes
      exact told concludes
    | «instant» _ _ attempt ends _ concludes =>
      obtain ⟨result', comes', rfl, -⟩ := (Underway.ends_iff (Nat.le_refl now)).1 ends
      obtain rfl := comes.unique ((comesTo_underway attempt).1 comes')
      exact told concludes
    | ended attempting _ _ _ => simp [phase] at attempting
  | @inTheEnd a phase comes =>
    obtain ⟨le, began_le, -⟩ := h.began a phase
    cases turned with
    | announced opening _ _ _ _ => simp [phase] at opening
    | woken waiting _ _ _ _ _ => simp [phase] at waiting
    | expired ready _ _ _ _ => simp [phase] at ready
    | begun ready _ _ _ _ _ _ _ | stillborn ready _ _ _ _ _ | «instant» ready _ _ _ _ _ =>
      simp [phase] at ready
    | ended attempting ends _ concludes =>
      obtain rfl := Phase.attempting.inj (phase.symm.trans attempting)
      obtain ⟨result', comes', rfl, -⟩ := h.comesTo_of_ends phase ends
      obtain rfl := (Run.ComesTo.inTheEnd phase comes).unique comes'
      rw [h.limit_eq a phase] at concludes
      refine h.told_of_concludes le ?_ concludes
      rintro rfl
      exact passed_of_overrun began_le comes

/-- A turn tells something only to announce the job, because its attempt has come to a result, or
because no time is left for one. -/
theorem Abides.comesTo_of_event (h : Abides job terms start now r)
    (turned : Turned r picks now tokens t) {ev : Event} (event : t.event = some ev) :
    (r.phase = .opening ∧ ev = .before job ∧ t.next.outcome? = none) ∨
    (∃ result, r.ComesTo tokens now result) ∨
    (r.phase = .ready ∧ IsLate terms start now ∧ t.next.outcome? = some false ∧
      ∃ total, terms.totalTimeout = some total ∧ ev = .failed job (.timeout total)) := by
  cases turned with
  | announced phase _ _ told next =>
    refine .inl ⟨phase, ?_, by rw [next]; rfl⟩
    rw [← h.inRound.job_eq]
    exact Option.some.inj (event.symm.trans told)
  | woken _ _ _ _ silent _ => simp [silent] at event
  | expired phase late _ _ concludes =>
    obtain ⟨total, limited, passed⟩ := h.isExpired_iff.1 late
    obtain ⟨ev', event', concluded⟩ := concludes
    obtain ⟨same, next⟩ := concluded.of_expired late
    refine .inr (.inr ⟨phase, ⟨total, limited, passed⟩, by rw [next]; rfl, total, limited, ?_⟩)
    rw [Option.some.inj (event.symm.trans event'), same, h.inRound.job_eq, totalTimeout,
      h.inRound.terms_eq, limited]
    rfl
  | begun _ _ _ _ _ _ silent _ => simp [silent] at event
  | @stillborn p phase inTime attempt _ _ _ =>
    exact .inr (.inl ⟨.panic p, .atOnce phase inTime (by rw [attempt]; exact .stillborn p)⟩)
  | «instant» phase inTime attempt ends _ _ =>
    obtain ⟨result, comes, -, -⟩ := (Underway.ends_iff (Nat.le_refl now)).1 ends
    exact .inr (.inl ⟨result, .atOnce phase inTime ((comesTo_underway attempt).1 comes)⟩)
  | @ended a _ phase ends _ _ =>
    obtain ⟨result, comes, -⟩ := h.comesTo_of_ends phase ends
    exact .inr (.inl ⟨result, comes⟩)

/-- A run whose attempt has come to a result has a turn. -/
theorem Abides.exists_turn (h : Abides job terms start now r) (picks : Picks)
    (comes : r.ComesTo tokens now result) : ∃ t, r.turn picks now tokens = some t := by
  cases comes with
  | atOnce phase inTime comes =>
    simp only [Run.turn, phase, inTime]
    exact ⟨_, rfl⟩
  | @inTheEnd a phase comes =>
    rw [h.inRound.job_eq, ← h.behaviour_eq a phase, ← h.limit_eq a phase] at comes
    simp only [Run.turn, phase, looking]
    rcases Underway.standing_of_comesTo (h.began a phase).2.1 comes with
      ⟨-, stands⟩ | ⟨-, limit, -, stands⟩
    · rw [stands]
      exact ⟨_, rfl⟩
    · rw [stands]
      exact ⟨_, rfl⟩

theorem Abides.judges {x : Scene} (h : Abides job terms start x.stage.hub.now x.run) :
    x.Judges job terms start := by
  refine ⟨fun result comes => ?_, fun t ev taken event => ?_, fun t limit taken told => ?_⟩
  · obtain ⟨t, taken⟩ := h.exists_turn x.stage.picks comes
    obtain ⟨ev, event, told⟩ := h.told_of_comesTo (turned_of_turn taken) comes
    exact ⟨t, ev, taken, event, told⟩
  · have turned := turned_of_turn taken
    refine (h.comesTo_of_event turned event).imp_right (Or.imp_left ?_)
    rintro ⟨result, comes⟩
    obtain ⟨ev', event', told⟩ := h.told_of_comesTo turned comes
    obtain rfl := Option.some.inj (event.symm.trans event')
    exact ⟨result, comes, told⟩
  · have turned := turned_of_turn taken
    obtain ⟨ev, event, error⟩ : ∃ ev, t.event = some ev ∧
        (ev = .failed job (.timeout limit) ∨ ∃ n, ev = .retry job n (.timeout limit)) := by
      rcases told with told | ⟨n, told⟩
      · exact ⟨_, told, .inl rfl⟩
      · exact ⟨_, told, .inr ⟨n, rfl⟩⟩
    have own : ∀ result, x.run.ComesTo x.stage.tokens x.stage.hub.now result →
        result.Own terms (.timeout limit) → terms.attemptTimeout = some limit ∨
          x.run.ComesTo x.stage.tokens x.stage.hub.now (.failure (.timeout limit)) := by
      intro result comes own
      cases own with
      | returned => exact .inr comes
      | overran limited => exact .inl limited
    rcases h.comesTo_of_event turned event with
      ⟨-, rfl, -⟩ | ⟨result, comes⟩ | ⟨-, -, -, total, limited, rfl⟩
    · simp at error
    · obtain ⟨ev', event', told⟩ := h.told_of_comesTo turned comes
      obtain rfl := Option.some.inj (event.symm.trans event')
      generalize t.next.outcome? = outcome at told
      cases told with
      | handled => simp at error
      | late _ _ limited =>
        obtain rfl : _ = limit := by simpa using error
        exact .inr (.inl limited)
      | failed own' _ _ | retried own' _ _ _ _ =>
        obtain rfl : _ = JobError.timeout limit := by simpa using error
        exact (own result comes own').imp_right .inr
    · obtain rfl : total = limit := by simpa using error
      exact .inr (.inl limited)

/-- Whatever happens around a run and whenever its turns come: a success ends it as such, even past
the deadline; after a failed attempt it ends just if the deadline has passed, the terms allow no
further attempt or the job wants none, and tells a retry otherwise; what it tells is the attempt's
own error, or the total limit past the deadline; and a time limit that it tells is one of those that
the terms set, not what was left of the total limit. -/
theorem judges_of_plays (job : Job) (defaults : JobDefaults) (s : Stage) (bs : List Beat) :
    ((Scene.mk s (.start job defaults s.hub.now)).plays bs).Judges job
      (.resolve job.overrides defaults) s.hub.now :=
  Abides.judges (Scene.abides_plays (x := ⟨s, .start job defaults s.hub.now⟩)
    (abides_start job defaults s.hub.now) bs)

end Run
end JobPool
