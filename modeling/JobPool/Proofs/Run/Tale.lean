/-
JobPool.Proofs.Run.Tale — what a run has told so far, and that it goes on.

`Run.Tells` follows a run forward, turn by turn, whatever time and tokens are at each
turn; unlike a course it does not ask that turns be taken in time. A run that is over has
told a whole tale: the job, each failed attempt but the last, and then one closing
event; and it failed only for a reason that its terms or its job give (`Whole`). A run
that is not over can go on, now or at a time that it waits for, unless it makes an
attempt that nothing ends (`goes_on`).
-/
import JobPool.Proofs.Run.Limit

namespace JobPool

/-- Nothing ends the attempt: it has neither a length nor a limit, and it does not end by
being cancelled. -/
def Underway.IsEndless (a : Underway) (cancelled : Bool) : Prop :=
  a.length = none ∧ a.limit = none ∧ (cancelled = true → a.onCancel = none)

namespace Run

/-! ## The tale of a run -/

/-- What a run of the job, which was not cut short at once, has told when it stands there. -/
inductive Tells (job : Job) (defaults : JobDefaults) : Run → List Event → Prop where
  | start (now : Nat) (onClock : onClock job defaults now = true) :
      Tells job defaults (.start job defaults now) []
  | turn {r : Run} {evs : List Event} {picks : Picks} {now : Nat} {tokens : Tokens} {t : Turn}
      (came : Tells job defaults r evs) (next : r.turn picks now tokens = some t) :
      Tells job defaults t.next (evs ++ t.event.toList)

/-- The announcements of failed attempts that others follow, numbered from one. -/
def retriesOf (job : Job) (es : List JobError) : List Event :=
  (es.zipIdx 1).map fun x => .retry job x.2 x.1

theorem retriesOf_concat (job : Job) (es : List JobError) (e : JobError) :
    retriesOf job (es ++ [e]) = retriesOf job es ++ [.retry job (es.length + 1) e] := by
  simp [retriesOf, List.zipIdx_append, Nat.add_comm]

/-- Why a run fails with `e` in round `n` and not later: the terms allow no further attempt, the
job does not want one, or the total limit is used up. -/
def IsFinal (job : Job) (terms : Terms) (n : Nat) (e : JobError) : Prop :=
  terms.allowsRetryAfter n = false ∨ job.shouldRetry e = false ∨
    ∃ total ∈ terms.totalTimeout, e = .timeout total

/-- All that a run tells from first to last, for each outcome. -/
inductive Whole (job : Job) (terms : Terms) : Bool → List Event → Prop where
  | handled (es : List JobError) (rounds : es.length < terms.maxAttempts) :
      Whole job terms true (.before job :: (retriesOf job es ++ [.after job]))
  | failed (es : List JobError) (e : JobError) (rounds : es.length < terms.maxAttempts)
      (final : IsFinal job terms (es.length + 1) e) :
      Whole job terms false (.before job :: (retriesOf job es ++ [.failed job e]))

/-- What a run has told, by where it stands. -/
def Stands (job : Job) (terms : Terms) (r : Run) (evs : List Event) : Prop :=
  match r.phase with
  | .opening => evs = []
  | .ready | .attempting _ =>
    ∃ es, evs = .before job :: retriesOf job es ∧ r.attempt = es.length + 1
  | .waiting _ => ∃ es, evs = .before job :: retriesOf job es ∧ r.attempt = es.length
  | .finished success => Whole job terms success evs
  | .unwound => False

theorem Concluded.deadline {r r' : Run} {pick : Pick} {now : Nat} {e : Option JobError} {ev : Event}
    (h : Concluded r pick now e ev r') : r'.deadline = r.deadline := by
  cases h <;> rfl

theorem Turned.deadline {r : Run} {picks : Picks} {now : Nat} {tokens : Tokens} {t : Turn}
    (h : Turned r picks now tokens t) : t.next.deadline = r.deadline := by
  cases h with
  | announced _ _ _ _ next => rw [next]
  | woken _ _ _ _ _ next => rw [next]
  | begun _ _ _ _ _ _ _ next => rw [next]
  | expired _ _ _ _ concluded => exact concluded.choose_spec.2.deadline
  | stillborn _ _ _ _ _ concluded => exact concluded.choose_spec.2.deadline
  | «instant» _ _ _ _ _ concluded => exact concluded.choose_spec.2.deadline
  | ended _ _ _ concluded => exact concluded.choose_spec.2.deadline

/-- A run past its deadline has a total limit, and fails with it. -/
theorem isFinal_of_expired {job : Job} {r : Run} {now n : Nat} {start : Nat}
    (deadline : r.deadline = r.terms.totalTimeout.map (Instant.after start))
    (expired : r.isExpired now = true) : IsFinal job r.terms n r.totalTimeout := by
  obtain ⟨d, hd, -⟩ := isExpired_iff.1 expired
  rw [deadline] at hd
  obtain ⟨total, limited, -⟩ := Option.map_eq_some_iff.1 hd
  exact .inr (.inr ⟨total, limited, by simp [totalTimeout, limited]⟩)

/-- What follows an attempt is told, and the run stands where its tale says. -/
theorem stands_of_concludes {r : Run} {pick : Pick} {now : Nat} {e : Option JobError} {t : Turn}
    {es : List JobError} {evs : List Event} {start : Nat} (concludes : t.Concludes r pick now e)
    (deadline : r.deadline = r.terms.totalTimeout.map (Instant.after start))
    (told : evs = .before r.job :: retriesOf r.job es) (round : r.attempt = es.length + 1)
    (le : r.attempt ≤ r.terms.maxAttempts) :
    Stands r.job r.terms t.next (evs ++ t.event.toList) := by
  obtain ⟨ev, event, concluded⟩ := concludes
  rw [event, told, Option.toList_some, List.cons_append]
  rw [round] at le
  generalize t.next = next at concluded
  cases concluded with
  | handled => exact .handled es le
  | late expired => exact .failed es _ le (isFinal_of_expired deadline expired)
  | failed expired refused =>
    refine .failed es _ le ?_
    rw [← round]
    exact refused.imp_right .inl
  | @retriedAtOnce e expired allowed wanted delay =>
    refine ⟨es ++ [e], ?_, ?_⟩
    · rw [retriesOf_concat, round]
    · simp [round]
  | @retriedLater e expired allowed wanted delay =>
    refine ⟨es ++ [e], ?_, ?_⟩
    · rw [retriesOf_concat, round]
    · simp [round]

theorem stands_of_turned {r : Run} {picks : Picks} {now : Nat} {tokens : Tokens} {t : Turn}
    {evs : List Event} {start : Nat} (turned : Turned r picks now tokens t)
    (deadline : r.deadline = r.terms.totalTimeout.map (Instant.after start))
    (first : r.phase = .opening → r.attempt = 1) (le : r.attempt ≤ r.terms.maxAttempts)
    (stands : Stands r.job r.terms r evs) :
    Stands r.job r.terms t.next (evs ++ t.event.toList) := by
  cases turned with
  | announced phase tokens_eq begun event next =>
    simp only [Stands, phase] at stands
    rw [next, event, stands]
    exact ⟨[], rfl, first phase⟩
  | woken phase due tokens_eq begun event next =>
    simp only [Stands, phase] at stands
    obtain ⟨es, told, round⟩ := stands
    rw [next, event, Option.toList_none, List.append_nil]
    exact ⟨es, told, congrArg (· + 1) round⟩
  | expired phase late tokens_eq begun concludes =>
    simp only [Stands, phase] at stands
    obtain ⟨es, told, round⟩ := stands
    exact stands_of_concludes concludes deadline told round le
  | begun phase inTime attempt ongoing tokens_eq begun event next =>
    simp only [Stands, phase] at stands
    rw [next, event, Option.toList_none, List.append_nil]
    exact stands
  | stillborn phase inTime attempt tokens_eq begun concludes =>
    simp only [Stands, phase] at stands
    obtain ⟨es, told, round⟩ := stands
    exact stands_of_concludes concludes deadline told round le
  | «instant» phase inTime attempt ends begun concludes =>
    simp only [Stands, phase] at stands
    obtain ⟨es, told, round⟩ := stands
    exact stands_of_concludes concludes deadline told round le
  | ended phase ends begun concludes =>
    simp only [Stands, phase] at stands
    obtain ⟨es, told, round⟩ := stands
    exact stands_of_concludes concludes deadline told round le

/-- No turn leads back to where the job is picked up. -/
theorem Turned.not_opening {r : Run} {picks : Picks} {now : Nat} {tokens : Tokens} {t : Turn}
    (h : Turned r picks now tokens t) : t.next.phase ≠ .opening := by
  have lt := h.turnsTaken_lt
  intro opening
  simp [turnsTaken, opening] at lt

/-- What holds of a run all along. -/
structure Tells.Spec (job : Job) (terms : Terms) (r : Run) (evs : List Event) : Prop where
  inRound : InRound job terms r
  deadline : ∃ start, r.deadline = terms.totalTimeout.map (Instant.after start)
  first : r.phase = .opening → r.attempt = 1
  stands : Stands job terms r evs

theorem Tells.spec {job : Job} {defaults : JobDefaults} {r : Run} {evs : List Event}
    (h : Tells job defaults r evs) : Spec job (.resolve job.overrides defaults) r evs := by
  induction h with
  | start now onClock =>
    refine ⟨inRound_start job defaults now, ⟨now, rfl⟩, fun _ => rfl, ?_⟩
    simp only [Stands, phase_start_of_onClock onClock]
  | @turn r evs picks now tokens t came next ih =>
    have turned := turned_of_turn next
    obtain ⟨inRound, ⟨start, deadline⟩, first, stands⟩ := ih
    refine ⟨inRound.of_turned turned, ⟨start, turned.deadline.trans deadline⟩,
      fun opening => absurd opening turned.not_opening, ?_⟩
    obtain ⟨rfl, terms, -, le, -⟩ := inRound
    rw [← terms] at deadline le stands ⊢
    exact stands_of_turned turned deadline first le stands

/-- A run that is over has told a whole tale. -/
theorem Tells.whole {job : Job} {defaults : JobDefaults} {r : Run} {evs : List Event}
    {success : Bool} (h : Tells job defaults r evs) (finished : r.phase = .finished success) :
    Whole job (.resolve job.overrides defaults) success evs := by
  have stands := h.spec.stands
  simp only [Stands, finished] at stands
  exact stands

/-- It takes a number of turns that its terms bound. -/
theorem Tells.turnsTaken_le {job : Job} {defaults : JobDefaults} {r : Run} {evs : List Event}
    (h : Tells job defaults r evs) :
    r.turnsTaken ≤ 3 * (Terms.resolve job.overrides defaults).maxAttempts + 3 := by
  have most := r.turnsTaken_le
  have rounds := h.spec.inRound.le
  omega

/-- A run by its own policy was not cut short. -/
theorem Tells.uncut {job : Job} {defaults : JobDefaults} {r : Run} {evs : List Event}
    (h : Tells job defaults r evs) : r.phase ≠ .unwound := by
  intro unwound
  have stands := h.spec.stands
  simp only [Stands, unwound] at stands

/-! ## Going on -/

/-- A run that is not over goes on once the time that it waits for has come, whatever tokens
were handed out and cancelled meanwhile, unless nothing ends its attempt. -/
theorem goes_on {r : Run} (unfinished : ∀ success, r.phase ≠ .finished success)
    (uncut : r.phase ≠ .unwound) (now : Nat) (tokens : Tokens) :
    (∀ picks' now' (tokens' : Tokens), now ≤ now' → r.wakeAt.getD now ≤ now' →
        tokens.Before tokens' → (r.turn picks' now' tokens').isSome = true) ∨
      ∃ a, r.phase = .attempting a ∧ a.IsEndless (tokens.isCancelled a.token) := by
  cases phase : r.phase with
  | opening => exact .inl fun _ _ _ _ _ _ => by simp [turn, phase]
  | ready =>
    refine .inl fun picks' now' tokens' _ _ _ => ?_
    simp only [turn, phase]
    split <;> rfl
  | waiting wake =>
    refine .inl fun picks' now' tokens' _ due _ => ?_
    simp only [wakeAt, phase, Option.getD_some] at due
    simp [turn, phase, due]
  | finished success => exact absurd phase (unfinished success)
  | unwound => exact absurd phase uncut
  | attempting a =>
    have ends : ∀ {picks' now'} {tokens' : Tokens},
        a.standing (tokens'.isCancelled a.token) now' ≠ .ongoing →
        (r.turn picks' now' tokens').isSome = true := by
      intro picks' now' tokens' done
      simp only [turn, phase, looking]
      split
      · exact absurd ‹_› done
      · rfl
      · rfl
    cases length : a.length with
    | some n =>
      refine .inl fun picks' now' tokens' _ due _ => ends (Underway.standing_ne_ongoing ?_)
      cases limit : a.limit with
      | none =>
        simp only [wakeAt, phase, length, limit, earlier, Option.map_some, Option.map_none,
          Option.getD_some] at due
        exact .inl ⟨n, length, due⟩
      | some d =>
        simp only [wakeAt, phase, length, limit, earlier, Option.map_some, Option.getD_some] at due
        have due : a.began + n ≤ now' ∨ Instant.after a.began d ≤ now' := by omega
        exact due.imp (fun le => ⟨n, length, le⟩) fun le => ⟨d, rfl, le⟩
    | none =>
      cases limit : a.limit with
      | some d =>
        refine .inl fun picks' now' tokens' _ due _ => ends (Underway.standing_ne_ongoing ?_)
        simp only [wakeAt, phase, length, limit, earlier, Option.map_some, Option.map_none,
          Option.getD_some] at due
        exact .inr ⟨d, limit, due⟩
      | none =>
        cases onCancel : a.onCancel with
        | none => exact .inr ⟨a, rfl, length, limit, fun _ => onCancel⟩
        | some ending =>
          cases cancelled : tokens.isCancelled a.token with
          | false => exact .inr ⟨a, rfl, length, limit, fun now_so => by simp [cancelled] at now_so⟩
          | true =>
            refine .inl fun picks' now' tokens' _ _ before => ends ?_
            rw [before.cancelled_of_cancelled _ cancelled]
            simp [Underway.standing, onCancel]

end Run
end JobPool
