/-
JobPool.Proofs.Run.Turn — everything that one turn of a run can be.

`Run.turn` computes the next turn. `Turned` lists what it can come to, with all
that is decided in each case, and `turned_of_turn` says that there is nothing
else; later proofs split a turn by it and never unfold the computation. Two
parts of a turn have lists of their own: how an attempt that is being made comes
to its end (`Underway.Ends`), and what follows an attempt that ended
(`Concluded`).
-/
import JobPool.Run.Course

namespace JobPool

/-- How an attempt that is being made ends, and the tokens after it. -/
inductive Underway.Ends (a : Underway) (tokens : Tokens) (now : Nat) :
    Option JobError → Tokens → Prop where
  /-- By itself. -/
  | byItself {e : Option JobError}
      (standing : a.standing (tokens.isCancelled a.token) now = .over e) :
      Ends a tokens now e tokens
  /-- By its limit; its own token is cancelled then. -/
  | overran {limit : Duration}
      (standing : a.standing (tokens.isCancelled a.token) now = .overran limit) :
      Ends a tokens now (some (.timeout limit)) (tokens.cancel a.token)

namespace Run

/-- The event that follows an attempt that ended, with an error or without, and
the run after it. -/
inductive Concluded (r : Run) (pick : Pick) (now : Nat) : Option JobError → Event → Run → Prop where
  | handled : Concluded r pick now none (.after r.job) { r with phase := .finished true }
  /-- Past the deadline the total limit replaces the error. -/
  | late {e : JobError} (expired : r.isExpired now = true) :
      Concluded r pick now (some e) (.failed r.job r.totalTimeout)
        { r with phase := .finished false }
  | failed {e : JobError} (expired : r.isExpired now = false)
      (refused : r.terms.allowsRetryAfter r.attempt = false ∨ r.job.shouldRetry e = false) :
      Concluded r pick now (some e) (.failed r.job e) { r with phase := .finished false }
  /-- Without a delay the next attempt is at hand. -/
  | retriedAtOnce {e : JobError} (expired : r.isExpired now = false)
      (allowed : r.terms.allowsRetryAfter r.attempt = true) (wanted : r.job.shouldRetry e = true)
      (delay : (r.terms.backoff.next pick r.attempt).isZero = true) :
      Concluded r pick now (some e) (.retry r.job r.attempt e)
        { r with phase := .ready, attempt := r.attempt + 1 }
  | retriedLater {e : JobError} (expired : r.isExpired now = false)
      (allowed : r.terms.allowsRetryAfter r.attempt = true) (wanted : r.job.shouldRetry e = true)
      (delay : (r.terms.backoff.next pick r.attempt).isZero = false) :
      Concluded r pick now (some e) (.retry r.job r.attempt e)
        { r with phase := .waiting (Instant.after now (r.terms.backoff.next pick r.attempt)) }

theorem concluded_conclude (r : Run) (pick : Pick) (now : Nat) (e : Option JobError) :
    Concluded r pick now e (r.conclude pick now e).2.1 (r.conclude pick now e).2.2 := by
  cases e with
  | none => exact .handled
  | some e =>
    cases expired : r.isExpired now with
    | true =>
      simp only [conclude, expired, if_true, Bool.true_or]
      exact .late expired
    | false =>
      cases allowed : r.terms.allowsRetryAfter r.attempt with
      | false =>
        simp only [conclude, expired, allowed, Bool.not_false, Bool.or_true, Bool.true_or, if_true,
          Bool.false_eq_true, if_false]
        exact .failed expired (.inl allowed)
      | true =>
        cases wanted : r.job.shouldRetry e with
        | false =>
          simp only [conclude, expired, allowed, wanted, Bool.not_false, Bool.or_true, if_true,
            Bool.false_eq_true, if_false]
          exact .failed expired (.inr wanted)
        | true =>
          simp only [conclude, expired, allowed, wanted, Bool.not_true, Bool.or_false,
            Bool.false_eq_true, if_false]
          cases delay : (r.terms.backoff.next pick r.attempt).isZero with
          | true => exact .retriedAtOnce expired allowed wanted delay
          | false => exact .retriedLater expired allowed wanted delay

/-- The turn ends an attempt with `e`, or without an error. -/
def Turn.Concludes (t : Turn) (r : Run) (pick : Pick) (now : Nat) (e : Option JobError) : Prop :=
  ∃ ev, t.event = some ev ∧ Concluded r pick now e ev t.next

/-- The attempt that begins at `now` when there is something to run. -/
def underway (r : Run) (now : Nat) (token : TokenId) (length : Option Nat) (ending : Ending)
    (onCancel : Option Ending) : Underway :=
  { token, began := now, length, ending, onCancel, limit := r.attemptLimit now }

/-- What a turn of a run is. -/
inductive Turned (r : Run) (picks : Picks) (now : Nat) (tokens : Tokens) (t : Turn) : Prop where
  /-- The job is announced. -/
  | announced (phase : r.phase = .opening) (tokens_eq : t.tokens = tokens) (begun : t.begun = none)
      (event : t.event = some (.before r.job)) (next : t.next = { r with phase := .ready })
  /-- The back-off is over. -/
  | woken {wake : Nat} (phase : r.phase = .waiting wake) (due : wake ≤ now)
      (tokens_eq : t.tokens = tokens) (begun : t.begun = none) (event : t.event = none)
      (next : t.next = { r with phase := .ready, attempt := r.attempt + 1 })
  /-- The deadline has passed, and no further attempt begins. -/
  | expired (phase : r.phase = .ready) (late : r.isExpired now = true)
      (tokens_eq : t.tokens = tokens) (begun : t.begun = none)
      (concluded : t.Concludes r .least now (some r.totalTimeout))
  /-- An attempt begins and goes on. -/
  | begun {length : Option Nat} {ending : Ending} {onCancel : Option Ending}
      (phase : r.phase = .ready) (inTime : r.isExpired now = false)
      (attempt : r.job.attempt r.attempt = .runs length ending onCancel)
      (ongoing : (r.underway now tokens.child.1 length ending onCancel).standing
        (tokens.child.2.isCancelled tokens.child.1) now = .ongoing)
      (tokens_eq : t.tokens = tokens.child.2)
      (begun : t.begun = some ⟨r.job, r.attempt, tokens.child.1⟩) (event : t.event = none)
      (next : t.next =
        { r with phase := .attempting (r.underway now tokens.child.1 length ending onCancel) })
  /-- An attempt panics before there is anything to run. -/
  | stillborn {p : Panic} (phase : r.phase = .ready) (inTime : r.isExpired now = false)
      (attempt : r.job.attempt r.attempt = .stillborn p) (tokens_eq : t.tokens = tokens.child.2)
      (begun : t.begun = some ⟨r.job, r.attempt, tokens.child.1⟩)
      (concluded : t.Concludes r (picks tokens.child.1) now (some (.ofPanic p)))
  /-- An attempt begins and ends without taking time. -/
  | instant {length : Option Nat} {ending : Ending} {onCancel : Option Ending}
      {e : Option JobError} (phase : r.phase = .ready) (inTime : r.isExpired now = false)
      (attempt : r.job.attempt r.attempt = .runs length ending onCancel)
      (ends : (r.underway now tokens.child.1 length ending onCancel).Ends tokens.child.2 now e
        t.tokens)
      (begun : t.begun = some ⟨r.job, r.attempt, tokens.child.1⟩)
      (concluded : t.Concludes r (picks tokens.child.1) now e)
  /-- The attempt that was being made ends. -/
  | ended {a : Underway} {e : Option JobError} (phase : r.phase = .attempting a)
      (ends : a.Ends tokens now e t.tokens) (begun : t.begun = none)
      (concluded : t.Concludes r (picks a.token) now e)

theorem concludes_concluding (r : Run) (pick : Pick) (now : Nat) (e : Option JobError)
    (tokens : Tokens) : (r.concluding pick now e tokens).Concludes r pick now e :=
  ⟨_, rfl, concluded_conclude r pick now e⟩

theorem ends_of_looking {r : Run} {picks : Picks} {now : Nat} {tokens : Tokens} {a : Underway}
    {t : Turn} (h : r.looking picks now tokens a = some t) :
    ∃ e, a.Ends tokens now e t.tokens ∧ t.begun = none ∧
      t.Concludes r (picks a.token) now e := by
  unfold looking at h
  split at h
  · cases h
  · rename_i e standing
    cases h
    exact ⟨e, .byItself standing, rfl, concludes_concluding ..⟩
  · rename_i limit standing
    cases h
    exact ⟨_, .overran standing, rfl, concludes_concluding ..⟩

/-- A turn that comes while an attempt is being made ends it. -/
theorem ends_of_attempting {r : Run} {picks : Picks} {now : Nat} {tokens : Tokens} {a : Underway}
    {t : Turn} (attempting : r.phase = .attempting a) (taken : r.turn picks now tokens = some t) :
    ∃ e, a.Ends tokens now e t.tokens ∧ t.begun = none ∧
      t.Concludes r (picks a.token) now e := by
  simp only [turn, attempting] at taken
  exact ends_of_looking taken

theorem turned_beginning {r : Run} {picks : Picks} {now : Nat} {tokens : Tokens}
    (phase : r.phase = .ready) (inTime : r.isExpired now = false) :
    Turned r picks now tokens (r.beginning picks now tokens) := by
  cases attempt : r.job.attempt r.attempt with
  | stillborn p =>
    simp only [beginning, attempt]
    exact .stillborn phase inTime attempt rfl rfl ⟨_, rfl, concluded_conclude ..⟩
  | runs length ending onCancel =>
    simp only [beginning, attempt]
    split
    · rename_i t h
      obtain ⟨e, ends, -, concluded⟩ := ends_of_looking h
      exact .instant phase inTime attempt ends rfl concluded
    · rename_i h
      refine .begun phase inTime attempt ?_ rfl rfl rfl rfl
      unfold looking at h
      split at h
      · assumption
      · cases h
      · cases h

theorem turned_of_turn {r : Run} {picks : Picks} {now : Nat} {tokens : Tokens} {t : Turn}
    (h : r.turn picks now tokens = some t) : Turned r picks now tokens t := by
  unfold turn at h
  split at h
  · rename_i phase
    cases h
    exact .announced phase rfl rfl rfl rfl
  · rename_i phase
    split at h
    · rename_i late
      cases h
      exact .expired phase late rfl rfl (concludes_concluding ..)
    · rename_i inTime
      cases h
      exact turned_beginning phase (Bool.eq_false_iff.2 inTime)
  · rename_i a phase
    obtain ⟨e, ends, begun, concluded⟩ := ends_of_looking h
    exact .ended phase ends begun concluded
  · rename_i wake phase
    split at h
    · rename_i due
      cases h
      exact .woken phase due rfl rfl rfl rfl
    · cases h
  · cases h
  · cases h

theorem uncut_of_turn {r : Run} {picks : Picks} {now : Nat} {tokens : Tokens} {t : Turn}
    (h : r.turn picks now tokens = some t) : r.phase ≠ .unwound := by
  intro cut
  simp [turn, cut] at h

/-! ## What every turn keeps -/

theorem Concluded.next {r r' : Run} {pick : Pick} {now : Nat} {e : Option JobError} {ev : Event}
    (h : Concluded r pick now e ev r') : r'.job = r.job ∧ r'.phase ≠ .unwound := by
  cases h <;> exact ⟨rfl, nofun⟩

theorem Turned.next {r : Run} {picks : Picks} {now : Nat} {tokens : Tokens} {t : Turn}
    (h : Turned r picks now tokens t) : t.next.job = r.job ∧ t.next.phase ≠ .unwound := by
  cases h with
  | announced _ _ _ _ next => rw [next]; exact ⟨rfl, nofun⟩
  | woken _ _ _ _ _ next => rw [next]; exact ⟨rfl, nofun⟩
  | begun _ _ _ _ _ _ _ next => rw [next]; exact ⟨rfl, nofun⟩
  | expired _ _ _ _ concluded => exact concluded.choose_spec.2.next
  | stillborn _ _ _ _ _ concluded => exact concluded.choose_spec.2.next
  | «instant» _ _ _ _ _ concluded => exact concluded.choose_spec.2.next
  | ended _ _ _ concluded => exact concluded.choose_spec.2.next

end Run

theorem Underway.Ends.before {a : Underway} {tokens tokens' : Tokens} {now : Nat}
    {e : Option JobError} (h : a.Ends tokens now e tokens') : tokens.Before tokens' := by
  cases h with
  | byItself _ => exact .refl tokens
  | overran _ => exact tokens.before_cancel _

theorem Run.Turned.before {r : Run} {picks : Picks} {now : Nat} {tokens : Tokens} {t : Turn}
    (h : Turned r picks now tokens t) : tokens.Before t.tokens := by
  cases h with
  | announced _ same _ _ _ => rw [same]; exact .refl tokens
  | woken _ _ same _ _ _ => rw [same]; exact .refl tokens
  | expired _ _ same _ _ => rw [same]; exact .refl tokens
  | begun _ _ _ _ same _ _ _ => rw [same]; exact tokens.before_child
  | stillborn _ _ _ same _ _ => rw [same]; exact tokens.before_child
  | «instant» _ _ _ ends _ _ => exact tokens.before_child.trans ends.before
  | ended _ ends _ _ => exact ends.before

namespace Run

/-- A run whose deadline is on the clock announces its job next. -/
theorem phase_start_of_onClock {job : Job} {defaults : JobDefaults} {now : Nat}
    (onClock : onClock job defaults now = true) : (start job defaults now).phase = .opening := by
  simp [start, onClock]

/-- A run whose deadline is not on the clock was cut short before it told anything. -/
theorem phase_start_of_offClock {job : Job} {defaults : JobDefaults} {now : Nat}
    (offClock : onClock job defaults now = false) : (start job defaults now).phase = .unwound := by
  simp [start, offClock]

/-- A deadline that is on the clock now was so before. -/
theorem onClock_of_le {job : Job} {defaults : JobDefaults} {now later : Nat} (le : now ≤ later)
    (h : onClock job defaults later = true) : onClock job defaults now = true := by
  unfold onClock at h ⊢
  cases limited : (Terms.resolve job.overrides defaults).totalTimeout with
  | none => rfl
  | some total =>
    rw [limited, Option.all_some] at h
    rw [Option.all_some]
    exact Instant.canTell_of_le le h

theorem phase_start_ne_attempting (job : Job) (defaults : JobDefaults) (now : Nat)
    (a : Underway) : (start job defaults now).phase ≠ .attempting a := by
  simp only [start]
  split <;> simp

/-- How far a run of the job may have come by turns, if it was not cut short at once. -/
inductive IsOf (job : Job) (defaults : JobDefaults) : Run → Prop where
  | start (now : Nat) (onClock : onClock job defaults now = true) :
      IsOf job defaults (.start job defaults now)
  | turn {r : Run} {picks : Picks} {now : Nat} {tokens : Tokens} {t : Turn}
      (came : IsOf job defaults r) (next : r.turn picks now tokens = some t) :
      IsOf job defaults t.next

/-- A run of the job comes to its end with this outcome. -/
def EndsIn (job : Job) (defaults : JobDefaults) (success : Bool) : Prop :=
  ∃ r, IsOf job defaults r ∧ r.phase = .finished success

theorem IsOf.spec {job : Job} {defaults : JobDefaults} {r : Run} (h : IsOf job defaults r) :
    r.job = job ∧ r.phase ≠ .unwound := by
  induction h with
  | start now onClock => exact ⟨rfl, by simp [phase_start_of_onClock onClock]⟩
  | turn _ next ih => exact ⟨(turned_of_turn next).next.1.trans ih.1, (turned_of_turn next).next.2⟩

end Run
end JobPool
