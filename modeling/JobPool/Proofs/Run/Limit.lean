/-
JobPool.Proofs.Run.Limit — what a total limit does to a run, and what it leaves alone.

The total limit cuts the time of attempts, and it is looked at before an attempt begins and
after one has failed. It does not cut a back-off. So attempts begin and retries are announced
before the deadline, but a back-off may go on past it; the attempt that was announced is
dropped then, and the run ends as late as the back-off does.

`Timely` says all that of a moment and the turns taken so far. Each turn keeps it, one case
of `Turned` after another (`Timely.turn`), and so does waiting (`Timely.wait`).
-/
import JobPool.Proofs.Run.Grammar

namespace JobPool

theorem Instant.onGrain_mono {a b : Nat} (h : a ≤ b) : onGrain a ≤ onGrain b :=
  Nat.mul_le_mul_right _ (Nat.div_le_div_right (Nat.add_le_add_right h _))

/-- An attempt is over, one way or another, once its length or its limit has passed. -/
theorem Underway.standing_ne_ongoing {a : Underway} {cancelled : Bool} {now : Nat}
    (due : (∃ n, a.length = some n ∧ a.began + n ≤ now) ∨
      ∃ limit, a.limit = some limit ∧ Instant.after a.began limit ≤ now) :
    a.standing cancelled now ≠ .ongoing := by
  unfold standing
  split
  · nofun
  · split
    · nofun
    · rename_i runs
      rcases due with ⟨n, length, le⟩ | ⟨limit, limited, le⟩
      · simp [length, le] at runs
      · simp only [limited, if_pos le]
        nofun

namespace Run

/-- An attempt with a limit makes the run wait no longer than up to it. -/
theorem wakes_of_attempting {r : Run} {a : Underway} {limit : Duration}
    (phase : r.phase = .attempting a) (limited : a.limit = some limit) :
    ∃ wake, r.wakeAt = some wake ∧ wake ≤ Instant.after a.began limit ∧
      ∀ picks now tokens, wake ≤ now → (r.turn picks now tokens).isSome = true := by
  have goes_on : ∀ picks now tokens,
      ((∃ n, a.length = some n ∧ a.began + n ≤ now) ∨ Instant.after a.began limit ≤ now) →
      (r.turn picks now tokens).isSome = true := by
    intro picks now tokens due
    simp only [turn, phase, looking]
    split
    · exact absurd ‹_› (Underway.standing_ne_ongoing (due.imp_right fun le => ⟨limit, limited, le⟩))
    · rfl
    · rfl
  cases length : a.length with
  | none =>
    refine ⟨Instant.after a.began limit, ?_, Nat.le_refl _, fun picks now tokens le => ?_⟩
    · simp [wakeAt, phase, length, limited, earlier]
    · exact goes_on picks now tokens (.inr le)
  | some n =>
    refine ⟨min (a.began + n) (Instant.after a.began limit), ?_, Nat.min_le_right _ _,
      fun picks now tokens le => goes_on picks now tokens ?_⟩
    · simp [wakeAt, phase, length, limited, earlier]
    · have due : a.began + n ≤ now ∨ Instant.after a.began limit ≤ now := by omega
      exact due.imp_left fun le => ⟨n, length, le⟩

/-- What is settled about a run with a total limit when it starts. -/
structure Plan where
  job : Job
  terms : Terms
  picks : Picks
  deadline : Nat

namespace Plan

variable (c : Plan)

/-- The back-off after failed attempt `f`. -/
def delay (f : Begun) : Duration := c.terms.backoff.next (c.picks f.token) f.number

/-- When the back-off after failed attempt `f` has passed, if it begins at `v`. -/
def backoffEnd (v : Nat) (f : Begun) : Nat := Instant.after v (c.delay f)

/-- When the run goes on at the latest then. Without a delay there is no timer to wait for. -/
def resumedBy (v : Nat) (f : Begun) : Nat :=
  if (c.delay f).isZero then v else Instant.onGrain (c.backoffEnd v f)

/-- The failure of attempt `f`, the last one begun by then, was announced at `v`, with a retry to
follow. -/
def Announced (ts : List Taken) (v : Nat) (f : Begun) : Prop :=
  ∃ before x e, before ++ [x] <+: ts ∧ x.time = v ∧
    x.turn.event = some (.retry c.job f.number e) ∧
    (begunIn (before ++ [x])).getLast?.map Prod.snd = some f

/-- The time is up to the deadline, or up to the end of a back-off that reaches the deadline,
to the grain of timers. -/
def Within (ts : List Taken) (time : Nat) : Prop :=
  time ≤ Instant.onGrain c.deadline ∨
    ∃ v f, c.Announced ts v f ∧ c.deadline ≤ c.resumedBy v f ∧ time ≤ c.resumedBy v f

/-- The attempt after the one that failed was begun, once the back-off had passed. -/
def Made (ts : List Taken) (v : Nat) (f : Begun) : Prop :=
  ∃ u b, (u, b) ∈ begunIn ts ∧ b.job = c.job ∧ b.number = f.number + 1 ∧
    c.backoffEnd v f ≤ u ∧ u ≤ c.resumedBy v f

/-- The attempt after the one that failed never began: once the back-off had passed the run
ended with its total limit, which was used up. -/
def Dropped (ts : List Taken) (v : Nat) (f : Begun) : Prop :=
  (∀ x ∈ begunIn ts, x.2.number ≤ f.number) ∧
    ∃ u, (eventsAt ts).getLast? =
        some (u, .failed c.job (.timeout (c.terms.totalTimeout.getD .zero))) ∧
      c.deadline ≤ u ∧ c.backoffEnd v f ≤ u ∧ u ≤ c.resumedBy v f

variable {c} {ts : List Taken}

theorem backoffEnd_le_resumedBy (v : Nat) (f : Begun) : c.backoffEnd v f ≤ c.resumedBy v f := by
  unfold resumedBy
  split
  · rename_i none
    simp only [backoffEnd, Instant.after, Duration.isZero_iff.1 none]
    exact Nat.le_refl v
  · exact Instant.le_onGrain _

theorem within_of_announced {v time : Nat} {f : Begun} (announced : c.Announced ts v f)
    (le : time ≤ c.resumedBy v f) : c.Within ts time := by
  by_cases reaches : c.deadline ≤ c.resumedBy v f
  · exact .inr ⟨v, f, announced, reaches, le⟩
  · have := Instant.le_onGrain c.deadline
    exact .inl (by omega)

theorem not_announced_nil {v : Nat} {f : Begun} : ¬ c.Announced [] v f := by
  rintro ⟨before, x, -, le, -⟩
  exact absurd (List.prefix_nil.1 le) (by simp)

theorem within_of_lt {time : Nat} (lt : time < c.deadline) : c.Within ts time :=
  .inl (Nat.le_trans (Nat.le_of_lt lt) (Instant.le_onGrain _))

/-! ## One more turn -/

theorem eventsAt_concat (ts : List Taken) (x : Taken) :
    eventsAt (ts ++ [x]) = eventsAt ts ++ (x.turn.event.map fun ev => (x.time, ev)).toList := by
  cases h : x.turn.event <;> simp [eventsAt, h]

theorem begunIn_concat (ts : List Taken) (x : Taken) :
    begunIn (ts ++ [x]) = begunIn ts ++ (x.turn.begun.map fun b => (x.time, b)).toList := by
  cases h : x.turn.begun <;> simp [begunIn, h]

theorem announced_concat {x : Taken} {v : Nat} {f : Begun} :
    c.Announced (ts ++ [x]) v f ↔
      c.Announced ts v f ∨ (x.time = v ∧ (∃ e, x.turn.event = some (.retry c.job f.number e)) ∧
        (begunIn (ts ++ [x])).getLast?.map Prod.snd = some f) := by
  constructor
  · rintro ⟨before, y, e, le, time, retry, last⟩
    rcases List.prefix_concat_iff.1 le with same | le
    · obtain ⟨rfl, rfl⟩ := List.append_singleton_inj.1 same
      exact .inr ⟨time, ⟨e, retry⟩, last⟩
    · exact .inl ⟨before, y, e, le, time, retry, last⟩
  · rintro (⟨before, y, e, le, rest⟩ | ⟨time, ⟨e, retry⟩, last⟩)
    · exact ⟨before, y, e, le.trans (List.prefix_append ..), rest⟩
    · exact ⟨ts, x, e, List.prefix_rfl, time, retry, last⟩

theorem Announced.concat {v : Nat} {f : Begun} (h : c.Announced ts v f) (x : Taken) :
    c.Announced (ts ++ [x]) v f :=
  announced_concat.2 (.inl h)

theorem Within.concat {time : Nat} (h : c.Within ts time) (x : Taken) :
    c.Within (ts ++ [x]) time := by
  rcases h with le | ⟨v, f, announced, reaches, le⟩
  · exact .inl le
  · exact .inr ⟨v, f, announced.concat x, reaches, le⟩

theorem Made.concat {v : Nat} {f : Begun} (h : c.Made ts v f) (x : Taken) :
    c.Made (ts ++ [x]) v f := by
  obtain ⟨u, b, begun, made⟩ := h
  refine ⟨u, b, ?_, made⟩
  rw [begunIn_concat]
  exact List.mem_append_left _ begun

/-! ## The invariant -/

variable (c) in
/-- What became of the retry announced at `v` after failed attempt `f`, as far as it goes. -/
def Stands (ts : List Taken) (m : Moment) (v : Nat) (f : Begun) : Prop :=
  match m.run.phase with
  | .opening | .unwound => False
  | .ready => c.Made ts v f ∨
      (m.run.attempt = f.number + 1 ∧ c.backoffEnd v f ≤ m.now ∧ m.now ≤ c.resumedBy v f)
  | .attempting _ => c.Made ts v f
  | .waiting wake => c.Made ts v f ∨
      (m.run.attempt = f.number ∧ c.backoffEnd v f = wake ∧
        c.resumedBy v f = Instant.onGrain wake)
  | .finished _ => c.Made ts v f ∨ c.Dropped ts v f

theorem stands_of_made {m : Moment} {v : Nat} {f : Begun}
    (begun : m.run.phase ≠ .opening ∧ m.run.phase ≠ .unwound) (made : c.Made ts v f) :
    c.Stands ts m v f := by
  unfold Stands
  split
  · exact absurd ‹_› begun.1
  · exact absurd ‹_› begun.2
  · exact .inl made
  · exact made
  · exact .inl made
  · exact .inl made

variable (c) in
/-- What bounds the time that the run may still take where it is. -/
def Poised (ts : List Taken) (m : Moment) : Prop :=
  match m.run.phase with
  | .opening => ts = [] ∧ m.now < c.deadline
  | .ready => c.Within ts m.now ∧ ∀ x ∈ begunIn ts, x.2.number < m.run.attempt
  | .attempting a => m.now ≤ Instant.onGrain c.deadline ∧
      (begunIn ts).getLast?.map Prod.snd = some ⟨m.run.job, m.run.attempt, a.token⟩ ∧
      ∃ limit, a.limit = some limit ∧ Instant.after a.began limit ≤ c.deadline
  | .waiting wake => m.now ≤ Instant.onGrain wake ∧
      ∃ v f, c.Announced ts v f ∧ c.resumedBy v f = Instant.onGrain wake
  | .finished b => ∃ u last, (eventsAt ts).getLast? = some (u, last) ∧ Closes c.job b last
  | .unwound => False

variable (c) in
/-- The attempt that a turn begins, if it does, is no later one, and before the deadline. -/
def BeginsInTime (m : Moment) (t : Turn) : Prop :=
  ∀ b, t.begun = some b → m.now < c.deadline ∧ b.number ≤ m.run.attempt

theorem beginsInTime_of_none {m : Moment} {t : Turn} (none : t.begun = none) :
    c.BeginsInTime m t := by
  simp [BeginsInTime, none]

end Plan

open Plan

/-- The run at `m`, after the turns `ts`, keeps to its limit as far as runs do. -/
structure Timely (c : Plan) (ts : List Taken) (m : Moment) : Prop where
  job_eq : m.run.job = c.job
  terms_eq : m.run.terms = c.terms
  deadline_eq : m.run.deadline = some c.deadline
  attempts : ∀ x ∈ begunIn ts, x.1 < c.deadline ∧ x.2.number ≤ m.run.attempt
  retries : ∀ v f, c.Announced ts v f → v < c.deadline ∧ c.Stands ts m v f
  told : ∀ v n e, (v, .retry c.job n e) ∈ eventsAt ts → ∃ f, f.number = n ∧ c.Announced ts v f
  turns : ∀ x ∈ ts, c.Within ts x.time
  poised : c.Poised ts m

namespace Timely

variable {c : Plan} {ts : List Taken} {m : Moment} {t : Turn}

theorem lt_deadline (h : Timely c ts m) (inTime : m.run.isExpired m.now = false) :
    m.now < c.deadline :=
  Run.lt_deadline inTime h.deadline_eq

theorem deadline_le (h : Timely c ts m) (late : m.run.isExpired m.now = true) :
    c.deadline ≤ m.now := by
  obtain ⟨d, hd, le⟩ := isExpired_iff.1 late
  rw [h.deadline_eq] at hd
  cases hd
  exact le

/-- An attempt that begins before the deadline may run no longer than up to it. -/
theorem limit_le (h : Timely c ts m) (inTime : m.run.isExpired m.now = false) :
    ∃ limit, m.run.attemptLimit m.now = some limit ∧ Instant.after m.now limit ≤ c.deadline := by
  have lt := h.lt_deadline inTime
  have left : (Instant.left m.now c.deadline).nanos ≤ c.deadline - m.now := Nat.min_le_left ..
  unfold attemptLimit Run.left
  rw [h.deadline_eq]
  cases m.run.terms.attemptTimeout with
  | none =>
    refine ⟨_, rfl, ?_⟩
    unfold Instant.after
    omega
  | some own =>
    refine ⟨_, rfl, ?_⟩
    unfold Instant.after
    rw [Duration.nanos_shorter]
    omega

theorem within (h : Timely c ts m) (unfinished : ∀ b, m.run.phase ≠ .finished b) :
    c.Within ts m.now := by
  have poised := h.poised
  unfold Poised at poised
  cases phase : m.run.phase with
  | opening =>
    rw [phase] at poised
    exact within_of_lt poised.2
  | ready =>
    rw [phase] at poised
    exact poised.1
  | attempting a =>
    rw [phase] at poised
    exact .inl poised.1
  | waiting wake =>
    rw [phase] at poised
    obtain ⟨le, v, f, announced, resumed⟩ := poised
    exact within_of_announced announced (resumed ▸ le)
  | finished b => exact absurd phase (unfinished b)
  | unwound =>
    rw [phase] at poised
    cases poised

/-! ## What each turn does -/

theorem attempts_concat (h : Timely c ts m)
    (begun : c.BeginsInTime m t) :
    ∀ x ∈ begunIn (ts ++ [⟨m.now, t⟩]), x.1 < c.deadline ∧ x.2.number ≤ m.run.attempt := by
  intro x hx
  rw [begunIn_concat] at hx
  rcases List.mem_append.1 hx with hx | hx
  · exact h.attempts x hx
  · obtain ⟨b, hb, rfl⟩ : ∃ b, t.begun = some b ∧ (m.now, b) = x := by simpa using hx
    exact begun b hb

theorem concat (h : Timely c ts m) (within : c.Within ts m.now)
    (same : t.next.job = m.run.job ∧ t.next.terms = m.run.terms ∧
      t.next.deadline = m.run.deadline)
    (attempt_le : m.run.attempt ≤ t.next.attempt)
    (begun : c.BeginsInTime m t)
    (retries : ∀ v f, c.Announced (ts ++ [⟨m.now, t⟩]) v f →
      v < c.deadline ∧ c.Stands (ts ++ [⟨m.now, t⟩]) (m.after t) v f)
    (told : ∀ n e, t.event = some (.retry c.job n e) →
      ∃ f, f.number = n ∧ c.Announced (ts ++ [⟨m.now, t⟩]) m.now f)
    (poised : c.Poised (ts ++ [⟨m.now, t⟩]) (m.after t)) :
    Timely c (ts ++ [⟨m.now, t⟩]) (m.after t) where
  job_eq := same.1.trans h.job_eq
  terms_eq := same.2.1.trans h.terms_eq
  deadline_eq := same.2.2.trans h.deadline_eq
  attempts x hx := by
    obtain ⟨early, le⟩ := h.attempts_concat begun x hx
    exact ⟨early, Nat.le_trans le attempt_le⟩
  retries := retries
  told v n e told_at := by
    rw [eventsAt_concat] at told_at
    rcases List.mem_append.1 told_at with before | now
    · obtain ⟨f, number, announced⟩ := h.told v n e before
      exact ⟨f, number, announced.concat _⟩
    · obtain ⟨retry, rfl⟩ : t.event = some (.retry c.job n e) ∧ m.now = v := by simpa using now
      exact told n e retry
  turns x hx := by
    rcases List.mem_append.1 hx with hx | hx
    · exact (h.turns x hx).concat _
    · rw [List.mem_singleton.1 hx]
      exact within.concat _
  poised := poised

/-- A turn without an event announces nothing. -/
theorem announced_of_silent {v : Nat} {f : Begun}
    (silent : ∀ n e, t.event ≠ some (.retry c.job n e))
    (announced : c.Announced (ts ++ [⟨m.now, t⟩]) v f) : c.Announced ts v f := by
  rcases announced_concat.1 announced with before | ⟨-, ⟨e, retry⟩, -⟩
  · exact before
  · exact absurd retry (silent _ e)

/-- The run ends. -/
theorem of_closing (h : Timely c ts m) (within : c.Within ts m.now) {b : Bool} {last : Event}
    (event : t.event = some last) (closes : Closes c.job b last)
    (next : t.next = { m.run with phase := .finished b })
    (begun : c.BeginsInTime m t)
    (settled : ∀ v f, c.Announced ts v f →
      c.Made (ts ++ [⟨m.now, t⟩]) v f ∨ c.Dropped (ts ++ [⟨m.now, t⟩]) v f) :
    Timely c (ts ++ [⟨m.now, t⟩]) (m.after t) := by
  have silent : ∀ n e, t.event ≠ some (.retry c.job n e) := by
    intro n e retry
    rw [event] at retry
    cases retry
    cases closes
  refine h.concat within ?_ ?_ begun ?_ (fun n e retry => absurd retry (silent n e)) ?_
  · rw [next]
    exact ⟨rfl, rfl, rfl⟩
  · exact Nat.le_of_eq (congrArg Run.attempt next).symm
  · intro v f announced
    have before := announced_of_silent silent announced
    refine ⟨(h.retries v f before).1, ?_⟩
    simp only [Stands, Moment.after, next]
    exact settled v f before
  · simp only [Poised, Moment.after, next]
    exact ⟨m.now, last, by simp [eventsAt_concat, event], closes⟩

/-- A retry is announced. -/
theorem of_retry (h : Timely c ts m) (within : c.Within ts m.now) {e : JobError}
    (event : t.event = some (.retry m.run.job m.run.attempt e))
    (inTime : m.run.isExpired m.now = false)
    (same : t.next.job = m.run.job ∧ t.next.terms = m.run.terms ∧
      t.next.deadline = m.run.deadline)
    (attempt_le : m.run.attempt ≤ t.next.attempt)
    (goes_on : t.next.phase ≠ .opening ∧ t.next.phase ≠ .unwound)
    (begun : c.BeginsInTime m t) {token : TokenId}
    (last : (begunIn (ts ++ [⟨m.now, t⟩])).getLast?.map Prod.snd =
      some ⟨m.run.job, m.run.attempt, token⟩)
    (made : ∀ v f, c.Announced ts v f → c.Made (ts ++ [⟨m.now, t⟩]) v f)
    (stands : c.Stands (ts ++ [⟨m.now, t⟩]) (m.after t) m.now
      ⟨m.run.job, m.run.attempt, token⟩)
    (poised : c.Poised (ts ++ [⟨m.now, t⟩]) (m.after t)) :
    Timely c (ts ++ [⟨m.now, t⟩]) (m.after t) := by
  refine h.concat within same attempt_le begun (fun v f announced => ?_) (fun n e' retry => ?_)
    poised
  · rcases announced_concat.1 announced with before | ⟨rfl, -, last'⟩
    · exact ⟨(h.retries v f before).1, stands_of_made goes_on (made v f before)⟩
    · obtain rfl := Option.some.inj (last.symm.trans last')
      exact ⟨h.lt_deadline inTime, stands⟩
  · rw [event, h.job_eq] at retry
    cases retry
    exact ⟨_, rfl, announced_concat.2 (.inr ⟨rfl, ⟨e, h.job_eq ▸ event⟩, last⟩)⟩

/-- An attempt ends, and with it the run, or a retry is announced. -/
theorem of_concludes (h : Timely c ts m) (within : c.Within ts m.now) {token : TokenId}
    {e : Option JobError} (concludes : t.Concludes m.run (c.picks token) m.now e)
    (begun : c.BeginsInTime m t)
    (last : (begunIn (ts ++ [⟨m.now, t⟩])).getLast?.map Prod.snd =
      some ⟨m.run.job, m.run.attempt, token⟩)
    (made : ∀ v f, c.Announced ts v f → c.Made (ts ++ [⟨m.now, t⟩]) v f) :
    Timely c (ts ++ [⟨m.now, t⟩]) (m.after t) := by
  obtain ⟨ev, event, concluded⟩ := concludes
  have settled : ∀ v f, c.Announced ts v f →
      c.Made (ts ++ [⟨m.now, t⟩]) v f ∨ c.Dropped (ts ++ [⟨m.now, t⟩]) v f :=
    fun v f announced => .inl (made v f announced)
  let f : Begun := ⟨m.run.job, m.run.attempt, token⟩
  have delay_eq : m.run.terms.backoff.next (c.picks token) m.run.attempt = c.delay f := by
    rw [h.terms_eq, Plan.delay]
  generalize next : t.next = r at concluded
  cases concluded with
  | handled => exact h.of_closing within event (h.job_eq ▸ .success) next begun settled
  | late expired => exact h.of_closing within event (h.job_eq ▸ .failure _) next begun settled
  | failed expired refused =>
    exact h.of_closing within event (h.job_eq ▸ .failure _) next begun settled
  | retriedAtOnce inTime allowed wanted delay =>
    rw [delay_eq] at delay
    have resumed : c.resumedBy m.now f = m.now := by simp [resumedBy, delay]
    refine h.of_retry within event inTime ?_ ?_ ?_ begun last made ?_ ?_
    · rw [next]
      exact ⟨rfl, rfl, rfl⟩
    · rw [next]
      exact Nat.le_succ _
    · rw [next]
      exact ⟨nofun, nofun⟩
    · simp only [Stands, Moment.after, next]
      refine .inr ⟨trivial, ?_, Nat.le_of_eq resumed.symm⟩
      exact Nat.le_trans (backoffEnd_le_resumedBy ..) (Nat.le_of_eq resumed)
    · simp only [Poised, Moment.after, next]
      exact ⟨within_of_lt (h.lt_deadline inTime),
        fun x hx => Nat.lt_succ_of_le (h.attempts_concat begun x hx).2⟩
  | retriedLater inTime allowed wanted delay =>
    rw [delay_eq] at delay next
    have resumed : c.resumedBy m.now f = Instant.onGrain (c.backoffEnd m.now f) := by
      simp [resumedBy, delay]
    refine h.of_retry within event inTime ?_ ?_ ?_ begun last made ?_ ?_
    · rw [next]
      exact ⟨rfl, rfl, rfl⟩
    · exact Nat.le_of_eq (congrArg Run.attempt next).symm
    · rw [next]
      exact ⟨nofun, nofun⟩
    · simp only [Stands, Moment.after, next]
      exact .inr ⟨trivial, rfl, resumed⟩
    · simp only [Poised, Moment.after, next]
      refine ⟨?_, m.now, f, ?_, resumed⟩
      · exact Nat.le_trans (Nat.le_add_right _ _) (Instant.le_onGrain _)
      · exact announced_concat.2 (.inr ⟨rfl, ⟨_, h.job_eq ▸ event⟩, last⟩)

/-- The run ends because its time was up before the next attempt began. -/
theorem of_expired (h : Timely c ts m) (phase : m.run.phase = .ready)
    (late : m.run.isExpired m.now = true) (begun : t.begun = none)
    (concludes : t.Concludes m.run .least m.now (some m.run.totalTimeout)) :
    Timely c (ts ++ [⟨m.now, t⟩]) (m.after t) := by
  obtain ⟨ev, event, concluded⟩ := concludes
  have poised := h.poised
  simp only [Poised, phase] at poised
  generalize next : t.next = r at concluded
  cases concluded with
  | late expired =>
    refine h.of_closing poised.1 event (h.job_eq ▸ .failure _) next
      (beginsInTime_of_none begun) ?_
    intro v f announced
    have stands := (h.retries v f announced).2
    simp only [Stands, phase] at stands
    rcases stands with made | ⟨attempt, passed, resumed⟩
    · exact .inl (made.concat _)
    · refine .inr ⟨fun x hx => ?_, m.now, ?_, h.deadline_le late, passed, resumed⟩
      · rw [begunIn_concat, begun] at hx
        have := poised.2 x (by simpa using hx)
        omega
      · rw [← h.job_eq, ← h.terms_eq]
        simp [eventsAt_concat, event, totalTimeout]
  | failed expired refused => simp [late] at expired
  | retriedAtOnce expired allowed wanted delay => simp [late] at expired
  | retriedLater expired allowed wanted delay => simp [late] at expired

theorem beginsInTime_of_begun (h : Timely c ts m) (inTime : m.run.isExpired m.now = false)
    {token : TokenId} (begun : t.begun = some ⟨m.run.job, m.run.attempt, token⟩) :
    c.BeginsInTime m t := by
  intro b hb
  rw [begun] at hb
  cases hb
  exact ⟨h.lt_deadline inTime, Nat.le_refl _⟩

/-- The attempt that begins now is the one that the last retry announced. -/
theorem made_of_begun (h : Timely c ts m) (phase : m.run.phase = .ready) {token : TokenId}
    (begun : t.begun = some ⟨m.run.job, m.run.attempt, token⟩) {v : Nat} {f : Begun}
    (announced : c.Announced ts v f) : c.Made (ts ++ [⟨m.now, t⟩]) v f := by
  have stands := (h.retries v f announced).2
  simp only [Stands, phase] at stands
  rcases stands with made | ⟨attempt, passed, resumed⟩
  · exact made.concat _
  · refine ⟨m.now, ⟨m.run.job, m.run.attempt, token⟩, ?_, h.job_eq, attempt, passed, resumed⟩
    rw [begunIn_concat, begun]
    simp

/-- The attempt that begins now is the last one begun. -/
theorem last_of_begun {token : TokenId}
    (begun : t.begun = some ⟨m.run.job, m.run.attempt, token⟩) :
    (begunIn (ts ++ [⟨m.now, t⟩])).getLast?.map Prod.snd =
      some ⟨m.run.job, m.run.attempt, token⟩ := by
  simp [begunIn_concat, begun]

/-- The job is announced, and its first attempt is at hand. -/
theorem of_announced (h : Timely c ts m) (phase : m.run.phase = .opening) (begun : t.begun = none)
    (event : t.event = some (.before m.run.job)) (next : t.next = { m.run with phase := .ready }) :
    Timely c (ts ++ [⟨m.now, t⟩]) (m.after t) := by
  have poised := h.poised
  simp only [Poised, phase] at poised
  obtain ⟨rfl, lt⟩ := poised
  refine h.concat (within_of_lt lt) ?_ ?_ (beginsInTime_of_none begun) ?_ (by simp [event]) ?_
  · rw [next]
    exact ⟨rfl, rfl, rfl⟩
  · exact Nat.le_of_eq (congrArg Run.attempt next).symm
  · intro v f announced
    exact absurd (announced_of_silent (by simp [event]) announced) not_announced_nil
  · simp only [Poised, Moment.after, next]
    exact ⟨within_of_lt lt, by simp [begunIn, begun]⟩

/-- The back-off is over, and the attempt that was announced is at hand. -/
theorem of_woken (h : Timely c ts m) {wake : Nat} (phase : m.run.phase = .waiting wake)
    (due : wake ≤ m.now) (begun : t.begun = none) (event : t.event = none)
    (next : t.next = { m.run with phase := .ready, attempt := m.run.attempt + 1 }) :
    Timely c (ts ++ [⟨m.now, t⟩]) (m.after t) := by
  have within : c.Within ts m.now := h.within (by simp [phase])
  have poised := h.poised
  simp only [Poised, phase] at poised
  have unbegun : c.BeginsInTime m t := beginsInTime_of_none begun
  refine h.concat within ?_ ?_ unbegun ?_ (by simp [event]) ?_
  · rw [next]
    exact ⟨rfl, rfl, rfl⟩
  · rw [next]
    exact Nat.le_succ _
  · intro v f announced
    obtain ⟨early, stands⟩ := h.retries v f (announced_of_silent (by simp [event]) announced)
    refine ⟨early, ?_⟩
    simp only [Stands, phase] at stands
    simp only [Stands, Moment.after, next]
    rcases stands with made | ⟨attempt, passed, resumed⟩
    · exact .inl (made.concat _)
    · exact .inr ⟨congrArg (· + 1) attempt, passed ▸ due, resumed ▸ poised.1⟩
  · simp only [Poised, Moment.after, next]
    exact ⟨within.concat _, fun x hx => Nat.lt_succ_of_le (h.attempts_concat unbegun x hx).2⟩

/-- An attempt begins, with no more time than is left. -/
theorem of_begun (h : Timely c ts m) (phase : m.run.phase = .ready)
    (inTime : m.run.isExpired m.now = false) {token : TokenId}
    (begun : t.begun = some ⟨m.run.job, m.run.attempt, token⟩) (event : t.event = none)
    {length : Option Nat} {ending : Ending} {onCancel : Option Ending}
    (next : t.next =
      { m.run with phase := .attempting (m.run.underway m.now token length ending onCancel) }) :
    Timely c (ts ++ [⟨m.now, t⟩]) (m.after t) := by
  have lt := h.lt_deadline inTime
  refine h.concat (within_of_lt lt) ?_ ?_ (h.beginsInTime_of_begun inTime begun) ?_
    (by simp [event]) ?_
  · rw [next]
    exact ⟨rfl, rfl, rfl⟩
  · exact Nat.le_of_eq (congrArg Run.attempt next).symm
  · intro v f announced
    have before := announced_of_silent (by simp [event]) announced
    refine ⟨(h.retries v f before).1, ?_⟩
    simp only [Stands, Moment.after, next]
    exact h.made_of_begun phase begun before
  · simp only [Poised, Moment.after, next]
    exact ⟨Nat.le_trans (Nat.le_of_lt lt) (Instant.le_onGrain _), last_of_begun begun,
      h.limit_le inTime⟩

theorem turn (h : Timely c ts m) (next : m.turn c.picks = some t) :
    Timely c (ts ++ [⟨m.now, t⟩]) (m.after t) := by
  cases turned_of_turn next with
  | announced phase tokens_eq begun event next => exact h.of_announced phase begun event next
  | woken phase due tokens_eq begun event next => exact h.of_woken phase due begun event next
  | expired phase late tokens_eq begun concludes => exact h.of_expired phase late begun concludes
  | begun phase inTime attempt ongoing tokens_eq begun event next =>
    exact h.of_begun phase inTime begun event next
  | stillborn phase inTime attempt tokens_eq begun concludes =>
    exact h.of_concludes (within_of_lt (h.lt_deadline inTime)) concludes
      (h.beginsInTime_of_begun inTime begun) (last_of_begun begun) fun v f announced =>
        h.made_of_begun phase begun announced
  | instant phase inTime attempt ends begun concludes =>
    exact h.of_concludes (within_of_lt (h.lt_deadline inTime)) concludes
      (h.beginsInTime_of_begun inTime begun) (last_of_begun begun) fun v f announced =>
        h.made_of_begun phase begun announced
  | ended phase ends begun concludes =>
    have poised := h.poised
    simp only [Poised, phase] at poised
    refine h.of_concludes (h.within (by simp [phase])) concludes (beginsInTime_of_none begun) ?_
      fun v f announced => ?_
    · rw [begunIn_concat, begun, Option.map_none, Option.toList_none, List.append_nil]
      exact poised.2.1
    · have stands := (h.retries v f announced).2
      simp only [Stands, phase] at stands
      exact stands.concat _

/-- Waiting takes a run no further than to the time it waits for. -/
theorem wait (h : Timely c ts m) (waits : m.turn c.picks = none) {later : Nat}
    (le_latest : ∀ t ∈ m.latest, later ≤ t) : Timely c ts { m with now := later } := by
  obtain ⟨not_opening, not_ready⟩ := phase_of_waits waits
  have poised := h.poised
  refine ⟨h.job_eq, h.terms_eq, h.deadline_eq, h.attempts, fun v f announced => ?_, h.told, h.turns,
    ?_⟩
  · obtain ⟨early, stands⟩ := h.retries v f announced
    refine ⟨early, ?_⟩
    cases phase : m.run.phase with
    | opening => exact absurd phase not_opening
    | ready => exact absurd phase not_ready
    | unwound => simp only [Stands, phase] at stands
    | _ => simpa only [Stands, phase] using stands
  · cases phase : m.run.phase with
    | opening => exact absurd phase not_opening
    | ready => exact absurd phase not_ready
    | attempting a =>
      simp only [Poised, phase] at poised ⊢
      obtain ⟨-, last, limit, limited, le⟩ := poised
      obtain ⟨wake, wakes, wake_le, -⟩ := wakes_of_attempting phase limited
      refine ⟨?_, last, limit, limited, le⟩
      have latest : m.latest = some (Instant.onGrain wake) := by simp [Moment.latest, wakes]
      exact Nat.le_trans (le_latest _ latest) (Instant.onGrain_mono (Nat.le_trans wake_le le))
    | waiting wake =>
      simp only [Poised, phase] at poised ⊢
      refine ⟨le_latest _ ?_, poised.2⟩
      simp [Moment.latest, wakeAt, phase]
    | finished b => simpa only [Poised, phase] using poised
    | unwound => simp only [Poised, phase] at poised

theorem of_course {m' : Moment} {ts' : List Taken} (h : Timely c ts m)
    (course : Course c.picks m ts' m') : Timely c (ts ++ ts') m' := by
  -- the turns taken before grow from the front of the course to its end
  induction course generalizing ts with
  | here m => rwa [List.append_nil]
  | turn next rest ih =>
    rw [List.append_cons]
    exact ih (h.turn next)
  | wait later waits now_le le_latest rest ih => exact ih (h.wait waits le_latest)
  | others tokens before rest ih =>
    exact ih ⟨h.job_eq, h.terms_eq, h.deadline_eq, h.attempts, h.retries, h.told, h.turns,
      h.poised⟩

theorem start {job : Job} {defaults : JobDefaults} {now : Nat} {tokens : Tokens} {picks : Picks}
    {total : Duration} (limited : total ∈ (Terms.resolve job.overrides defaults).totalTimeout)
    (onClock : onClock job defaults now = true) :
    Timely ⟨job, .resolve job.overrides defaults, picks, Instant.after now total⟩ []
      (.start job defaults now tokens) where
  job_eq := rfl
  terms_eq := rfl
  deadline_eq := mem_deadline_start.2 ⟨total, limited, rfl⟩
  attempts x hx := absurd hx List.not_mem_nil
  retries v f announced := absurd announced not_announced_nil
  told v n e told := absurd told List.not_mem_nil
  turns x hx := absurd hx List.not_mem_nil
  poised := by
    have pos := (Terms.isNormal_resolve ..).total_pos total limited
    simp only [Poised, Moment.start, phase_start_of_onClock onClock]
    exact ⟨trivial, Nat.lt_add_of_pos_right pos⟩

/-- A run that is not over can go on now, or waits for a time within the limit at which it
can. -/
theorem goes_on (h : Timely c ts m) (unfinished : ∀ b, m.run.phase ≠ .finished b) :
    (m.turn c.picks).isSome = true ∨
      ∃ wake, m.run.wakeAt = some wake ∧ c.Within ts (Instant.onGrain wake) ∧
        ∀ picks now tokens, wake ≤ now → (m.run.turn picks now tokens).isSome = true := by
  have poised := h.poised
  cases phase : m.run.phase with
  | opening => simp [Moment.turn, Run.turn, phase]
  | ready =>
    left
    simp only [Moment.turn, Run.turn, phase]
    split <;> rfl
  | attempting a =>
    simp only [Poised, phase] at poised
    obtain ⟨-, -, limit, limited, le⟩ := poised
    obtain ⟨wake, wakes, wake_le, awake⟩ := wakes_of_attempting phase limited
    exact .inr ⟨wake, wakes, .inl (Instant.onGrain_mono (Nat.le_trans wake_le le)), awake⟩
  | waiting wake =>
    simp only [Poised, phase] at poised
    obtain ⟨-, v, f, announced, resumed⟩ := poised
    refine .inr ⟨wake, by simp [wakeAt, phase], ?_, ?_⟩
    · exact within_of_announced announced (Nat.le_of_eq resumed.symm)
    · intro picks now tokens le
      simp [Run.turn, phase, le]
  | finished b => exact absurd phase (unfinished b)
  | unwound => simp only [Poised, phase] at poised

/-- Once the run is over, an announced attempt was made if the back-off before it ended in
time, and dropped if not. -/
theorem settled (h : Timely c ts m) {b : Bool} (finished : m.run.phase = .finished b) {v : Nat}
    {f : Begun} (announced : c.Announced ts v f) :
    (c.resumedBy v f < c.deadline → c.Made ts v f) ∧
      (c.deadline ≤ c.backoffEnd v f → c.Dropped ts v f) := by
  have stands := (h.retries v f announced).2
  simp only [Stands, finished] at stands
  rcases stands with made | dropped
  · refine ⟨fun _ => made, fun reached => ?_⟩
    obtain ⟨u, b, begun, -, -, passed, -⟩ := made
    have early : u < c.deadline := (h.attempts _ begun).1
    omega
  · refine ⟨fun inTime => ?_, fun _ => dropped⟩
    obtain ⟨-, u, -, late, -, resumed⟩ := dropped
    omega

theorem closed (h : Timely c ts m) {b : Bool} (finished : m.run.phase = .finished b) :
    ∃ u last, (eventsAt ts).getLast? = some (u, last) ∧ Closes c.job b last ∧ c.Within ts u := by
  have poised := h.poised
  simp only [Poised, finished] at poised
  obtain ⟨u, last, is_last, closes⟩ := poised
  obtain ⟨x, hx, told⟩ := List.mem_filterMap.1 (List.mem_of_getLast? is_last)
  obtain ⟨ev, -, same⟩ := Option.map_eq_some_iff.1 told
  have time : x.time = u := congrArg Prod.fst same
  exact ⟨u, last, is_last, closes, time ▸ h.turns x hx⟩

end Timely

/-! ## The number of turns -/

/-- How many turns a run that stands there can have taken. -/
def turnsTaken (r : Run) : Nat :=
  match r.phase with
  | .opening => 0
  | .ready => 3 * r.attempt + 1
  | .attempting _ => 3 * r.attempt + 2
  | .waiting _ | .finished _ | .unwound => 3 * r.attempt + 3

theorem turnsTaken_le (r : Run) : r.turnsTaken ≤ 3 * r.attempt + 3 := by
  unfold turnsTaken
  split <;> omega

theorem Concluded.turnsTaken_lt {r next : Run} {pick : Pick} {now : Nat} {e : Option JobError}
    {ev : Event} (h : Concluded r pick now e ev next) : 3 * r.attempt + 2 < next.turnsTaken := by
  cases h <;> simp only [turnsTaken] <;> omega

theorem Turned.turnsTaken_lt {r : Run} {picks : Picks} {now : Nat} {tokens : Tokens} {t : Turn}
    (h : Turned r picks now tokens t) : r.turnsTaken < t.next.turnsTaken := by
  cases h with
  | announced phase _ _ _ next =>
    rw [next]
    simp only [turnsTaken, phase]
    omega
  | woken phase _ _ _ _ next =>
    rw [next]
    simp only [turnsTaken, phase]
    omega
  | begun phase _ _ _ _ _ _ next =>
    rw [next]
    simp only [turnsTaken, phase]
    omega
  | expired phase _ _ _ concludes =>
    have := concludes.choose_spec.2.turnsTaken_lt
    simp only [turnsTaken, phase] at this ⊢
    omega
  | stillborn phase _ _ _ _ concludes =>
    have := concludes.choose_spec.2.turnsTaken_lt
    simp only [turnsTaken, phase] at this ⊢
    omega
  | «instant» phase _ _ _ _ concludes =>
    have := concludes.choose_spec.2.turnsTaken_lt
    simp only [turnsTaken, phase] at this ⊢
    omega
  | ended phase _ _ concludes =>
    have := concludes.choose_spec.2.turnsTaken_lt
    simp only [turnsTaken, phase] at this ⊢
    omega

theorem turnsTaken_of_course {picks : Picks} {m m' : Moment} {ts : List Taken}
    (course : Course picks m ts m') : m.run.turnsTaken + ts.length ≤ m'.run.turnsTaken := by
  induction course with
  | here m => exact Nat.le_refl _
  | @turn m m' t ts next rest ih =>
    have lt := (turned_of_turn next).turnsTaken_lt
    have ih : t.next.turnsTaken + ts.length ≤ m'.run.turnsTaken := ih
    rw [List.length_cons]
    omega
  | wait later waits now_le le_latest rest ih => exact ih
  | others tokens before rest ih => exact ih

/-! ## A run with a total limit -/

/-- Where turns are taken as soon as they can be and the clock can tell the deadline: all attempts
begin and all retries are announced before the deadline. A run ends after finitely many turns, and
until it does it always can go on, or waits for a time at which it can; all this is at or before
the deadline, to the grain of timers, or else at or before the end of a back-off that reaches the
deadline, for the limit does not cut a back-off. If the back-off after a failed attempt ends
before the deadline the announced attempt is made; if it does not, the attempt is dropped, and the
run ends with the total limit when the back-off does. -/
theorem limit_of_played {job : Job} {defaults : JobDefaults} {s s' : Stage} {r : Run}
    {ts : List Taken} {total : Duration} (played : Played s (.start job defaults s.hub.now) ts s' r)
    (limited : total ∈ (Terms.resolve job.overrides defaults).totalTimeout)
    (onClock : Instant.canTell s.hub.now total = true) :
    let c : Plan := ⟨job, .resolve job.overrides defaults, s.picks, Instant.after s.hub.now total⟩
    (∀ x ∈ begunIn ts, x.1 < c.deadline) ∧
    (∀ v n e, (v, .retry job n e) ∈ eventsAt ts →
      v < c.deadline ∧ ∃ f, f.number = n ∧ c.Announced ts v f) ∧
    (∀ x ∈ ts, c.Within ts x.time) ∧
    ts.length ≤ 3 * c.terms.maxAttempts + 3 ∧
    ((∀ b, r.phase ≠ .finished b) → c.Within ts s'.hub.now ∧
      ((r.turn s.picks s'.hub.now s'.tokens).isSome = true ∨
        ∃ wake, r.wakeAt = some wake ∧ c.Within ts (Instant.onGrain wake) ∧
          ∀ picks now tokens, wake ≤ now → (r.turn picks now tokens).isSome = true)) ∧
    ∀ b, r.phase = .finished b →
      (∃ u last, (eventsAt ts).getLast? = some (u, last) ∧ Closes job b last ∧
        c.Within ts u) ∧
      ∀ v f, c.Announced ts v f →
        (c.resumedBy v f < c.deadline → c.Made ts v f) ∧
        (c.deadline ≤ c.backoffEnd v f → c.Dropped ts v f) := by
  intro c
  have course := played.course
  have tells : Run.onClock job defaults s.hub.now = true := by
    simp [Run.onClock, Option.mem_def.1 limited, onClock]
  have begins : Timely c [] (.start job defaults s.hub.now s.tokens) := .start limited tells
  have timely : Timely c ts ⟨s'.hub.now, s'.tokens, r⟩ := begins.of_course course
  have rounds := ((inRound_start job defaults s.hub.now).of_course course).le
  have turns := turnsTaken_of_course course
  have most := r.turnsTaken_le
  refine ⟨fun x hx => (timely.attempts x hx).1, fun v n e told => ?_, timely.turns, ?_,
    fun unfinished => ⟨timely.within unfinished, timely.goes_on unfinished⟩,
    fun b finished => ⟨timely.closed finished, fun v f => timely.settled finished⟩⟩
  · obtain ⟨f, number, announced⟩ := timely.told v n e told
    exact ⟨(timely.retries v f announced).1, f, number, announced⟩
  have : c.terms.maxAttempts = (Terms.resolve job.overrides defaults).maxAttempts := rfl
  have : ts.length ≤ r.turnsTaken := Nat.le_trans (Nat.le_add_left ..) turns
  have : r.attempt ≤ (Terms.resolve job.overrides defaults).maxAttempts := rounds
  omega

/-- A job that fails at once, always, with 5 ms in all and the same back-off each time. -/
def persistent (backoff : Duration) : Job where
  id := 0
  name := "persistent"
  overrides :=
    { retryDelay := some backoff, retryDelayStep := some .zero, totalLimit := some (.ofMillis 5) }
  shouldRetry := fun _ => true
  attempt := fun _ => .runs (some 0) (.failure (.fail "no")) none

/-- Back-offs of 3 ms: the first ends in time, the second does not. -/
theorem course_persistent : ∃ ts m,
    Course .least (.start (persistent (.ofMillis 3)) {} 0 {}) ts m ∧
      m.run.phase = .finished false ∧
      eventsAt ts = [(0, .before (persistent (.ofMillis 3))),
        (0, .retry (persistent (.ofMillis 3)) 1 (.fail "no")),
        (3000000, .retry (persistent (.ofMillis 3)) 2 (.fail "no")),
        (6000000, .failed (persistent (.ofMillis 3)) (.timeout (.ofMillis 5)))] := by
  refine ⟨_, _, .turn rfl (.turn rfl (.wait 3000000 rfl (by decide) ?_ (.turn rfl (.turn rfl
    (.wait 6000000 rfl (by decide) ?_ (.turn rfl (.turn rfl (.here _)))))))), rfl, rfl⟩
  · intro t latest
    have : some 3000000 = some t := latest
    exact Nat.le_of_eq (Option.some.inj this)
  · intro t latest
    have : some 6000000 = some t := latest
    exact Nat.le_of_eq (Option.some.inj this)

theorem limit_of_played_persistent : ∃ ts s r,
    Played {} (.start (persistent (.ofMillis 3)) {} 0) ts s r ∧ r.phase = .finished false ∧
    let c : Plan := ⟨persistent (.ofMillis 3),
      .resolve (persistent (.ofMillis 3)).overrides {}, .least, 5000000⟩
    (∃ f, f.number = 1 ∧ c.Made ts 0 f) ∧ ∃ f, f.number = 2 ∧ c.Dropped ts 3000000 f := by
  obtain ⟨ts, m, course, finished, events⟩ := course_persistent
  obtain ⟨s, played⟩ := course.exists_played {} rfl rfl rfl rfl
  have limited : Duration.ofMillis 5 ∈
      (Terms.resolve (persistent (.ofMillis 3)).overrides {}).totalTimeout := rfl
  obtain ⟨-, told, -, -, -, ended⟩ := limit_of_played played limited (by decide)
  obtain ⟨-, settled⟩ := ended false finished
  refine ⟨ts, s, m.run, played, finished, ?_, ?_⟩
  · obtain ⟨-, f, number, announced⟩ := told 0 1 (.fail "no") (by simp [events])
    refine ⟨f, number, (settled 0 f announced).1 ?_⟩
    simp only [Plan.resumedBy, Plan.backoffEnd, Plan.delay, number, Picks.least]
    decide
  · obtain ⟨-, f, number, announced⟩ := told 3000000 2 (.fail "no") (by simp [events])
    refine ⟨f, number, (settled 3000000 f announced).2 ?_⟩
    simp only [Plan.backoffEnd, Plan.delay, number, Picks.least]
    decide

/-- A back-off of 10 ms: the run goes on for twice its limit, and the attempt that it
announced is never made. -/
theorem backoff_exceeds_limit : ∃ ts s r,
    Played {} (.start (persistent (.ofMillis 10)) {} 0) ts s r ∧ r.phase = .finished false ∧
    (Terms.resolve (persistent (.ofMillis 10)).overrides {}).totalTimeout = some (.ofMillis 5) ∧
    eventsAt ts = [(0, .before (persistent (.ofMillis 10))),
      (0, .retry (persistent (.ofMillis 10)) 1 (.fail "no")),
      (10000000, .failed (persistent (.ofMillis 10)) (.timeout (.ofMillis 5)))] ∧
    Instant.onGrain (Instant.after 0 (.ofMillis 5)) < 10000000 ∧ (begunIn ts).length = 1 := by
  have course : ∃ ts m, Course .least (.start (persistent (.ofMillis 10)) {} 0 {}) ts m ∧
      m.run.phase = .finished false ∧ eventsAt ts = [(0, .before (persistent (.ofMillis 10))),
        (0, .retry (persistent (.ofMillis 10)) 1 (.fail "no")),
        (10000000, .failed (persistent (.ofMillis 10)) (.timeout (.ofMillis 5)))] ∧
      (begunIn ts).length = 1 := by
    refine ⟨_, _, .turn rfl (.turn rfl (.wait 10000000 rfl (by decide) ?_
      (.turn rfl (.turn rfl (.here _))))), rfl, rfl, rfl⟩
    intro t latest
    have : some 10000000 = some t := latest
    exact Nat.le_of_eq (Option.some.inj this)
  obtain ⟨ts, m, course, finished, events, attempts⟩ := course
  obtain ⟨s, played⟩ := course.exists_played {} rfl rfl rfl rfl
  exact ⟨ts, s, m.run, played, finished, rfl, events, by decide, attempts⟩

end Run
end JobPool
