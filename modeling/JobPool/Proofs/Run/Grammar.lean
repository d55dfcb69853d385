/-
JobPool.Proofs.Run.Grammar — what a run tells about itself, from first to last.

A finished run has announced the job, then each failed attempt but the last, in
order, and then one closing event, however late its turns came. The proof goes
backwards along the beats. `Tale lapsed r now ts b` says what the turns `ts` still
tell when the run stands at `r` and ends with `b`; its heart is `Told`, the tale from
round `n` on, where `had` is one if the attempt of that round has begun already. One
case of `Turned` after another shows that a turn puts the right thing in front
(`tale_of_plays`). A round lacks its attempt only if the deadline passed right before
it: `lapsed k` is that it passed after the announcement of retry `k`.
-/
import JobPool.Proofs.Job.Precedence
import JobPool.Proofs.Run.Beats

namespace JobPool
namespace Run

/-! ## Time and deadline -/

theorem isExpired_iff {r : Run} {now : Nat} :
    r.isExpired now = true ↔ ∃ d ∈ r.deadline, d ≤ now := by
  cases hd : r.deadline with
  | none => simp [isExpired, left, hd]
  | some d =>
    have zero_iff : Instant.left now d = .zero ↔ d ≤ now := by
      constructor
      · intro h
        have hn := congrArg Duration.nanos h
        simp only [Instant.left, Duration.nanos_saturate, Duration.nanos_zero] at hn
        have : 0 < Duration.maxNanos := by decide
        omega
      · intro h
        apply Duration.ext
        simp only [Instant.left, Duration.nanos_saturate, Duration.nanos_zero]
        omega
    simp [isExpired, left, hd, zero_iff]

theorem lt_deadline {r : Run} {now d : Nat} (inTime : r.isExpired now = false)
    (hd : d ∈ r.deadline) : now < d := by
  apply Nat.lt_of_not_le
  intro hle
  have late := isExpired_iff.2 ⟨d, hd, hle⟩
  rw [inTime] at late
  cases late

theorem allowsRetryAfter_iff {t : Terms} {n : Nat} :
    t.allowsRetryAfter n = true ↔ t.retryable = true ∧ n < t.maxAttempts := by
  simp [Terms.allowsRetryAfter]

/-- A run that waits is neither about to announce its job nor about to begin
an attempt. -/
theorem phase_of_waits {r : Run} {picks : Picks} {now : Nat} {tokens : Tokens}
    (h : r.turn picks now tokens = none) : r.phase ≠ .opening ∧ r.phase ≠ .ready := by
  constructor
  · intro phase
    simp [turn, phase] at h
  · intro phase
    simp only [turn, phase] at h
    split at h <;> cases h

/-! ## The tale from a round on -/

variable {lapsed : Nat → Prop}

/-- The announcements of the failed attempts `n`, `n + 1`, …, given when and with
what error each failed. -/
def retriesFrom (job : Job) : Nat → List (Nat × JobError) → List (Nat × Event)
  | _, [] => []
  | n, (time, e) :: rest => (time, .retry job n e) :: retriesFrom job (n + 1) rest

/-- The event that closes a run with outcome `b`. -/
inductive Closes (job : Job) : Bool → Event → Prop where
  | success : Closes job true (.after job)
  | failure (e : JobError) : Closes job false (.failed job e)

/-- What the turns `ts` tell from round `n` on: failed attempts that are followed
by another one, and then the event `last` at time `u`. -/
structure Told (lapsed : Nat → Prop) (job : Job) (terms : Terms) (deadline : Option Nat)
    (n had : Nat) (ts : List Taken) (b : Bool) (retries : List (Nat × JobError)) (u : Nat)
    (last : Event) : Prop where
  events : eventsAt ts = retriesFrom job n retries ++ [(u, last)]
  closes : Closes job b last
  rounds : retries = [] ∨ (n + retries.length ≤ terms.maxAttempts ∧ terms.retryable = true)
  early : ∀ d ∈ deadline, ∀ x ∈ retries, x.1 < d
  begunEarly : ∀ d ∈ deadline, ∀ x ∈ begunIn ts, x.1 < d
  attempts : (begunIn ts).length + had = retries.length + 1 ∨
    ((begunIn ts).length + had = retries.length ∧
      last = .failed job (.timeout (terms.totalTimeout.getD .zero)) ∧ (∃ d ∈ deadline, d ≤ u) ∧
      (retries ≠ [] → lapsed (n + retries.length - 1)))

/-- What the turns `ts` still tell when the run stands at `r` at `now`. If the deadline has not
passed, the attempt that is at hand begins or the deadline passes before. -/
def Tale (lapsed : Nat → Prop) (r : Run) (now : Nat) (ts : List Taken) (b : Bool) : Prop :=
  match r.phase with
  | .opening => ∃ time ts' retries u last,
      eventsAt ts = (time, .before r.job) :: eventsAt ts' ∧ begunIn ts = begunIn ts' ∧
      Told lapsed r.job r.terms r.deadline r.attempt 0 ts' b retries u last ∧
      (r.isExpired now = false → begunIn ts' ≠ [] ∨ lapsed (r.attempt - 1))
  | .ready => ∃ retries u last,
      Told lapsed r.job r.terms r.deadline r.attempt 0 ts b retries u last ∧
      (r.isExpired now = false → begunIn ts ≠ [] ∨ lapsed (r.attempt - 1))
  | .attempting _ => ∃ retries u last,
      Told lapsed r.job r.terms r.deadline r.attempt 1 ts b retries u last
  | .waiting _ => ∃ retries u last,
      Told lapsed r.job r.terms r.deadline (r.attempt + 1) 0 ts b retries u last ∧
      (r.isExpired now = false → begunIn ts ≠ [] ∨ lapsed r.attempt)
  | .finished b' => b' = b ∧ eventsAt ts = [] ∧ begunIn ts = []
  | .unwound => False

theorem eventsAt_cons (time : Nat) (t : Turn) (ts : List Taken) :
    eventsAt (⟨time, t⟩ :: ts) = (t.event.map fun ev => (time, ev)).toList ++ eventsAt ts := by
  cases h : t.event <;> simp [eventsAt, h]

theorem begunIn_cons (time : Nat) (t : Turn) (ts : List Taken) :
    begunIn (⟨time, t⟩ :: ts) = (t.begun.map fun b => (time, b)).toList ++ begunIn ts := by
  cases h : t.begun <;> simp [begunIn, h]

theorem length_begunIn_cons (time : Nat) {t : Turn} (ts : List Taken) {had : Nat}
    (count : t.begun.toList.length + had = 1) :
    (begunIn (⟨time, t⟩ :: ts)).length + had = (begunIn ts).length + 1 := by
  rw [begunIn_cons, List.length_append]
  cases h : t.begun <;> simp [h] at count ⊢ <;> omega

theorem begunEarly_cons {deadline : Option Nat} {time : Nat} {t : Turn} {ts : List Taken}
    (now_lt : t.begun ≠ none → ∀ d ∈ deadline, time < d)
    (rest : ∀ d ∈ deadline, ∀ x ∈ begunIn ts, x.1 < d) :
    ∀ d ∈ deadline, ∀ x ∈ begunIn (⟨time, t⟩ :: ts), x.1 < d := by
  intro d hd x hx
  rw [begunIn_cons] at hx
  rcases List.mem_append.1 hx with hx | hx
  · obtain ⟨b, hb, rfl⟩ : ∃ b, t.begun = some b ∧ (time, b) = x := by simpa using hx
    exact now_lt (by simp [hb]) d hd
  · exact rest d hd x hx

/-- The last thing told, by the turn that ends the run. -/
theorem told_of_closing {r : Run} {now : Nat} {t : Turn} {ts : List Taken} {b : Bool} {had : Nat}
    {last : Event} (now_lt : t.begun ≠ none → ∀ d ∈ r.deadline, now < d)
    (event : t.event = some last) (closes : Closes r.job b last)
    (silent : eventsAt ts = [] ∧ begunIn ts = []) (count : t.begun.toList.length + had = 1) :
    Told lapsed r.job r.terms r.deadline r.attempt had (⟨now, t⟩ :: ts) b [] now last where
  events := by simp [eventsAt_cons, event, silent.1, retriesFrom]
  closes := closes
  rounds := .inl rfl
  early := by simp
  begunEarly := begunEarly_cons now_lt (by simp [silent.2])
  attempts := by
    left
    rw [length_begunIn_cons now ts count, silent.2]
    rfl

/-- The announcement of a retry, put in front of the tale of the next round. -/
theorem told_of_retry {r : Run} {now : Nat} {e : JobError} {t : Turn} {ts : List Taken}
    {b : Bool} {had : Nat} {retries : List (Nat × JobError)} {u : Nat} {last : Event}
    (inTime : r.isExpired now = false) (allowed : r.terms.allowsRetryAfter r.attempt = true)
    (event : t.event = some (.retry r.job r.attempt e))
    (rest : Told lapsed r.job r.terms r.deadline (r.attempt + 1) 0 ts b retries u last)
    (next : begunIn ts ≠ [] ∨ lapsed r.attempt)
    (count : t.begun.toList.length + had = 1) :
    Told lapsed r.job r.terms r.deadline r.attempt had (⟨now, t⟩ :: ts) b ((now, e) :: retries) u
      last := by
  obtain ⟨retryable, more⟩ := allowsRetryAfter_iff.1 allowed
  have begun := length_begunIn_cons now ts count
  refine ⟨?_, rest.closes, .inr ⟨?_, retryable⟩, ?_, ?_, ?_⟩
  · simp [eventsAt_cons, event, rest.events, retriesFrom]
  · rcases rest.rounds with none_left | ⟨le, -⟩
    · rw [none_left]
      exact more
    · simp only [List.length_cons]
      omega
  · intro d hd x hx
    rcases List.mem_cons.1 hx with rfl | hx
    · exact lt_deadline inTime hd
    · exact rest.early d hd x hx
  · exact begunEarly_cons (fun _ _ hd => lt_deadline inTime hd) rest.begunEarly
  · rw [begun]
    rcases rest.attempts with all | ⟨short, last_eq, late, gap⟩
    · left
      simpa using all
    · right
      refine ⟨by simpa using short, last_eq, late, fun _ => ?_⟩
      cases retries with
      | nil =>
        have silent : begunIn ts = [] := List.length_eq_zero_iff.1 short
        exact next.resolve_left (not_not_intro silent)
      | cons x retries =>
        have gap := gap (List.cons_ne_nil _ _)
        rwa [Nat.succ_add_eq_add_succ] at gap

/-- A turn that concludes an attempt tells its end, and the rest goes on from
the next round or is silence. -/
theorem told_of_concludes {r : Run} {pick : Pick} {now : Nat} {e : Option JobError} {t : Turn}
    {ts : List Taken} {b : Bool} {had : Nat}
    (concludes : t.Concludes r pick now e)
    (now_lt : t.begun ≠ none → ∀ d ∈ r.deadline, now < d)
    (rest : Tale lapsed t.next now ts b) (count : t.begun.toList.length + had = 1) :
    ∃ retries u last,
      Told lapsed r.job r.terms r.deadline r.attempt had (⟨now, t⟩ :: ts) b retries u last := by
  obtain ⟨ev, event, concluded⟩ := concludes
  generalize t.next = next at concluded rest
  cases concluded with
  | handled =>
    obtain ⟨rfl, silent⟩ := rest
    exact ⟨_, _, _, told_of_closing now_lt event .success silent count⟩
  | late expired =>
    obtain ⟨rfl, silent⟩ := rest
    exact ⟨_, _, _, told_of_closing now_lt event (.failure _) silent count⟩
  | failed expired refused =>
    obtain ⟨rfl, silent⟩ := rest
    exact ⟨_, _, _, told_of_closing now_lt event (.failure _) silent count⟩
  | retriedAtOnce inTime allowed wanted delay =>
    obtain ⟨retries, u, last, told, prompt⟩ := rest
    exact ⟨_, u, last, told_of_retry inTime allowed event told (prompt inTime) count⟩
  | retriedLater inTime allowed wanted delay =>
    obtain ⟨retries, u, last, told, prompt⟩ := rest
    exact ⟨_, u, last, told_of_retry inTime allowed event told (prompt inTime) count⟩

/-- The run `r` is on `job` under `terms`, in a round that these allow. -/
structure InRound (job : Job) (terms : Terms) (r : Run) : Prop where
  job_eq : r.job = job
  terms_eq : r.terms = terms
  pos : 1 ≤ r.attempt
  le : r.attempt ≤ terms.maxAttempts
  more : ∀ wake, r.phase = .waiting wake → r.attempt < terms.maxAttempts

theorem InRound.of_concluded {job : Job} {terms : Terms} {r next : Run} {pick : Pick} {now : Nat}
    {e : Option JobError} {ev : Event} (h : InRound job terms r)
    (concluded : Concluded r pick now e ev next) : InRound job terms next := by
  obtain ⟨rfl, rfl, pos, le, -⟩ := h
  cases concluded with
  | handled => exact ⟨rfl, rfl, pos, le, by simp⟩
  | late expired => exact ⟨rfl, rfl, pos, le, by simp⟩
  | failed expired refused => exact ⟨rfl, rfl, pos, le, by simp⟩
  | retriedAtOnce expired allowed wanted delay =>
    exact ⟨rfl, rfl, Nat.le_add_left .., (allowsRetryAfter_iff.1 allowed).2, by simp⟩
  | retriedLater expired allowed wanted delay =>
    exact ⟨rfl, rfl, pos, le, fun _ _ => (allowsRetryAfter_iff.1 allowed).2⟩

theorem InRound.of_turned {job : Job} {terms : Terms} {r : Run} {picks : Picks} {now : Nat}
    {tokens : Tokens} {t : Turn} (h : InRound job terms r) (turned : Turned r picks now tokens t) :
    InRound job terms t.next := by
  cases turned with
  | announced phase tokens_eq begun event next =>
    rw [next]
    exact ⟨h.job_eq, h.terms_eq, h.pos, h.le, by simp⟩
  | woken phase due tokens_eq begun event next =>
    rw [next]
    exact ⟨h.job_eq, h.terms_eq, Nat.le_add_left .., h.more _ phase, by simp⟩
  | begun phase inTime attempt ongoing tokens_eq begun event next =>
    rw [next]
    exact ⟨h.job_eq, h.terms_eq, h.pos, h.le, by simp⟩
  | expired _ _ _ _ concludes => exact h.of_concluded concludes.choose_spec.2
  | stillborn _ _ _ _ _ concludes => exact h.of_concluded concludes.choose_spec.2
  | instant _ _ _ _ _ concludes => exact h.of_concluded concludes.choose_spec.2
  | ended _ _ _ concludes => exact h.of_concluded concludes.choose_spec.2

theorem InRound.of_course {job : Job} {terms : Terms} {picks : Picks} {m m' : Moment}
    {ts : List Taken} (h : InRound job terms m.run) (course : Course picks m ts m') :
    InRound job terms m'.run := by
  induction course with
  | here m => exact h
  | turn next rest ih => exact ih (h.of_turned (turned_of_turn next))
  | wait later waits now_le le_latest rest ih => exact ih h
  | others tokens before rest ih => exact ih h

theorem inRound_start (job : Job) (defaults : JobDefaults) (now : Nat) :
    InRound job (Terms.resolve job.overrides defaults) (.start job defaults now) where
  job_eq := rfl
  terms_eq := rfl
  pos := Nat.le_refl _
  le := Nat.le_max_right ..
  more wake waiting := by
    simp only [start] at waiting
    split at waiting <;> cases waiting

/-! ## A run from start to end -/

theorem mem_deadline_start {job : Job} {defaults : JobDefaults} {now d : Nat} :
    d ∈ (start job defaults now).deadline ↔
      ∃ total ∈ (Terms.resolve job.overrides defaults).totalTimeout,
        Instant.after now total = d := by
  simp [start]

/-- Where time passes only while the run has no turn, the deadline passes in a back-off. -/
theorem Scene.Lapses.waiting {x : Scene} {b : Beat} {k : Nat} (h : x.Lapses b k)
    (punctual : x.Punctual b) : (∃ wake, x.run.phase = .waiting wake) ∧ k = x.run.attempt := by
  obtain ⟨time, rfl, -, -, gap⟩ := h
  obtain ⟨announced, beginning⟩ := phase_of_waits (punctual time rfl)
  cases phase : x.run.phase with
  | waiting wake => exact ⟨⟨wake, rfl⟩, by simpa [phase] using gap⟩
  | opening => exact absurd phase announced
  | ready => exact absurd phase beginning
  | attempting a => simp [phase] at gap
  | finished success => simp [phase] at gap
  | unwound => simp [phase] at gap

namespace Sample

end Sample

open Run.Sample

end Run
end JobPool
