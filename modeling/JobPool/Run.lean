/-
JobPool.Run — one job from being picked up to its end.

A run reckons its deadline, announces the job, makes its attempts one after
another and ends with exactly one closing event. An attempt gets a token of its
own and as much time as its limit and the total limit leave. After a failed
attempt the run ends if the total limit is used up, if the policy allows no
further attempt, or if the job does not want one for that error; otherwise it
announces the retry and waits for the back-off.

`Run.turn` is what a run does next, up to the point where time has to pass or an
event is published: a plain description, made without looking at the bus.
`Stage.play` carries a turn out. A run does not learn what listeners answer. Two
panics cut it short: one out of an event chain, and that of the clock where it
cannot tell the deadline, which is before anything is announced (`Run.start`).
-/
import JobPool.Bus.Script
import JobPool.Job.Terms
import JobPool.Time.Clock
import JobPool.Token

namespace JobPool

/-- An attempt that was begun, with its token. -/
structure Begun where
  job : Job
  number : Nat
  token : TokenId

/-- An attempt that is being made. -/
structure Underway where
  token : TokenId
  began : Nat
  /-- How long it runs; never ending if there is no length. -/
  length : Option Nat
  ending : Ending
  onCancel : Option Ending
  /-- How long it may run. -/
  limit : Option Duration

/-- How an attempt stands. -/
inductive Underway.Standing where
  /-- It goes on. -/
  | ongoing
  /-- It ended by itself, with an error or without. -/
  | over (error : Option JobError)
  /-- It ran up to its limit. -/
  | overran (limit : Duration)
  deriving DecidableEq, Repr

/-- How an attempt stands at `now`. Cancellation is looked at first; an attempt
that is done as its limit passes counts as done. -/
def Underway.standing (a : Underway) (cancelled : Bool) (now : Nat) : Underway.Standing :=
  match cancelled, a.onCancel with
  | true, some ending => .over ending.error?
  | _, _ =>
    if a.length.any (fun n => a.began + n ≤ now) then .over a.ending.error?
    else
      match a.limit with
      | some limit => if Instant.after a.began limit ≤ now then .overran limit else .ongoing
      | none => .ongoing

/-- How far a run has come. -/
inductive Run.Phase where
  /-- The job is picked up, which is not yet announced. -/
  | opening
  /-- The next attempt may begin. -/
  | ready
  /-- An attempt is being made. -/
  | attempting (a : Underway)
  /-- Waiting for the back-off to pass. -/
  | waiting (wake : Nat)
  /-- Over, with or without success. -/
  | finished (success : Bool)
  /-- Cut short by a panic, out of an event chain or of the clock. -/
  | unwound

/-- A job being run. -/
structure Run where
  job : Job
  terms : Terms
  /-- When the total limit is used up. -/
  deadline : Option Nat
  /-- The number of the current attempt, counted from one. -/
  attempt : Nat
  phase : Run.Phase

/-- The choices for the back-offs of a pool, by the token of the attempt before. Each attempt has a
token of its own, so no two back-offs share a choice. -/
abbrev Picks := TokenId → Pick

/-- The smallest number every time. -/
def Picks.least : Picks := fun _ => .least

namespace Run

/-- True if the clock can tell the deadline of a job picked up at `now`. -/
def onClock (job : Job) (defaults : JobDefaults) (now : Nat) : Bool :=
  (Terms.resolve job.overrides defaults).totalTimeout.all (Instant.canTell now)

/-- A job picked up at `now`. The deadline is reckoned first of all: if the clock cannot tell it,
the run is cut short there and then. -/
def start (job : Job) (defaults : JobDefaults) (now : Nat) : Run :=
  let terms := Terms.resolve job.overrides defaults
  { job, terms
    deadline := terms.totalTimeout.map (Instant.after now)
    attempt := 1
    phase := if onClock job defaults now then .opening else .unwound }

/-- The time left until the deadline, if there is one. -/
def left (r : Run) (now : Nat) : Option Duration := r.deadline.map (Instant.left now)

/-- True once there is a deadline and it has passed. -/
def isExpired (r : Run) (now : Nat) : Bool := r.left now == some .zero

/-- The error of a run whose total limit is used up. -/
def totalTimeout (r : Run) : JobError := .timeout (r.terms.totalTimeout.getD .zero)

/-- The shorter of two limits. -/
def shorterLimit : Option Duration → Option Duration → Option Duration
  | some a, some b => some (a.shorter b)
  | some a, none => some a
  | none, b => b

/-- The limit of an attempt that begins at `now`. -/
def attemptLimit (r : Run) (now : Nat) : Option Duration :=
  shorterLimit r.terms.attemptTimeout (r.left now)

/-- What a run does next: it changes tokens, perhaps begins an attempt, makes
notes, publishes at most one event, and then is `next`. -/
structure Turn where
  tokens : Tokens
  begun : Option Begun := none
  notes : List Note := []
  event : Option Event := none
  next : Run

/-- A line about the job of a run. -/
def line (r : Run) (level : Level) (message : String) (fields : List (String × String)) : Note :=
  .line ⟨level, "jobvisor::core::runner", message,
    [("job", r.job.name), ("attempt", toString r.attempt)] ++ fields⟩

/-- What follows an attempt that ended, with an error or without: the line, the
event, and the run after it. -/
def conclude (r : Run) (pick : Pick) (now : Nat) : Option JobError → Note × Event × Run
  | none => (r.line .debug "job handled" [], .after r.job, { r with phase := .finished true })
  | some e =>
    let expired := r.isExpired now
    let e := if expired then r.totalTimeout else e
    if expired || !r.terms.allowsRetryAfter r.attempt || !r.job.shouldRetry e then
      (r.line .warn "job failed" [("error", e.message)], .failed r.job e,
        { r with phase := .finished false })
    else
      let delay := r.terms.backoff.next pick r.attempt
      (r.line .warn "job attempt failed, retrying"
          [("error", e.message), ("delay", Text.Span.render delay)],
        .retry r.job r.attempt e,
        if delay.isZero then { r with phase := .ready, attempt := r.attempt + 1 }
        else { r with phase := .waiting (Instant.after now delay) })

/-- The turn that ends an attempt. -/
def concluding (r : Run) (pick : Pick) (now : Nat) (e : Option JobError) (tokens : Tokens) : Turn :=
  let (note, event, next) := r.conclude pick now e
  { tokens, notes := [note], event := some event, next }

/-- The turn that looks at an attempt being made, if it does not just go on. An
attempt that overran has its token cancelled. -/
def looking (r : Run) (picks : Picks) (now : Nat) (tokens : Tokens) (a : Underway) : Option Turn :=
  match a.standing (tokens.isCancelled a.token) now with
  | .ongoing => none
  | .over e => some (r.concluding (picks a.token) now e tokens)
  | .overran limit =>
    some (r.concluding (picks a.token) now (some (.timeout limit)) (tokens.cancel a.token))

/-- The turn that begins an attempt; it also ends it if that takes no time. -/
def beginning (r : Run) (picks : Picks) (now : Nat) (tokens : Tokens) : Turn :=
  let (token, tokens) := tokens.child
  let begun : Begun := ⟨r.job, r.attempt, token⟩
  match r.job.attempt r.attempt with
  | .stillborn p =>
    { r.concluding (picks token) now (some (.ofPanic p)) tokens with begun := some begun }
  | .runs length ending onCancel =>
    let note := Note.attempt r.job r.attempt (tokens.isCancelled token)
    let a : Underway :=
      { token, began := now, length, ending, onCancel, limit := r.attemptLimit now }
    match r.looking picks now tokens a with
    | some turn => { turn with begun := some begun, notes := note :: turn.notes }
    | none =>
      { tokens, begun := some begun, notes := [note], next := { r with phase := .attempting a } }

/-- What a run does next; `none` if it waits or is over. -/
def turn (r : Run) (picks : Picks) (now : Nat) (tokens : Tokens) : Option Turn :=
  match r.phase with
  | .opening => some { tokens, event := some (.before r.job), next := { r with phase := .ready } }
  | .ready =>
    -- past the deadline no back-off is chosen
    if r.isExpired now then some (r.concluding .least now (some r.totalTimeout) tokens)
    else some (r.beginning picks now tokens)
  | .attempting a => r.looking picks now tokens a
  | .waiting wake =>
    if wake ≤ now then some { tokens, next := { r with phase := .ready, attempt := r.attempt + 1 } }
    else none
  | .finished _ | .unwound => none

/-- The earlier of two times. -/
def earlier : Option Nat → Option Nat → Option Nat
  | some a, some b => some (min a b)
  | some a, none => some a
  | none, b => b

/-- The time that a waiting run waits for, if any. -/
def wakeAt (r : Run) : Option Nat :=
  match r.phase with
  | .attempting a =>
    earlier (a.length.map (a.began + ·)) (a.limit.map (Instant.after a.began))
  | .waiting wake => some wake
  | _ => none

end Run

/-- The line for an event that could not be dispatched. -/
def dispatchFailedLine (ev : Event) (e : BusError) : LogLine :=
  ⟨.warn, "jobvisor::core::runner", "event dispatch failed",
    [("topic", ev.topic), ("error", e.message), ("label", e.label)]⟩

/-- Publishes an event. A missing topic is logged and otherwise ignored; the
answer is false if a panic came out of the chain. -/
def Hub.publish (h : Hub) (ev : Event) : Bool × Hub :=
  match h.dispatch ev with
  | (.delivered, h) => (true, h)
  | (.refused e, h) => (true, h.note (.line (dispatchFailedLine ev e)))
  | (.unwound _, h) => (false, h)

/-- What a run works with: the tokens of its pool, the attempts begun there,
the bus and the time, and the random choices. -/
structure Stage where
  tokens : Tokens := {}
  begun : List Begun := []
  hub : Hub := {}
  picks : Picks := .least

namespace Stage

/-- Carries out a turn. -/
def play (s : Stage) (t : Run.Turn) : Stage × Run :=
  let s :=
    { s with
      tokens := t.tokens
      begun := s.begun ++ t.begun.toList
      hub := t.notes.foldl Hub.note s.hub }
  match t.event with
  | none => (s, t.next)
  | some ev =>
    match s.hub.publish ev with
    | (true, hub) => ({ s with hub }, t.next)
    | (false, hub) => ({ s with hub }, { t.next with phase := .unwound })

end Stage

/-- One step of a run; `none` if it waits or is over. -/
def Run.step (r : Run) (s : Stage) : Option (Stage × Run) :=
  (r.turn s.picks s.hub.now s.tokens).map s.play

end JobPool
