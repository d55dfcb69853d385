/-
JobPool.Run.Bouts — when the attempts of a run are made, and what ends them.

A `Bout` is an attempt with the times at which it began and ended. A run publishes an event as soon
as an attempt is over and none while it is being made, so the bouts can be read off the turns
(`Run.bouts`). `Run.Series` says how they follow each other: one after another, each with no more
time than its limit, the next one when the back-off after the failed one has passed, and none past
the total limit.
-/
import Mathlib.Data.List.Chain
import JobPool.Run.Verdict

namespace JobPool

/-- A timer that is due at `due` fires at `now`: not too early, and no later than on the first whole
millisecond, which is when it fires on a clock that stands on whole milliseconds. -/
structure Instant.Fires (due now : Nat) : Prop where
  due_le : due ≤ now
  le_onGrain : now ≤ onGrain due
  whole : onGrain now = now → now = onGrain due

/-- The limit of an attempt that begins at `now`, in a run that began at `start`: the shorter of the
limit of one attempt and what is left of the total limit. -/
def Terms.limitAt (terms : Terms) (start now : Nat) : Option Duration :=
  Run.shorterLimit terms.attemptTimeout
    (terms.totalTimeout.map fun total => Instant.left now (Instant.after start total))

/-- An attempt, when it began, and when it ended if it is over. -/
structure Bout where
  attempt : Begun
  began : Nat
  ended : Option Nat

namespace Bout

/-- The attempt is over at `now`, unless it was before. -/
def close (b : Bout) (now : Nat) : Bout := { b with ended := b.ended.or (some now) }

/-- The back-off after this attempt. -/
def backoff (terms : Terms) (picks : Picks) (b : Bout) : Duration :=
  terms.backoff.next (picks b.attempt.token) b.attempt.number

/-- After this attempt the next one is number `n` and begins at `now`: it has ended, and the
back-off has passed. Without a delay no timer is set. -/
structure Clears (terms : Terms) (picks : Picks) (b : Bout) (n now : Nat) : Prop where
  number : n = b.attempt.number + 1
  gap : ∃ v, b.ended = some v ∧
    if (b.backoff terms picks).isZero then now = v
    else Instant.Fires (Instant.after v (b.backoff terms picks)) now

/-- An attempt of a run of the job that began at `start`, seen at `now`. -/
structure Proper (job : Job) (terms : Terms) (start now : Nat) (b : Bout) : Prop where
  job_eq : b.attempt.job = job
  inTime : ¬ Run.IsLate terms start b.began
  began_le : b.began ≤ b.ended.getD now
  /-- It is made for no longer than its limit, to the grain of timers. -/
  limited : ∀ limit ∈ terms.limitAt start b.began,
    b.ended.getD now ≤ Instant.onGrain (Instant.after b.began limit)

/-- The attempts of a run of the job that began at `start`, seen at `now`. -/
structure InOrder (job : Job) (terms : Terms) (picks : Picks) (start now : Nat) (bs : List Bout) :
    Prop where
  first : ∀ b ∈ bs.head?, b.attempt.number = 1
  /-- An attempt begins when the one before it has ended and the back-off has passed. -/
  chain : bs.IsChain fun b b' => b.Clears terms picks b'.attempt.number b'.began
  proper : ∀ b ∈ bs, b.Proper job terms start now

end Bout

namespace Run

/-- The bouts after one more turn. It may begin an attempt; if it publishes an event, what was being
made is over. -/
def boutsAfter (bs : List Bout) (x : Taken) : List Bout :=
  let bs := bs ++ (x.turn.begun.map fun b => ⟨b, x.time, none⟩).toList
  if x.turn.event.isSome then bs.map (·.close x.time) else bs

/-- The attempts made in some turns, oldest first. -/
def bouts (ts : List Taken) : List Bout := ts.foldl boutsAfter []

/-- What the turns `ts` of a run of the job that began at `start` came to, up to the moment `m`. -/
structure Series (job : Job) (terms : Terms) (picks : Picks) (start : Nat) (ts : List Taken)
    (m : Moment) : Prop where
  inOrder : Bout.InOrder job terms picks start m.now (bouts ts)
  /-- What is being made is the last attempt that began. -/
  underway : ∀ a, m.run.phase = .attempting a →
    (bouts ts).getLast? = some ⟨⟨job, m.run.attempt, a.token⟩, a.began, none⟩
  /-- All other attempts are over. -/
  others : ∀ b ∈ bouts ts, b.ended = none → ∃ a, m.run.phase = .attempting a ∧
    (bouts ts).getLast? = some b
  /-- An attempt that overran is dropped when the timer of its limit fires, and its token is
  cancelled then. -/
  overruns : m.run.ComesTo m.tokens m.now .overrun → ∃ b limit t, b ∈ bouts ts ∧ b.ended = none ∧
    terms.limitAt start b.began = some limit ∧
    Instant.Fires (Instant.after b.began limit) m.now ∧ m.turn picks = some t ∧
    t.tokens = m.tokens.cancel b.attempt.token ∧ ∀ a, t.next.phase ≠ .attempting a

end Run
end JobPool
