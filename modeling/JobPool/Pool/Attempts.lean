/-
JobPool.Pool.Attempts — the attempts of a pool, their tokens and their times.

The token of an attempt is a child of the root and of nothing else. So there are two things that
cancel it: the root, when the pool is released or nobody can reach it any more, and the run that
drops the attempt because it overran its limit (`Path.Drops`). `Path.Signals` says that there is
nothing else, along any moves.

Where timers fire when they are due, to their grain (`Site.keepsTime`), each run of the pool is on
a course, whatever the other tasks do meanwhile (`Site.IsOnCourse`).
-/
import JobPool.Pool.Path
import JobPool.Run.Bouts

namespace JobPool

/-- The attempt `b` of the run has just overrun its limit. -/
def Run.Overruns (r : Run) (tokens : Tokens) (now : Nat) (b : Begun) : Prop :=
  ∃ a, r.phase = .attempting a ∧ b = ⟨r.job, r.attempt, a.token⟩ ∧
    r.ComesTo tokens now .overrun

/-- True of a release, and when nobody can reach the pool any more. -/
def Move.cancelsRoot : Move → Bool
  | beginRelease | abandon => true
  | _ => false

namespace Path

/-- In this move the attempt `b` is dropped because it overran: the loop that makes it takes its
step. -/
def Drops (x : Site × Move) (b : Begun) : Prop :=
  ∃ i r, x.2 = .task (.loop i) ∧ x.1.pool.runAt i = some r ∧
    r.Overruns x.1.pool.tokens x.1.now b

/-- What the moves `ms`, which lead to `s`, did to tokens. -/
structure Signals (ms : List (Site × Move)) (s : Site) : Prop where
  /-- Each loop, each stretch of upkeep and each attempt got a token of its own. -/
  nodup : (s.pool.loops.map (·.token) ++
    (s.pool.upkeeps.map (·.token) ++ s.pool.begun.map (·.token))).Nodup
  root : s.pool.tokens.root = true ↔ ∃ x ∈ ms, x.2.cancelsRoot = true
  /-- The token of an attempt is cancelled just if the root is or the attempt itself overran. -/
  cancelled : ∀ b ∈ s.pool.begun, s.pool.tokens.isCancelled b.token = true ↔
    s.pool.tokens.root = true ∨ ∃ x ∈ ms, Drops x b

end Path

namespace Site

/-- True unless time passes while a run has a turn to take, or past the millisecond at which the
timer of a run fires. -/
def keepsTime (s : Site) : Move → Bool
  | .pass time _ => s.pool.loops.all fun l => l.run?.all fun r =>
      (r.turn s.picks s.now s.pool.tokens).isNone &&
        r.wakeAt.all fun wake => decide (s.now + time ≤ Instant.onGrain wake)
  | _ => true

/-- The run, which stands as it does at `s`, came there on a course from when its job was taken, and
the attempts that it made are among those of the pool. -/
def IsOnCourse (s : Site) (r : Run) : Prop :=
  ∃ start tokens ts,
    Run.Course s.picks (.start r.job s.pool.settings.job start tokens) ts
      ⟨s.now, s.pool.tokens, r⟩ ∧
    ∀ b ∈ Run.bouts ts, b.attempt ∈ s.pool.begun

end Site
end JobPool
