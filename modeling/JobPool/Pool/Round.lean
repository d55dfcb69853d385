/-
JobPool.Pool.Round — what a growth round is to do, and which moves have one.

`Pool.grow` is a procedure: it walks along the registry and starts stopped workers again
until it has enough, and creates others while there is room. `Pool.Grows` says what comes
of it, whoever does it: which workers are started again, how many are new, and that all
others are as they were. `Pool.roundSize` is the number of both together.
-/
import JobPool.Pool.Moves

namespace JobPool

/-- True of a watcher that has dealt with all findings of a reap pass. -/
def Watcher.hasReaped : Watcher → Bool
  | .reaping _ [] [] => true
  | _ => false

theorem Watcher.hasReaped_iff {w : Watcher} :
    w.hasReaped = true ↔ ∃ ticker, w = .reaping ticker [] [] := by
  cases w with
  | reaping ticker unchecked findings => cases unchecked <;> cases findings <;> simp [hasReaped]
  | _ => simp [hasReaped]

namespace Pool

/-- How far the watcher of an upkeep has come, if there is one. -/
def watcherAt (p : Pool) (u : UpkeepId) : Option Watcher := (p.upkeeps[u]?).map (·.watcher)

/-- The stopped workers of the registry, in its order. -/
def stoppedWorkers (p : Pool) : List WorkerId := p.registry.filter (p.check (·.isStopped))

/-- How many workers a growth round starts for so many waiting jobs: those that the idle workers
leave over, but no more than a round may start, and no more than there are stopped workers and
places for new ones. -/
def roundSize (p : Pool) (pending : Nat) : Nat :=
  min p.settings.worker.perRound
    (min (pending - p.countWorkers (·.isIdle))
      (p.stoppedWorkers.length + max p.settings.worker.maxWorkers 1 - p.registry.length))

/-- From `p` to `q` the workers `again` were started again and so many `fresh` ones created, each
with a loop and a token of its own; all others stay as they were, and nothing else changed. -/
structure Grows (p : Pool) (wall : Nat) (again : List WorkerId) (fresh : Nat) (q : Pool) :
    Prop where
  rest : q = { p with workers := q.workers, registry := q.registry, loops := q.loops,
                      tokens := q.tokens }
  registry : q.registry = p.registry ++ List.range' p.workers.length fresh
  length : q.workers.length = p.workers.length + fresh
  /-- Idle and working workers are among these. -/
  left : ∀ w < p.workers.length, w ∉ again → q.workers[w]? = p.workers[w]?
  restarted : ∀ w ∈ again, ∃ k token loop, p.workers[w]? = some k ∧ k.isStopped = true ∧
    q.workers[w]? = some (k.restart wall token loop) ∧
    q.loops[loop]? = some ⟨w, k.generation + 1, token, .looking⟩
  created : ∀ w ∈ List.range' p.workers.length fresh, ∃ token loop,
    q.workers[w]? = some (.create wall token loop) ∧ q.loops[loop]? = some ⟨w, 0, token, .looking⟩
  /-- Workers are started again before the first one is created. -/
  loops : ∃ started, q.loops = p.loops ++ started ∧
    started.map (·.worker) = again ++ List.range' p.workers.length fresh ∧
    started.map (·.token) = List.range' p.tokens.children.length (again.length + fresh)
  tokens : q.tokens = { p.tokens with
    children := p.tokens.children ++ List.replicate (again.length + fresh) false }

/-- A registered worker is not stopped. -/
def Attended (p : Pool) : Prop :=
  ∃ w ∈ p.registry, ∃ k, p.workers[w]? = some k ∧ k.isStopped = false

end Pool

/-- True of a move that has a growth round on a running pool, and of a start that makes the pool
run: an accepted dispatch, and the step of a watcher that ends its reap pass. -/
def Site.rouses (s : Site) : Move → Bool
  | .start => s.pool.status == .pending || s.pool.status == .stopped
  | .dispatch job => s.pool.status == .running && (s.dispatch job).1
  | .task (.watcher u) => s.pool.status == .running && (s.pool.watcherAt u).any (·.hasReaped)
  | _ => false

end JobPool
