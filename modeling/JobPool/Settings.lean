/-
JobPool.Settings — what a pool is set up with.

Settings fall into two groups: how many workers there are and when they are
reclaimed (`WorkerSettings`), and the retry and time limits of jobs that do
not bring their own (`JobDefaults`). A `Choice` sets one of them; choices are
applied in order, so the last one for a field wins. Counts of zero mean one,
time limits of zero mean none.
-/
import JobPool.Retry.Backoff
import JobPool.Text.Fields

namespace JobPool

/-- How many workers there are, and when idle and stopped ones are reclaimed. -/
structure WorkerSettings where
  /-- The most workers at one time. -/
  maxWorkers : Nat := 10
  /-- One growth round starts at most `maxWorkers / batch` workers. -/
  batch : Nat := 1
  /-- An idle worker is stopped once it has been idle for longer than this. -/
  maxIdleTime : Duration := .ofSecs 60
  /-- A stopped worker is released once it has been stopped for longer than this. -/
  maxStoppedTime : Duration := .ofSecs 60
  /-- The period of the pool's upkeep. -/
  watchInterval : Duration := .ofMillis 100
  /-- How often an idle worker looks for jobs without being woken. -/
  idlePollInterval : Duration := .ofMillis 250
  deriving DecidableEq, Repr, Inhabited

namespace WorkerSettings

/-- The bound on workers, at least one. -/
def bound (s : WorkerSettings) : Nat := max s.maxWorkers 1

/-- How many workers one growth round may start: the bound divided by the
batch, or the whole bound when that is zero. -/
def perRound (s : WorkerSettings) : Nat :=
  match s.bound / max s.batch 1 with
  | 0 => s.bound
  | n => n

/-- The settings as a record. -/
def render (s : WorkerSettings) : String :=
  Text.record "WorkerConfig"
    [("max_workers", toString s.maxWorkers), ("batch", toString s.batch),
     ("max_idle_time", Text.Span.render s.maxIdleTime),
     ("max_stopped_time", Text.Span.render s.maxStoppedTime),
     ("watch_interval", Text.Span.render s.watchInterval),
     ("idle_poll_interval", Text.Span.render s.idlePollInterval)]

end WorkerSettings

/-- Retry and time limits for jobs that leave them open. -/
structure JobDefaults where
  maxAttempts : Nat := 3
  retryDelay : Duration := Backoff.standard.delay
  retryMaxDelay : Duration := Backoff.standard.max
  retryDelayStep : Duration := Backoff.standard.step
  /-- The limit of one attempt; zero is none. -/
  attemptLimit : Duration := .zero
  /-- The limit of all attempts together; zero is none. -/
  totalLimit : Duration := .zero
  jitter : Jitter := Backoff.standard.jitter
  deriving DecidableEq, Repr, Inhabited

namespace JobDefaults

/-- The limit of one attempt, if there is one. -/
def attemptTimeout (d : JobDefaults) : Option Duration := d.attemptLimit.nonZero?

/-- The limit of all attempts together, if there is one. -/
def totalTimeout (d : JobDefaults) : Option Duration := d.totalLimit.nonZero?

/-- The back-off of jobs that leave theirs open. -/
def backoff (d : JobDefaults) : Backoff :=
  ⟨d.retryDelay, d.retryDelayStep, d.retryMaxDelay, d.jitter⟩

/-- The defaults as a record. -/
def render (d : JobDefaults) : String :=
  Text.record "JobDefaults"
    [("max_attempts", toString d.maxAttempts),
     ("retry_delay", Text.Span.render d.retryDelay),
     ("retry_max_delay", Text.Span.render d.retryMaxDelay),
     ("retry_delay_step", Text.Span.render d.retryDelayStep),
     ("max_execute_time_per_attempt", Text.Span.render d.attemptLimit),
     ("max_execute_time_total", Text.Span.render d.totalLimit),
     ("jitter", d.jitter.render)]

end JobDefaults

/-- Everything a pool is set up with. -/
structure Settings where
  worker : WorkerSettings := {}
  job : JobDefaults := {}
  deriving DecidableEq, Repr, Inhabited

/-- One setting with its new value. -/
inductive Choice where
  | maxWorkers (n : Nat)
  | batch (n : Nat)
  | maxIdleTime (d : Duration)
  | maxStoppedTime (d : Duration)
  | watchInterval (d : Duration)
  | idlePollInterval (d : Duration)
  | maxAttempts (n : Nat)
  | retryDelay (d : Duration)
  | retryMaxDelay (d : Duration)
  | retryDelayStep (d : Duration)
  | attemptLimit (d : Duration)
  | totalLimit (d : Duration)
  | jitter (j : Jitter)
  deriving DecidableEq, Repr

namespace Settings

/-- Applies one choice; counts are raised to one. -/
def choose (s : Settings) : Choice → Settings
  | .maxWorkers n => { s with worker.maxWorkers := max n 1 }
  | .batch n => { s with worker.batch := max n 1 }
  | .maxIdleTime d => { s with worker.maxIdleTime := d }
  | .maxStoppedTime d => { s with worker.maxStoppedTime := d }
  | .watchInterval d => { s with worker.watchInterval := d }
  | .idlePollInterval d => { s with worker.idlePollInterval := d }
  | .maxAttempts n => { s with job.maxAttempts := max n 1 }
  | .retryDelay d => { s with job.retryDelay := d }
  | .retryMaxDelay d => { s with job.retryMaxDelay := d }
  | .retryDelayStep d => { s with job.retryDelayStep := d }
  | .attemptLimit d => { s with job.attemptLimit := d }
  | .totalLimit d => { s with job.totalLimit := d }
  | .jitter j => { s with job.jitter := j }

/-- Applies choices in order. -/
def chooseAll (s : Settings) (cs : List Choice) : Settings := cs.foldl choose s

/-- The settings that a list of choices makes of the standard ones. -/
def ofChoices (cs : List Choice) : Settings := chooseAll {} cs

/-- The settings as a record. -/
def render (s : Settings) : String :=
  Text.record "PoolConfig" [("worker", s.worker.render), ("job", s.job.render)]

end Settings
end JobPool
