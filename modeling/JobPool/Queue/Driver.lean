/-
JobPool.Queue.Driver — where the jobs of a pool wait, with their tally.

Three kinds of driver hold waiting jobs first in, first out: one without
bound (`MemoryDriver`), one over a ring (`QueueDriver`), which refuses jobs
when it is full, and one without bound that does not publish its counts
(`PlainDriver`). Queue and tally change together, so the waiting jobs are
always as many as the tally says.
-/
import JobPool.Queue.HandOff
import JobPool.Queue.Tally

namespace JobPool

/-- A driver without bound. -/
structure MemoryDriver (α : Type) where
  items : List α := []
  tally : Tally := {}

namespace MemoryDriver

variable {α : Type}

/-- Adds a job; never refused. -/
def enqueue (d : MemoryDriver α) (a : α) : Bool × MemoryDriver α :=
  (true, { items := d.items ++ [a], tally := d.tally.enqueued })

/-- Takes the oldest job. -/
def dequeue (d : MemoryDriver α) : Option α × MemoryDriver α :=
  match d.items with
  | [] => (none, d)
  | a :: rest => (some a, { items := rest, tally := d.tally.dequeued })

/-- Drops all waiting jobs. -/
def clear (d : MemoryDriver α) : MemoryDriver α :=
  { items := [], tally := d.tally.discarded d.items.length }

/-- Records the outcome of a job that was taken. -/
def complete (d : MemoryDriver α) (success : Bool) : MemoryDriver α :=
  { d with tally := d.tally.done success }

/-- The driver as a record. -/
def render (d : MemoryDriver α) : String :=
  Text.record "MemoryDriver"
    [("queued", toString d.items.length), ("progress", d.tally.progress.render)]

end MemoryDriver

/-- A driver of bounded size. -/
structure QueueDriver (α : Type) where
  ring : Ring α
  tally : Tally := {}

namespace QueueDriver

variable {α : Type}

/-- An empty driver for at most `capacity` waiting jobs; zero counts as one. -/
def ofCapacity (capacity : Nat) : QueueDriver α := { ring := .empty capacity }

/-- Adds a job unless the driver is full. -/
def enqueue (d : QueueDriver α) (a : α) : Bool × QueueDriver α :=
  if d.ring.isFull then (false, d)
  else (true, { ring := d.ring.push a, tally := d.tally.enqueued })

/-- Adds a job, waiting for room until `timeout` after `since`. With nobody else
at the queue no room appears, and the wait runs out; there is no answer, but a
panic, if the clock cannot tell when. -/
def enqueueWithin (d : QueueDriver α) (a : α) (since : Nat) (timeout : Duration) :
    Option Bool × QueueDriver α :=
  match d.ring.serve (.enqueue a (.limited since timeout)) with
  | (some .accepted, ring) => (some true, { ring, tally := d.tally.enqueued })
  | (some (.refused _), ring) => (some false, { d with ring })
  | (_, ring) => (none, { d with ring })

/-- Takes the oldest job. -/
def dequeue (d : QueueDriver α) : Option α × QueueDriver α :=
  match d.ring.pop with
  | (some a, ring) => (some a, { ring, tally := d.tally.dequeued })
  | (none, ring) => (none, { d with ring })

/-- Drops all waiting jobs. -/
def clear (d : QueueDriver α) : QueueDriver α :=
  let (dropped, ring) := d.ring.clear
  { ring, tally := d.tally.discarded dropped }

/-- Records the outcome of a job that was taken. -/
def complete (d : QueueDriver α) (success : Bool) : QueueDriver α :=
  { d with tally := d.tally.done success }

/-- The driver as a record. -/
def render (d : QueueDriver α) : String :=
  Text.record "QueueDriver" [("queue", d.ring.render), ("progress", d.tally.progress.render)]

end QueueDriver

/-- A driver without bound whose counts cannot be watched. -/
structure PlainDriver (α : Type) where
  items : List α := []
  progress : Progress := {}

/-- A driver of any kind. -/
inductive Driver (α : Type) where
  | memory (d : MemoryDriver α)
  | queue (d : QueueDriver α)
  | plain (d : PlainDriver α)

namespace Driver

variable {α : Type}

instance : Inhabited (Driver α) := ⟨.memory {}⟩

/-- Adds a job; `false` if it was refused. -/
def enqueue (a : α) : Driver α → Bool × Driver α
  | memory d => let (ok, d) := d.enqueue a; (ok, memory d)
  | queue d => let (ok, d) := d.enqueue a; (ok, queue d)
  | plain d => (true, plain { items := d.items ++ [a], progress := d.progress.enqueued })

/-- Takes the oldest job. -/
def dequeue : Driver α → Option α × Driver α
  | memory d => let (a, d) := d.dequeue; (a, memory d)
  | queue d => let (a, d) := d.dequeue; (a, queue d)
  | plain d =>
    match d.items with
    | [] => (none, plain d)
    | a :: rest => (some a, plain { items := rest, progress := d.progress.dequeued })

/-- Drops all waiting jobs. -/
def clear : Driver α → Driver α
  | memory d => memory d.clear
  | queue d => queue d.clear
  | plain d => plain { items := [], progress := d.progress.discarded d.items.length }

/-- Records the outcome of a job that was taken. -/
def complete (success : Bool) : Driver α → Driver α
  | memory d => memory (d.complete success)
  | queue d => queue (d.complete success)
  | plain d => plain { d with progress := d.progress.done success }

/-- The counts. -/
def progress : Driver α → Progress
  | memory d => d.tally.progress
  | queue d => d.tally.progress
  | plain d => d.progress

/-- The channel that publishes the counts, if there is one. -/
def channel? : Driver α → Option (Channel Progress)
  | memory d => some d.tally.channel
  | queue d => some d.tally.channel
  | plain _ => none

/-- The waiting jobs, oldest first. -/
def waiting : Driver α → List α
  | memory d => d.items
  | queue d => d.ring.toList
  | plain d => d.items

/-- The number of jobs accepted, less those dropped, by the counts. -/
def total (d : Driver α) : Nat := d.progress.total

/-- The number of waiting jobs by the counts. -/
def pending (d : Driver α) : Nat := d.progress.pending

/-- The number of jobs taken and not yet done by the counts. -/
def executing (d : Driver α) : Nat := d.progress.executing

/-- The number of jobs done by the counts. -/
def completed (d : Driver α) : Nat := d.progress.completed

/-- The number of jobs done with success by the counts. -/
def success (d : Driver α) : Nat := d.progress.success

/-- The number of jobs done without success by the counts. -/
def failed (d : Driver α) : Nat := d.progress.failed

end Driver
end JobPool
