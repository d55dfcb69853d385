/-
JobPool.Queue.Tally — counting jobs, and watching the counts.

A tally counts jobs that were accepted, wait, run and are done. Every change
publishes the new counts on a channel, even if they are equal to the old ones;
whoever watches the channel is told that something changed since they last
looked, and always reads the newest counts.
-/
import JobPool.Text.Fields

namespace JobPool

/-- The counts of a driver at one moment. -/
structure Progress where
  /-- Jobs accepted. -/
  total : Nat := 0
  /-- Jobs waiting. -/
  pending : Nat := 0
  /-- Jobs taken and not yet done. -/
  executing : Nat := 0
  /-- Jobs done. -/
  completed : Nat := 0
  /-- Jobs done with success. -/
  success : Nat := 0
  /-- Jobs done without success. -/
  failed : Nat := 0
  deriving DecidableEq, Repr, Inhabited

namespace Progress

/-- True when no job waits or runs. -/
def isDrained (p : Progress) : Bool := p.pending == 0 && p.executing == 0

/-- The counts as a record. -/
def render (p : Progress) : String :=
  Text.record "Progress"
    [("total", toString p.total), ("pending", toString p.pending),
     ("executing", toString p.executing), ("completed", toString p.completed),
     ("success", toString p.success), ("failed", toString p.failed)]

/-- A job was accepted. -/
def enqueued (p : Progress) : Progress :=
  { p with total := p.total + 1, pending := p.pending + 1 }

/-- A job was taken. -/
def dequeued (p : Progress) : Progress :=
  { p with pending := p.pending - 1, executing := p.executing + 1 }

/-- A job is done. -/
def done (p : Progress) (success : Bool) : Progress :=
  let p := { p with executing := p.executing - 1, completed := p.completed + 1 }
  if success then { p with success := p.success + 1 } else { p with failed := p.failed + 1 }

/-- So many waiting jobs were dropped. -/
def discarded (p : Progress) (n : Nat) : Progress :=
  { p with total := p.total - n, pending := p.pending - n }

end Progress

/-- A channel that holds the value sent last and numbers the sends. -/
structure Channel (α : Type) where
  value : α
  version : Nat
  deriving DecidableEq, Repr

/-- A receiver of a channel: the number of the last send it has seen. -/
structure Receiver where
  seen : Nat
  deriving DecidableEq, Repr

namespace Channel

variable {α : Type}

/-- A channel on which nothing was sent yet. -/
def start (a : α) : Channel α := ⟨a, 0⟩

/-- Sends a value; it replaces the one before. -/
def send (c : Channel α) (a : α) : Channel α := ⟨a, c.version + 1⟩

/-- A new receiver, which has seen the current value. -/
def subscribe (c : Channel α) : Receiver := ⟨c.version⟩

/-- True if something was sent since the receiver last looked. -/
def hasChanged (c : Channel α) (r : Receiver) : Bool := r.seen != c.version

/-- Reads the current value and marks it as seen. -/
def update (c : Channel α) (_r : Receiver) : α × Receiver := (c.value, ⟨c.version⟩)

end Channel

/-- Counts and the channel they are published on. -/
structure Tally where
  progress : Progress := {}
  channel : Channel Progress := .start {}
  deriving DecidableEq, Repr, Inhabited

namespace Tally

/-- Changes the counts and publishes them. -/
def update (t : Tally) (f : Progress → Progress) : Tally :=
  { progress := f t.progress, channel := t.channel.send (f t.progress) }

/-- A job was accepted. -/
def enqueued (t : Tally) : Tally := t.update .enqueued

/-- A job was taken. -/
def dequeued (t : Tally) : Tally := t.update .dequeued

/-- A job is done. -/
def done (t : Tally) (success : Bool) : Tally := t.update (·.done success)

/-- So many waiting jobs were dropped; dropping none is no change. -/
def discarded (t : Tally) (n : Nat) : Tally :=
  if n = 0 then t else t.update (·.discarded n)

end Tally
end JobPool
