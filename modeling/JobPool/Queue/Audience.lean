/-
JobPool.Queue.Audience — a driver with those who watch its counts.

Receivers are numbered in the order in which they were made. `Channel.look` is what each of
them can do at the channel, and `WatchedDriver.answer` carries out one use of a driver, by
somebody who works with it or by somebody who watches. `WatchedDriver.follow` notes what can
be seen from outside after each of a sequence of uses.

A driver over a ring is, but for its bound, one without bound (`Driver.unbounded`). The bound
shows in the jobs it refuses; `WatchedDriver.granted` leaves those uses out.
-/
import JobPool.Queue.Ledger

namespace JobPool

/-! ## Watching a channel -/

/-- What can be done at a channel by those who watch it. -/
inductive Look where
  /-- Makes a receiver. -/
  | watch
  /-- Asks if something was sent since receiver `i` last looked. -/
  | changed (i : Nat)
  /-- Reads the value with receiver `i` and marks it as seen. -/
  | update (i : Nat)
  /-- Reads the value with receiver `i`, and does not mark it. -/
  | peek (i : Nat)
  deriving DecidableEq, Repr

/-- What is learnt at a channel of values of kind `β`. -/
inductive Sight (β : Type) where
  /-- The number of a new receiver. -/
  | receiver (i : Nat)
  | changed (something : Bool)
  | value (v : β)
  /-- There is no such receiver. -/
  | nobody
  deriving DecidableEq, Repr

/-- One look at a channel that has these receivers. -/
def Channel.look {β : Type} (c : Channel β) (rs : List Receiver) : Look → Sight β × List Receiver
  | .watch => (.receiver rs.length, rs ++ [c.subscribe])
  | .changed i =>
    match rs[i]? with
    | some r => (.changed (c.hasChanged r), rs)
    | none => (.nobody, rs)
  | .update i =>
    match rs[i]? with
    | some r =>
      let (v, r) := c.update r
      (.value v, rs.set i r)
    | none => (.nobody, rs)
  | .peek i =>
    match rs[i]? with
    | some _ => (.value c.value, rs)
    | none => (.nobody, rs)

/-! ## Using a driver that is watched -/

/-- What can be asked of a driver and of the channel of its counts. -/
inductive DriverUse (α : Type) where
  | enqueue (job : α)
  | dequeue
  | clear
  | complete (success : Bool)
  | look (l : Look)
  deriving DecidableEq, Repr

/-- The answer to a use of a driver. -/
inductive UseAnswer (α : Type) where
  | driver (answer : DriverAnswer α)
  | sight (s : Sight Progress)
  /-- The counts of the driver cannot be watched. -/
  | unwatched
  deriving DecidableEq, Repr

/-- True if a job was refused. -/
def UseAnswer.isRefused {α : Type} : UseAnswer α → Bool
  | driver .refused => true
  | _ => false

/-- A driver and the receivers of its counts. -/
structure WatchedDriver (α : Type) where
  driver : Driver α
  receivers : List Receiver := []

/-- What can be seen of a driver after a use: the answer, the counts, and the channel with its
receivers, which tell for each of them if there is something that it has not seen. -/
structure Sighting (α : Type) where
  answer : UseAnswer α
  progress : Progress
  channel : Option (Channel Progress)
  receivers : List Receiver
  deriving DecidableEq, Repr

namespace WatchedDriver

variable {α : Type}

/-- A call on the driver; the receivers look on. -/
def call (w : WatchedDriver α) (c : DriverCall α) : UseAnswer α × WatchedDriver α :=
  let (a, d) := w.driver.answer c
  (.driver a, { w with driver := d })

/-- Carries out one use. -/
def answer (w : WatchedDriver α) : DriverUse α → UseAnswer α × WatchedDriver α
  | .enqueue job => w.call (.enqueue job)
  | .dequeue => w.call .dequeue
  | .clear => w.call .clear
  | .complete success => w.call (.complete success)
  | .look l =>
    match w.driver.channel? with
    | some c =>
      let (s, receivers) := c.look w.receivers l
      (.sight s, { w with receivers })
    | none => (.unwatched, w)

/-- Carries out uses one after another. -/
def after (w : WatchedDriver α) (uses : List (DriverUse α)) : WatchedDriver α :=
  uses.foldl (fun w use => (w.answer use).2) w

/-- What can be seen now, with the answer given last. -/
def see (w : WatchedDriver α) (answer : UseAnswer α) : Sighting α :=
  ⟨answer, w.driver.progress, w.driver.channel?, w.receivers⟩

/-- What can be seen after each of some uses, carried out one after another. -/
def follow (w : WatchedDriver α) : List (DriverUse α) → List (Sighting α)
  | [] => []
  | use :: uses =>
    let (a, w) := w.answer use
    w.see a :: w.follow uses

/-- The uses without the jobs that are refused when they are carried out in this order. -/
def granted (w : WatchedDriver α) : List (DriverUse α) → List (DriverUse α)
  | [] => []
  | use :: uses =>
    let (a, w) := w.answer use
    if a.isRefused then w.granted uses else use :: w.granted uses

end WatchedDriver

/-! ## Without the bound -/

/-- The same jobs in the same order, with the same tally. -/
def QueueDriver.unbounded {α : Type} (d : QueueDriver α) : MemoryDriver α :=
  ⟨d.ring.toList, d.tally⟩

/-- The driver with its bound taken away, if it has one. -/
def Driver.unbounded {α : Type} : Driver α → Driver α
  | queue d => memory d.unbounded
  | d => d

/-- The watched driver with the bound of the driver taken away. -/
def WatchedDriver.unbounded {α : Type} (w : WatchedDriver α) : WatchedDriver α :=
  { w with driver := w.driver.unbounded }

end JobPool
