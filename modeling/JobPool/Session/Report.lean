/-
JobPool.Session.Report — what can be seen of a session after a command.

The view of a pool counts its workers by what they do. The events of a command
are what the recorders, the jobs and the links noted since the command before,
sorted by time and then by the name of the job; notes of links, which bear no
time, come first.
-/
import JobPool.Session.Console

namespace JobPool

/-- What can be seen of a pool. -/
structure PoolView where
  name : String
  status : Pool.Status
  progress : Progress
  started : Bool
  stopped : Bool
  /-- Workers that are idle, working, stopped; that have been idle for some
  time, been stopped for some time, and have a time of stopping. -/
  workers : List Nat
  /-- Distinct workers seen so far. -/
  ever : Nat
  /-- The counts published last on the pool's own bus. -/
  published : Option Progress

/-- What can be seen after a command. -/
structure Report where
  response : Response
  time : Nat
  events : List Entry
  pools : List (String × PoolView)

namespace Note

/-- True of notes that links leave, which bear no time. -/
def isTimeless : Note → Bool
  | made .. | handled .. | called .. | did .. | tooDeep .. => true
  | line _ | recorded .. | attempt .. => false

/-- True of notes that belong to the events of a command. -/
def isEvent : Note → Bool
  | line _ => false
  | recorded _ (.progress _) => false
  | _ => true

/-- What notes of the same time are sorted by. -/
def sortName : Note → String
  | recorded _ ev => ((ev.job?).map (·.name)).getD ev.topic
  | attempt job .. => job.name
  | _ => ""

end Note

namespace Report

/-- The events among some entries, in the order of a report. -/
def arrange (entries : List Entry) : List Entry :=
  let (timeless, timed) := (entries.filter (·.note.isEvent)).partition (·.note.isTimeless)
  timeless ++ timed.mergeSort fun a b =>
    decide (a.time < b.time) ||
      (a.time == b.time && decide (a.note.sortName ≤ b.note.sortName))

/-- The counts that passed a recorder last. -/
def lastProgress (number : Nat) (entries : List Entry) : Option Progress :=
  (entries.filterMap fun e =>
    match e.note with
    | .recorded n (.progress p) => if n = number then some p else none
    | _ => none).getLast?

/-- The view of a member of a world. -/
def view (w : World) (shared : BusId) (entries : List Entry) (h : Handle) (m : Member) :
    PoolView :=
  let count (f : Worker → Bool) := m.pool.countWorkers f
  { name := m.pool.name
    status := m.pool.status
    progress := ((w.drivers[m.driver]?).map (·.progress)).getD {}
    started := m.pool.startedAt.isSome
    stopped := m.pool.stoppedAt.isSome
    workers :=
      [count (·.isIdle), count (·.isWorking), count (·.isStopped),
       count fun k => (k.idleFor w.wall).isSome, count fun k => (k.stoppedFor w.wall).isSome,
       count (·.stoppedAt.isSome)]
    ever := h.seen.length
    published := if m.bus = shared then none else lastProgress m.bus entries }

end Report

namespace Console

/-- Carries out a command and reports. -/
def report (c : Console) (cmd : Command) : Report × Console :=
  let (response, c) := c.execute cmd
  let w := c.world
  let entries := w.journal.toList.drop c.read
  ({ response
     time := Instant.millis w.now
     events := Report.arrange entries
     pools := c.handles.entries.filterMap fun e =>
       (w.members[e.2.pool]?).map fun m => (e.1, Report.view w c.manager.bus entries e.2 m) },
   { c with read := w.journal.size })

end Console
end JobPool
