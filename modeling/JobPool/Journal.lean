/-
JobPool.Journal — what was seen, in order, with the time at which it was seen.

Links, jobs and the library itself leave notes: which link ran on which event,
what an operation answered, which attempt began, and lines for a log.
-/
import JobPool.Bus.Dispatch

namespace JobPool

/-- How serious a log line is. -/
inductive Level where
  | trace
  | debug
  | warn
  | error
  deriving DecidableEq, Repr

/-- The name of a level. -/
def Level.render : Level → String
  | trace => "TRACE"
  | debug => "DEBUG"
  | warn => "WARN"
  | error => "ERROR"

/-- A line for a log: where it comes from, what it says, and named values. -/
structure LogLine where
  level : Level
  source : String
  message : String
  fields : List (String × String)
  deriving DecidableEq, Repr

/-- What an operation on a bus answered. -/
inductive Reply where
  | done
  | spec (s : Option TopicSpec)
  | flag (b : Bool)
  | specs (s : List TopicSpec)
  | names (s : List String)
  | text (s : String)
  | refused (e : BusError)
  | unwound (p : Panic)
  deriving DecidableEq, Repr

/-- The answer of an operation that either succeeds or is refused. -/
def Reply.ofResult : Except BusError Unit → Reply
  | .ok () => done
  | .error e => refused e

/-- The answer of a dispatch. -/
def Reply.ofDelivery : Delivery → Reply
  | .delivered => done
  | .refused e => refused e
  | .unwound p => unwound p

/-- Something that was seen. -/
inductive Note where
  /-- A listener was made. -/
  | made (tag : String) (init : Option Init)
  /-- A made listener handled its `count`-th event. -/
  | handled (tag : String) (init : Option Init) (count : Nat) (event : Event)
  /-- A clause was called. -/
  | called (tag : String) (event : Event)
  /-- A link carried out an operation. -/
  | did (operation : String) (reply : Reply)
  /-- A link wanted to carry out an operation inside too many others. -/
  | tooDeep (operation : String)
  /-- A line for the log. -/
  | line (l : LogLine)
  /-- An event passed the recorder with this number. -/
  | recorded (recorder : Nat) (event : Event)
  /-- Attempt `number` of a job began; its token was cancelled or not. -/
  | attempt (job : Job) (number : Nat) (cancelled : Bool)

/-- A note and the instant at which it was made. -/
structure Entry where
  time : Nat
  note : Note

/-- Notes, oldest first. -/
abbrev Journal := Array Entry

end JobPool
