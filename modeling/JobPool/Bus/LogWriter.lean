/-
JobPool.Bus.LogWriter — a subscriber that turns lifecycle events into log lines.

It has one clause per lifecycle topic; the one for progress is optional. A
clause writes one line if the event is of the kind that belongs to its topic,
and none otherwise, and always lets the delivery go on.
-/
import JobPool.Journal

namespace JobPool

/-- The kinds of lifecycle events that a log writer has clauses for. -/
inductive LogClause where
  | started
  | done
  | retrying
  | failed
  | progress
  deriving DecidableEq, Repr

namespace LogClause

/-- The topic a clause is attached to. -/
def topic : LogClause → String
  | started => Topic.beforeHandle
  | done => Topic.afterHandle
  | retrying => Topic.retryHandle
  | failed => Topic.failedHandle
  | progress => Topic.progressUpdated

/-- Where the lines come from. -/
def source : String := "jobvisor::subscribers::log"

/-- The line a clause writes for an event, if the event is of its kind. -/
def line? : LogClause → Event → Option LogLine
  | started, .before job => some ⟨.debug, source, "job started", [("job", job.name)]⟩
  | done, .after job => some ⟨.debug, source, "job done", [("job", job.name)]⟩
  | retrying, .retry job attempt error =>
    some ⟨.warn, source, "job retry scheduled",
      [("job", job.name), ("attempt", toString attempt), ("error", error.message)]⟩
  | failed, .failed job error =>
    some ⟨.error, source, "job failed",
      [("job", job.name), ("error", error.message), ("label", error.label)]⟩
  | progress, .progress p =>
    some ⟨.trace, source, "progress",
      [("total", toString p.total), ("pending", toString p.pending),
       ("executing", toString p.executing), ("completed", toString p.completed),
       ("success", toString p.success), ("failed", toString p.failed)]⟩
  | _, _ => none

end LogClause

/-- A log writer; progress is written only if asked for. -/
structure LogWriter where
  withProgress : Bool := false
  deriving DecidableEq, Repr

namespace LogWriter

/-- The topics a log writer subscribes to, with its clauses. -/
def subscriptions (w : LogWriter) : List (String × List LogClause) :=
  let jobs : List LogClause := [.started, .done, .retrying, .failed]
  let clauses := if w.withProgress then jobs ++ [.progress] else jobs
  clauses.map fun c => (c.topic, [c])

/-- The log writer as a record. -/
def render (w : LogWriter) : String :=
  Text.record "LogWriter" [("progress", Text.truth w.withProgress)]

end LogWriter
end JobPool
