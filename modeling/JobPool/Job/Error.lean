/-
JobPool.Job.Error — why an attempt of a job failed.

Each cause has a short stable label for logs and metrics, a message, and a
record form. Only a fatal error rules out a further attempt by itself.
-/
import JobPool.Text.Fields

namespace JobPool

/-- What a panic carries: a text, or something that is no text. -/
inductive Panic where
  | said (text : String)
  | wordless
  deriving DecidableEq, Repr, Inhabited

/-- The text of a panic for messages. -/
def Panic.info : Panic → String
  | said text => text
  | wordless => "unknown panic"

/-- Why an attempt of a job failed. -/
inductive JobError where
  /-- It failed but may succeed when tried again. -/
  | fail (reason : String)
  /-- It cannot succeed. -/
  | fatal (reason : String)
  /-- It ran longer than its limit, or the job longer than its total limit. -/
  | timeout (limit : Duration)
  /-- Kept for jobs that tell the limit of one attempt apart; no run of a job
  produces it by itself. -/
  | attemptTimeout (limit : Duration)
  /-- It panicked. -/
  | panicked (info : String)
  deriving DecidableEq, Repr

namespace JobError

/-- A short stable name of the cause. -/
def label : JobError → String
  | fail _ => "job_failed"
  | fatal _ => "job_fatal"
  | timeout _ => "job_execute_timeout"
  | attemptTimeout _ => "job_attempt_timeout"
  | panicked _ => "job_unknown_err_panic"

/-- The cause in words. -/
def message : JobError → String
  | fail reason => "execution failed: " ++ reason
  | fatal reason => "fatal error (no retry): " ++ reason
  | timeout limit => "job execute timeout after " ++ Text.Span.render limit
  | attemptTimeout limit => "job attempt timeout after " ++ Text.Span.render limit
  | panicked info => "job panicked: " ++ info

/-- The cause as a record. -/
def render : JobError → String
  | fail reason => Text.record "Fail" [("reason", Text.Quoted.encode reason)]
  | fatal reason => Text.record "Fatal" [("reason", Text.Quoted.encode reason)]
  | timeout limit => Text.record "Timeout" [("timeout", Text.Span.render limit)]
  | attemptTimeout limit => Text.record "AttemptTimeout" [("timeout", Text.Span.render limit)]
  | panicked info => Text.record "Panicked" [("info", Text.Quoted.encode info)]

/-- True unless the error is fatal. -/
def isRetryable : JobError → Bool
  | fatal _ => false
  | _ => true

/-- The error of an attempt that panicked. -/
def ofPanic (p : Panic) : JobError := panicked p.info

end JobError
end JobPool
