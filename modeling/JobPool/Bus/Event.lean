/-
JobPool.Bus.Event — topics and the events that are routed by them.

An event knows its topic. Pools emit five kinds of lifecycle events, each on
a topic of its own; anybody may define further ones (`Event.user`), also on a
lifecycle topic: what an event is depends on its kind, not on its topic.
-/
import JobPool.Job.Basic
import JobPool.Queue.Tally

namespace JobPool

/-- A registered topic and what it is for. -/
structure TopicSpec where
  topic : String
  description : Option String := none
  deriving DecidableEq, Repr, Inhabited

/-- The spec as a record. -/
def TopicSpec.render (s : TopicSpec) : String :=
  Text.record "EventSpec"
    [("topic", Text.Quoted.encode s.topic),
     ("description", Text.optional Text.Quoted.encode s.description)]

namespace Topic

/-- A worker picked up a job. -/
def beforeHandle : String := "before-handle"

/-- A job succeeded. -/
def afterHandle : String := "after-handle"

/-- A job failed for good. -/
def failedHandle : String := "failed-handle"

/-- An attempt failed and another will follow. -/
def retryHandle : String := "retry-handle"

/-- The counts of a driver changed. -/
def progressUpdated : String := "progress-updated"

/-- The topics that a pool publishes to, with what they are for. -/
def lifecycle : List TopicSpec :=
  [⟨beforeHandle, some "job picked up by a worker"⟩,
   ⟨afterHandle, some "job handled successfully"⟩,
   ⟨failedHandle, some "job failed permanently"⟩,
   ⟨retryHandle, some "job attempt failed, retry scheduled"⟩,
   ⟨progressUpdated, some "driver counters changed"⟩]

end Topic

/-- Something that happened. -/
inductive Event where
  /-- A worker picked up `job` and is about to make its first attempt. -/
  | before (job : Job)
  /-- `job` succeeded. -/
  | after (job : Job)
  /-- `job` failed with `error` and will not be tried again. -/
  | failed (job : Job) (error : JobError)
  /-- Attempt `attempt` of `job` failed; another follows after the back-off. -/
  | retry (job : Job) (attempt : Nat) (error : JobError)
  /-- The counts of a driver are now `progress`. -/
  | progress (progress : Progress)
  /-- An event of any other kind. -/
  | user (topic text : String)

namespace Event

/-- The topic an event is routed to. -/
def topic : Event → String
  | before _ => Topic.beforeHandle
  | after _ => Topic.afterHandle
  | failed .. => Topic.failedHandle
  | retry .. => Topic.retryHandle
  | progress _ => Topic.progressUpdated
  | user topic _ => topic

/-- The job an event is about, if any. -/
def job? : Event → Option Job
  | before job | after job | failed job _ | retry job _ _ => some job
  | progress _ | user .. => none

/-- A lifecycle event as a record; other events have no text. -/
def render : Event → String
  | before job => Text.record "BeforeHandle" [("job", Text.Quoted.encode job.name)]
  | after job => Text.record "AfterHandle" [("job", Text.Quoted.encode job.name)]
  | failed job error =>
    Text.record "FailedHandle"
      [("job", Text.Quoted.encode job.name), ("error", error.render)]
  | retry job attempt error =>
    Text.record "RetryHandle"
      [("job", Text.Quoted.encode job.name), ("attempt", toString attempt),
       ("error", error.render)]
  | progress p => Text.record "ProgressUpdated" [("progress", p.render)]
  | user .. => ""

end Event
end JobPool
