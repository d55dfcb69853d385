/-
JobPool — pools of workers that run jobs.

Jobs wait in a driver; the workers of a pool take them and run them under a
retry policy; what happens is told on an event bus. `JobPool.Run` is one job from
pick-up to end, `JobPool.Pool.Tasks` the steps of a pool, `JobPool.Bus.Dispatch`
the delivery of an event, `JobPool.Queue.HandOff` producers and consumers at a
bounded queue, and `JobPool.Session.Schedule` a world of pools on one thread with
a virtual clock.
-/
import JobPool.Proofs.Bus.Logging
import JobPool.Proofs.Manager.Lifting
import JobPool.Proofs.Pool.Courses
import JobPool.Proofs.Pool.Drafting
import JobPool.Proofs.Pool.Forwarding
import JobPool.Proofs.Pool.Indifference
import JobPool.Proofs.Pool.Overlap
import JobPool.Proofs.Pool.Reaping
import JobPool.Proofs.Pool.Sequence
import JobPool.Proofs.Pool.States
import JobPool.Proofs.Pool.Waking
import JobPool.Proofs.Queue.Audience
import JobPool.Proofs.Queue.Ledger
import JobPool.Proofs.Queue.HandOff
import JobPool.Proofs.Queue.Watching
import JobPool.Session.Report
import JobPool.Proofs.Session.Turns
import JobPool.Proofs.Retry.Jitter
