/-
JobPool.Manager.Lifting — what a manager's lifecycle calls are on the pools.

A manager starts, stops and releases pools by name or all together. Each of these calls tells
one thing to some pools (`ManagerCall.command?`, `Manager.told`); a release also gives up names.
`Manager.Lifts` says that the call is no more than that: the pools come to the status that the
same command alone would give them, in whatever order they get to it and whatever goes on in
between, the rest of the world stays as it is, and to tell them again changes nothing.
-/
import JobPool.Manager.History
import JobPool.World.Turns

namespace JobPool

/-- What a manager tells a pool. -/
inductive Pool.Command where
  | start
  | stop
  | release
  deriving DecidableEq, Repr

namespace Pool.Command

/-- The move by which the command takes effect. -/
def move : Pool.Command → Move
  | start => .start
  | stop => .beginStop
  | release => .beginRelease

/-- The command takes effect; the answer is the call that has to be waited for. -/
def begin (s : Site) : Pool.Command → Option CallId × Site
  | start => (none, s.start.2)
  | stop => s.beginStop
  | release => s.beginRelease

/-- The status that the command leaves. -/
def leaves : Pool.Command → Pool.Status → Pool.Status
  | start, .released => .released
  | start, _ => .running
  | stop, .running => .stopped
  | stop, status => status
  | release, _ => .released

end Pool.Command

/-- True of the moves that start, stop or release a pool. -/
def Move.isCommand : Move → Bool
  | start | beginStop | beginRelease => true
  | _ => false

namespace World

/-- In some turns each of the pools is told the same, and nothing else. The turns may come in any
order, with any others in between. -/
structure Told (c : Pool.Command) (is : List PoolId) (ls : List Label) : Prop where
  each : ∀ i ∈ is, c.move ∈ movesOf i ls
  only : ∀ i ∈ is, ∀ m ∈ movesOf i ls, m.isCommand = true → m = c.move

/-- What comes of telling pools at once: each of them changes as the command alone changes it, and
nothing else in the world changes; what has to be waited for is what they answer. -/
structure Tells (w : World) (c : Pool.Command) (is : List PoolId) (calls : List (PoolId × CallId))
    (w' : World) : Prop where
  members : ∃ members, w' = { w with members } ∧
    (∀ i ∈ is, ∀ s, w.site? i = some s → ∃ k, w.members[i]? = some k ∧
      members[i]? = some { k with pool := (c.begin s).2.pool }) ∧
    ∀ i, i ∉ is → members[i]? = w.members[i]?
  calls : ∀ i d, (i, d) ∈ calls ↔ i ∈ is ∧ ∃ s, w.site? i = some s ∧ (c.begin s).1 = some d

/-- Pools were built, named and renamed in the world, and went on. -/
inductive Lived : World → Prop where
  | bare {w : World} (poolless : w.members = []) : Lived w
  | goes {w w' : World} (lived : Lived w) (goes : w.Goes w') : Lived w'
  | renamed {w : World} (lived : Lived w) (i : PoolId) (name : String) : Lived (w.rename i name)

end World

namespace ManagerCall

/-- What the call tells pools, if it is about their lifecycle. -/
def command? : ManagerCall → Option Pool.Command
  | start _ | startAll => some .start
  | stop _ | stopAll => some .stop
  | release _ | releaseAll => some .release
  | create .. | add .. | remove _ => none

/-- True if the call takes the name out. -/
def givesUp : ManagerCall → String → Bool
  | release name, k => k == name
  | releaseAll, _ => true
  | _, _ => false

end ManagerCall

namespace Manager

/-- The pools that a lifecycle call reaches. -/
def told (m : Manager) : ManagerCall → List PoolId
  | .start name | .stop name | .release name => (m.get? name).toList
  | .startAll | .stopAll | .releaseAll => m.pools.values
  | .create .. | .add .. | .remove _ => []

/-- The calls on pools that a call on the manager waits for. -/
def awaited (m : Manager) (w : World) : ManagerCall → List (PoolId × CallId)
  | .stop name => (m.beginStop w name).1
  | .release name => (m.beginRelease w name).1
  | .stopAll => (m.beginStopAll w).1
  | .releaseAll => (m.beginReleaseAll w).1
  | _ => []

end Manager
end JobPool
