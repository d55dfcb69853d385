/-
JobPool.Manager — pools under names.

A manager keeps pools of a world under unique names, each pool at most once, and
names each pool as it is kept. The pools it creates itself share its bus.
Starting, stopping and releasing by name does nothing for an unknown name;
releasing also takes the name out.
-/
import JobPool.World

namespace JobPool

/-- Why a pool was not taken in. -/
inductive PoolError where
  /-- Another pool has the name. -/
  | nameExists (name : String)
  /-- The pool is there, under this name. -/
  | instanceExists (name : String)
  deriving DecidableEq, Repr

namespace PoolError

/-- A short stable name of the cause. -/
def label : PoolError → String
  | nameExists _ => "pool_name_exists"
  | instanceExists _ => "pool_instance_exists"

/-- The cause in words. -/
def message : PoolError → String
  | nameExists name => "worker pool name \"" ++ name ++ "\" exists"
  | instanceExists name => "worker pool instance exists as \"" ++ name ++ "\""

/-- The cause as a record. -/
def render : PoolError → String
  | nameExists name => Text.record "NameExists" [("name", Text.Quoted.encode name)]
  | instanceExists name => Text.record "InstanceExists" [("name", Text.Quoted.encode name)]

end PoolError

/-- Pools under names, and the bus of the pools created here. -/
structure Manager where
  bus : BusId
  pools : NameMap PoolId := .empty

namespace Manager

/-- A manager without pools on a bus of the world. The lifecycle topics are made
sure of. -/
def onBus (w : World) (bus : BusId) : Manager × World :=
  ({ bus }, { w with buses := w.buses.modify bus (·.ensureLifecycle) })

/-- The pool under a name. -/
def get? (m : Manager) (name : String) : Option PoolId := m.pools.get? name

/-- The names, rising. -/
def names (m : Manager) : List String := m.pools.names

/-- The pool under a name, created if there is none; the answer says whether it
was created. -/
def create (m : Manager) (w : World) (name : String) (driver : DriverId)
    (choices : List Choice) : (PoolId × Bool) × Manager × World :=
  match m.get? name with
  | some i => ((i, false), m, w)
  | none =>
    let (i, w) := w.addPool name (.ofChoices choices) driver m.bus
    ((i, true), { m with pools := m.pools.insert name i }, w)

/-- Takes a pool in under a name and names it so. -/
def add (m : Manager) (w : World) (name : String) (i : PoolId) :
    Except PoolError Unit × Manager × World :=
  if m.pools.contains name then (.error (.nameExists name), m, w)
  else
    match m.pools.findName? (· == i) with
    | some other => (.error (.instanceExists other), m, w)
    | none => (.ok (), { m with pools := m.pools.insert name i }, w.rename i name)

/-- Takes a name out; the pool stays as it is. -/
def remove (m : Manager) (name : String) : Option PoolId × Manager :=
  (m.get? name, { m with pools := m.pools.erase name })

/-- Takes all names out. -/
def removeAll (m : Manager) : List PoolId × Manager :=
  (m.pools.values, { m with pools := .empty })

/-- The manager as a record. -/
def render (m : Manager) : String :=
  Text.record "WorkerPoolManager"
    [("pools", Text.bracketed (m.names.map Text.Quoted.encode))]

end Manager

namespace World

/-- Begins something at each of some pools, in order, and collects the calls
that have to be waited for. -/
def beginAll (w : World) (f : Site → Option CallId × Site) :
    List PoolId → List (PoolId × CallId) × World
  | [] => ([], w)
  | i :: rest =>
    match w.atSite i f with
    | none => w.beginAll f rest
    | some (call, w) =>
      let (calls, w) := w.beginAll f rest
      ((call.toList.map fun c => (i, c)) ++ calls, w)

/-- Starts each of some pools, in order. -/
def startAll (w : World) : List PoolId → World
  | [] => w
  | i :: rest =>
    match w.atSite i Site.start with
    | none => w.startAll rest
    | some (_, w) => w.startAll rest

end World

namespace Manager

/-- Starts the pool under a name, if any. -/
def start (m : Manager) (w : World) (name : String) : World :=
  w.startAll (m.get? name).toList

/-- Begins to stop the pool under a name, if any. -/
def beginStop (m : Manager) (w : World) (name : String) : List (PoolId × CallId) × World :=
  w.beginAll Site.beginStop (m.get? name).toList

/-- Begins to release the pool under a name, if any, and takes the name out. -/
def beginRelease (m : Manager) (w : World) (name : String) :
    List (PoolId × CallId) × Manager × World :=
  let (pool, m) := m.remove name
  let (calls, w) := w.beginAll Site.beginRelease pool.toList
  (calls, m, w)

/-- Starts every pool. -/
def startAll (m : Manager) (w : World) : World := w.startAll m.pools.values

/-- Begins to stop every pool. -/
def beginStopAll (m : Manager) (w : World) : List (PoolId × CallId) × World :=
  w.beginAll Site.beginStop m.pools.values

/-- Begins to release every pool and takes all names out. -/
def beginReleaseAll (m : Manager) (w : World) : List (PoolId × CallId) × Manager × World :=
  let (pools, m) := m.removeAll
  let (calls, w) := w.beginAll Site.beginRelease pools
  (calls, m, w)

end Manager
end JobPool
