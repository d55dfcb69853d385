/-
JobPool.World — several pools, the drivers and buses they share, and the time.

A world keeps its drivers, buses and pools in tables. A pool with its driver and
its bus is a `Site`; whatever happens there is a change of the site that is put
back into the world, so pools only meet in a driver or a bus that they share.
-/
import JobPool.Pool.Lifecycle

namespace JobPool

/-- The number of a driver in its world. -/
abbrev DriverId := Nat

/-- The number of a bus in its world. -/
abbrev BusId := Nat

/-- The number of a pool in its world. -/
abbrev PoolId := Nat

/-- A pool and what it works on. -/
structure Member where
  pool : Pool
  driver : DriverId
  bus : BusId

/-- Drivers, buses and pools, what was noted, and the clocks. -/
structure World where
  now : Nat := 0
  wall : Nat := 0
  /-- The random choices of each pool. -/
  picks : PoolId → Picks := fun _ => .least
  journal : Journal := #[]
  drivers : List (Driver Job) := []
  buses : List ScriptBus := []
  members : List Member := []

namespace World

/-- A pool with its surroundings. -/
def site? (w : World) (i : PoolId) : Option Site := do
  let m ← w.members[i]?
  let driver ← w.drivers[m.driver]?
  let bus ← w.buses[m.bus]?
  some { pool := m.pool, driver, hub := { bus, journal := w.journal, now := w.now },
         wall := w.wall, picks := w.picks i }

/-- Puts a changed pool and its changed surroundings back. -/
def putSite (w : World) (i : PoolId) (s : Site) : World :=
  match w.members[i]? with
  | none => w
  | some m =>
    { w with
      journal := s.hub.journal
      drivers := w.drivers.set m.driver s.driver
      buses := w.buses.set m.bus s.hub.bus
      members := w.members.set i { m with pool := s.pool } }

/-- Does something at a pool; `none` if there is no such pool. -/
def atSite {α : Type} (w : World) (i : PoolId) (f : Site → α × Site) : Option (α × World) := do
  let s ← w.site? i
  let (a, s) := f s
  some (a, w.putSite i s)

/-- One step of a task of a pool; `none` if it has to wait or is over. -/
def step (w : World) (i : PoolId) (t : PoolTask) : Option World := do
  let s ← w.site? i
  let s ← s.step t
  some (w.putSite i s)

/-- Carries out an operation on a bus. -/
def perform (w : World) (b : BusId) (op : BusOp) : Option (Reply × World) := do
  let bus ← w.buses[b]?
  let (reply, hub) := ({ bus, journal := w.journal, now := w.now } : Hub).perform op
  some (reply, { w with buses := w.buses.set b hub.bus, journal := hub.journal })

/-- Adds a driver. -/
def addDriver (w : World) (d : Driver Job) : DriverId × World :=
  (w.drivers.length, { w with drivers := w.drivers ++ [d] })

/-- Adds a bus. -/
def addBus (w : World) (b : ScriptBus) : BusId × World :=
  (w.buses.length, { w with buses := w.buses ++ [b] })

/-- Adds a pool on a driver and a bus of the world. The lifecycle topics are
made sure of. -/
def addPool (w : World) (name : String) (settings : Settings) (driver : DriverId) (bus : BusId) :
    PoolId × World :=
  (w.members.length,
    { w with
      buses := w.buses.modify bus (·.ensureLifecycle)
      members := w.members ++ [⟨.create name settings, driver, bus⟩] })

/-- Gives a pool another name. -/
def rename (w : World) (i : PoolId) (name : String) : World :=
  { w with members := w.members.modify i fun m => { m with pool := { m.pool with name } } }

end World
end JobPool
