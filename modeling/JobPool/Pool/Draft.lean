/-
JobPool.Pool.Draft — a pool in the making.

A draft collects a name, settings, a driver and a bus; the last word on each
counts, and new settings replace all choices made before. What is left open is
filled in when the pool is built: a driver without bound, a bus of its own, the
standard settings.
-/
import JobPool.World

namespace JobPool

/-- A pool in the making. -/
structure Draft where
  name : String
  driver : Option DriverId := none
  bus : Option BusId := none
  settings : Settings := {}

namespace Draft

/-- One step of making a pool. -/
inductive Step where
  | choose (c : Choice)
  | chooseAll (cs : List Choice)
  | settings (s : Settings)
  | driver (d : DriverId)
  | bus (b : BusId)

/-- Takes one step. -/
def apply (d : Draft) : Step → Draft
  | .choose c => { d with settings := d.settings.choose c }
  | .chooseAll cs => { d with settings := d.settings.chooseAll cs }
  | .settings s => { d with settings := s }
  | .driver i => { d with driver := some i }
  | .bus b => { d with bus := some b }

/-- Takes steps in order. -/
def applyAll (d : Draft) (steps : List Step) : Draft := steps.foldl apply d

/-- Builds the pool. -/
def build (d : Draft) (w : World) : PoolId × World :=
  let (driver, w) := match d.driver with
    | some i => (i, w)
    | none => w.addDriver (.memory {})
  let (bus, w) := match d.bus with
    | some b => (b, w)
    | none => w.addBus .empty
  w.addPool d.name d.settings driver bus

end Draft
end JobPool
