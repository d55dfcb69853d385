/-
JobPool.Pool.Drafting — what the steps of making a pool come to.

Each step of a draft says something about one thing: the settings as a whole, choices among
them, the driver, or the bus. `Draft.last?` is the last that was said about one of them, and
`Draft.choicesSince` what was chosen after the settings were last given as a whole.
`Draft.Makes` reads the pool that is built off the list of steps.
-/
import Mathlib.Data.List.DropRight
import JobPool.Manager
import JobPool.Pool.Draft
import JobPool.Settings.Field

namespace JobPool

/-- The settings of a pool. -/
def World.settingsOf (w : World) (i : PoolId) : Option Settings :=
  (w.members[i]?).map (·.pool.settings)

namespace Draft
namespace Step

/-- The choices that a step makes. -/
def choices : Step → List Choice
  | choose c => [c]
  | chooseAll cs => cs
  | settings _ | driver _ | bus _ => []

/-- The settings that a step puts in the place of all before. -/
def settings? : Step → Option Settings
  | settings s => some s
  | _ => none

/-- The driver that a step gives. -/
def driver? : Step → Option DriverId
  | driver d => some d
  | _ => none

/-- The bus that a step gives. -/
def bus? : Step → Option BusId
  | bus b => some b
  | _ => none

/-- True of steps about anything but the driver and the bus. -/
def isOfSettings (x : Step) : Bool := x.driver?.isNone && x.bus?.isNone

end Step

/-- The last that steps say about something. -/
def last? {α : Type} (say : Step → Option α) (steps : List Step) : Option α :=
  (steps.filterMap say).getLast?

/-- The choices that steps make after the last one that gives whole settings; all of them, if
there is none. -/
def choicesSince (steps : List Step) : List Choice :=
  (steps.rtakeWhile (·.settings?.isNone)).flatMap Step.choices

/-- `made` is the pool that the steps make in a world, with the world after it. -/
structure Makes (name : String) (steps : List Step) (w : World) (made : PoolId × World) :
    Prop where
  /-- A new pool is added, with the settings given last and the choices made since, on the driver
  and the bus given last. -/
  member : made.1 = w.members.length ∧
    made.2.members = w.members ++
      [{ pool := .create name
          (((last? Step.settings? steps).getD {}).chooseAll (choicesSince steps))
         driver := (last? Step.driver? steps).getD w.drivers.length
         bus := (last? Step.bus? steps).getD w.buses.length }]
  /-- Without a driver the pool has a new one without bound, and no other is added. -/
  drivers : made.2.drivers =
    w.drivers ++ if (last? Step.driver? steps).isSome then [] else [.memory {}]
  /-- Without a bus the pool has a new one, and no other is added. The topics are made sure of. -/
  buses : made.2.buses =
    (w.buses ++ if (last? Step.bus? steps).isSome then [] else [Bus.empty]).modify
      ((last? Step.bus? steps).getD w.buses.length) (·.ensureLifecycle)
  /-- If no whole settings were given, its settings are what all the choices make of the
  standard ones. -/
  ofChoices : (∀ x ∈ steps, x.settings? = none) →
    made.2.settingsOf made.1 = some (.ofChoices (steps.flatMap Step.choices))
  /-- Then a pool that a manager creates with these choices has the same settings. -/
  created : (∀ x ∈ steps, x.settings? = none) →
    ∀ (m : Manager) (v : World) (other : String) (driver : DriverId), m.get? other = none →
      ∃ i m' v', m.create v other driver (steps.flatMap Step.choices) = ((i, true), m', v') ∧
        v'.settingsOf i = made.2.settingsOf made.1
  /-- Steps about the driver and the bus do not touch the settings, wherever they stand. -/
  aside : ∀ others : List Step,
    others.filter (·.isOfSettings) = steps.filter (·.isOfSettings) →
    ∀ v i v', (applyAll { name } others).build v = (i, v') →
      v'.settingsOf i = made.2.settingsOf made.1

end Draft
end JobPool
