/-
JobPool.Manager.History — the calls on a manager, and what goes on beside them.

The register of a manager is its own, but a name stands twice: in the register and in the
pool. Between two calls the pools go on, others build pools, change drivers and buses, and
may name a pool that the manager does not keep. `Manager.History` is any such sequence,
and `Manager.Keeps` and `Manager.Answers` say what one may rely on after it.

The calls that wait, a stop or a release by name or of all pools, take effect on the
register when they begin; the rest of them is steps of the pools.
-/
import JobPool.Manager
import JobPool.Pool.Moves

namespace JobPool

namespace World

/-- The name of a pool. -/
def nameOf (w : World) (i : PoolId) : Option String := (w.members[i]?).map (·.pool.name)

/-- What goes on in a world without a manager that names pools. -/
inductive Goes (w : World) : World → Prop where
  | move {i : PoolId} {s s' : Site} (m : Move) (found : w.site? i = some s)
      (moved : s.move m = some s') : Goes w (w.putSite i s')
  | build (name : String) (settings : Settings) (driver : DriverId) (bus : BusId) :
      Goes w (w.addPool name settings driver bus).2
  /-- Time passes, or something is done to drivers and buses. -/
  | beside {w' : World} (members : w'.members = w.members) : Goes w w'

end World

/-- A call on a manager. -/
inductive ManagerCall where
  | create (name : String) (driver : DriverId) (choices : List Choice)
  | add (name : String) (i : PoolId)
  | remove (name : String)
  | release (name : String)
  | releaseAll
  | start (name : String)
  | stop (name : String)
  | startAll
  | stopAll

namespace ManagerCall

/-- True unless a pool is to be taken in that is not of this world. -/
def isOf (w : World) : ManagerCall → Prop
  | add _ i => i < w.members.length
  | _ => True

/-- True of the calls that leave the register as it is. -/
def sparesNames : ManagerCall → Bool
  | start _ | stop _ | startAll | stopAll => true
  | _ => false

end ManagerCall

namespace Manager

/-- Carries out a call, or begins it if it has to wait. -/
def carryOut (m : Manager) (w : World) : ManagerCall → Manager × World
  | .create name driver choices => (m.create w name driver choices).2
  | .add name i => (m.add w name i).2
  | .remove name => ((m.remove name).2, w)
  | .release name => (m.beginRelease w name).2
  | .releaseAll => (m.beginReleaseAll w).2
  | .start name => (m, m.start w name)
  | .stop name => (m, (m.beginStop w name).2)
  | .startAll => (m, m.startAll w)
  | .stopAll => (m, (m.beginStopAll w).2)

/-- What a manager opened on a bus and its world have become. -/
inductive History (start : World) (bus : BusId) : Manager → World → Prop where
  | opened : History start bus (onBus start bus).1 (onBus start bus).2
  | call {m : Manager} {w : World} (c : ManagerCall) (history : History start bus m w)
      (known : c.isOf w) : History start bus (m.carryOut w c).1 (m.carryOut w c).2
  | goes {m : Manager} {w w' : World} (history : History start bus m w) (goes : w.Goes w') :
      History start bus m w'
  /-- Another manager takes in a pool that this one does not keep. -/
  | other {m : Manager} {w : World} (name : String) (i : PoolId)
      (history : History start bus m w) (absent : ∀ own, m.get? own ≠ some i) :
      History start bus m (w.rename i name)

/-- The register of a manager agrees with the pools. -/
structure Keeps (bus : BusId) (m : Manager) (w : World) : Prop where
  bus : m.bus = bus
  /-- A pool has the name that it is kept under. -/
  named : ∀ {name : String} {i : PoolId}, m.get? name = some i → w.nameOf i = some name
  /-- No pool is kept twice. -/
  once : ∀ {name other : String} {i : PoolId},
    m.get? name = some i → m.get? other = some i → name = other
  rising : m.names.Pairwise (· < ·)
  listed : ∀ name, name ∈ m.names ↔ (m.get? name).isSome = true

/-- How a manager answers, and what its calls do to the register and to the pools. -/
structure Answers (m : Manager) (w : World) : Prop where
  create_taken : ∀ {name i} driver choices, m.get? name = some i →
    m.create w name driver choices = ((i, false), m, w)
  /-- There is one more pool, a pending one on the bus of the manager. -/
  create_free : ∀ {name} driver choices, m.get? name = none →
    ∃ m' w' pool, m.create w name driver choices = ((w.members.length, true), m', w') ∧
      m'.bus = m.bus ∧
      (∀ k, m'.get? k = if k = name then some w.members.length else m.get? k) ∧
      w'.members = w.members ++ [⟨pool, driver, m.bus⟩] ∧
      pool.status = .pending ∧ pool.name = name ∧ pool.settings = .ofChoices choices
  /-- A taken name is refused first, whatever the pool. -/
  add_taken : ∀ {name} i, (m.get? name).isSome = true →
    m.add w name i = (.error (.nameExists name), m, w)
  add_kept : ∀ {name other i}, m.get? name = none → m.get? other = some i →
    m.add w name i = (.error (.instanceExists other), m, w)
  /-- Nothing but the name of the pool changes in the world. -/
  add_new : ∀ {name i member}, m.get? name = none → (∀ other, m.get? other ≠ some i) →
    w.members[i]? = some member →
    ∃ m' w', m.add w name i = (.ok (), m', w') ∧ m'.bus = m.bus ∧
      (∀ k, m'.get? k = if k = name then some i else m.get? k) ∧
      w' = { w with
        members := w.members.set i { member with pool := { member.pool with name } } }
  /-- The pool of the name is handed out as it is. -/
  remove : ∀ name, (m.remove name).1 = m.get? name ∧
    (∀ k, (m.remove name).2.get? k = if k = name then none else m.get? k) ∧
    (m.carryOut w (.remove name)).2 = w
  release : ∀ name k,
    (m.carryOut w (.release name)).1.get? k = if k = name then none else m.get? k
  releaseAll : ∀ k, (m.carryOut w .releaseAll).1.get? k = none
  spares : ∀ c : ManagerCall, c.sparesNames = true → (m.carryOut w c).1 = m

end Manager
end JobPool
