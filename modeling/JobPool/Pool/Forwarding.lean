/-
JobPool.Pool.Forwarding — what a forwarder tells, and what there is to tell.

A forwarder leaves out what changes between two looks at the counts. `Site.mutates` says which
moves change them, and `Path.forwardedBy` what one forwarder published along a path, so one can
say that it is never behind for good: `Site.Forwarding`.

What listeners do when counts are published comes as moves of its own after the step that
publishes them, like whatever else anybody does to the driver.
-/
import Mathlib.Data.List.Chain
import JobPool.Pool.Path
import JobPool.Queue.Ledger

namespace JobPool

/-- The counts that an event tells, if it is of that kind. -/
def Event.progress? : Event → Option Progress
  | progress p => some p
  | _ => none

/-- True of every driver, whatever was asked of it since it was new. -/
def Driver.WasNew {α : Type} (d : Driver α) : Prop :=
  ∃ (start : Driver α) (calls : List (DriverCall α)), d = (start.workAll calls).1 ∧
    (start = .memory {} ∨ (∃ capacity, start = .queue (.ofCapacity capacity)) ∨ start = .plain {})

/-- `ev` is dispatched at a hub, which is `h'` then: links are called, in the state in which each
finds the hub, up to a panic that comes out of the chain; a missing topic is noted. -/
def Hub.Hears (h : Hub) (ev : Event) (h' : Hub) : Prop :=
  match h.dispatch ev with
  | (.delivered, after) | (.unwound _, after) => h' = after
  | (.refused e, after) => h' = after.note (.line (dispatchFailedLine ev e))

namespace Site

/-- True of a move that changes the counts of the driver: a job is accepted, taken or dropped,
or an outcome is recorded. -/
def mutates (s : Site) : Move → Bool
  | .task t => (s.takes t).isSome || (s.finishes t).isSome
  | .dispatch job => (s.dispatch job).1
  | .enqueue job => (s.driver.enqueue job).1
  | .take => s.driver.dequeue.1.isSome
  | .clear => !s.driver.waiting.isEmpty
  | .complete _ => true
  | _ => false

/-- How far the forwarder of an upkeep has come. -/
def forwarderAt (s : Site) (u : UpkeepId) : Option Forwarder :=
  (s.pool.upkeeps[u]?).map (·.forwarder)

/-- The token of an upkeep is not cancelled: the pool was neither stopped nor released since. -/
def isLive (s : Site) (u : UpkeepId) : Bool :=
  (s.pool.upkeeps[u]?).any fun k => !s.pool.tokens.isCancelled k.token

/-- The counts that the forwarder of an upkeep publishes in a move, if any. -/
def forwards (s : Site) (u : UpkeepId) : Move → Option Progress
  | .task (.forwarder v) =>
    if v = u then (s.publishes (.forwarder u)).bind Event.progress? else none
  | _ => none

/-- In a step notes are made, and `ev` is dispatched if it is an event; nothing else is heard. -/
def Hears (s : Site) (ev : Option Event) (s' : Site) : Prop :=
  ∃ notes : List Note,
    match ev with
    | none => s'.hub = notes.foldl .note s.hub
    | some ev => (notes.foldl .note s.hub).Hears ev s'.hub

end Site

namespace Path

/-- The counts that the forwarder of an upkeep publishes in some moves. -/
def forwardedBy (u : UpkeepId) (ms : List (Site × Move)) : List Progress :=
  ms.filterMap fun x => x.1.forwards u x.2

/-- The forwarder of an upkeep takes its first step in `s₀`, and `after` are the moves since. -/
structure Begins (u : UpkeepId) (ms : List (Site × Move)) (s₀ : Site)
    (after : List (Site × Move)) : Prop where
  split : ∃ before, ms = before ++ (s₀, .task (.forwarder u)) :: after
  fresh : s₀.forwarderAt u = some .fresh

end Path

/-- What one may rely on about published counts after some moves. -/
structure Site.Forwarding (ms : List (Site × Move)) (s : Site) : Prop where
  /-- Only forwarders publish counts, and those that the driver has then. -/
  told : ∀ {t p}, s.publishes t = some (.progress p) →
    (∃ u, t = .forwarder u) ∧ p = s.driver.progress
  /-- What a task publishes is what the bus hears of its step. -/
  heard : ∀ {t s'}, s.step t = some s' → s.Hears (s.publishes t) s'
  /-- The counts change in no other moves. -/
  steady : ∀ {m s'}, s.move m = some s' → s.mutates m = false →
    s'.driver.progress = s.driver.progress
  /-- A forwarder watches a channel if there is one. -/
  watches : ∀ {u r}, s.forwarderAt u = some (.watching r) → s.driver.channel? ≠ none
  polls : ∀ {u last ticker}, s.forwarderAt u = some (.polling last ticker) →
    s.driver.channel? = none
  /-- A forwarder that watches and has nothing to do has told the counts as they are, unless
  there was nothing to tell since it began. -/
  watched : ∀ {u r}, s.forwarderAt u = some (.watching r) → s.isLive u = true →
    s.step (.forwarder u) = none → ∃ s₀ after, Path.Begins u ms s₀ after ∧
      ((∀ x ∈ after, x.1.mutates x.2 = false) ∨
        (Path.forwardedBy u ms).getLast? = some s.driver.progress)
  /-- After a tick of a forwarder that looks from time to time, the counts that it told last,
  or found when it began, are those that it reads. -/
  polled : ∀ {u last ticker}, s.forwarderAt u = some (.polling last ticker) →
    s.isLive u = true → ticker.isDue s.now = true → (s.step (.forwarder u)).isSome = true ∧
    ∃ s₀ after, Path.Begins u ms s₀ after ∧
      (Path.forwardedBy u (ms ++ [(s, .task (.forwarder u))])).getLast?.getD s₀.driver.progress =
        s.driver.progress
  /-- Without a channel no counts are told twice in a row. -/
  varied : s.driver.channel? = none → ∀ u, (Path.forwardedBy u ms).IsChain (· ≠ ·)

end JobPool
