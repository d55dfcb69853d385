/-
JobPool.Bus.Dispatch — delivering an event to the chain of its topic.

The chain is fixed when the delivery begins. Every listener of it is made
afresh first, in order; then the made listeners handle the event, then the
clauses, each group in order, until one answers `false`. A link that panics is
reported and counts as `true`. A panic while a listener is being made is not
contained: it ends the delivery and reaches whoever dispatched the event.

What links do is given by a `Conduct`: functions on a state of any kind. The
state may well hold the bus itself, so links may register, delete and dispatch.
-/
import JobPool.Bus.Basic

namespace JobPool

/-- Data handed to listeners as they are made. -/
inductive Init where
  | text (s : String)
  | number (n : Int)
  /-- Of a kind that listeners do not know. -/
  | other
  deriving DecidableEq, Repr

/-- What a link leaves behind: its result, or the panic it ended with. -/
abbrev Outcome (α : Type) := Except Panic α

/-- What links do to a state `σ`. Listeners of kind `L` are made into
instances of kind `I`; clauses are of kind `C`. -/
structure Conduct (σ L I C : Type) where
  /-- Makes a listener for one dispatch. -/
  make : L → Option Init → σ → Outcome I × σ
  /-- A made listener handles the event; `false` ends the delivery. -/
  handle : I → Event → σ → Outcome Bool × σ
  /-- A clause handles the event; `false` ends the delivery. -/
  call : C → Event → σ → Outcome Bool × σ
  /-- Notes a panic that was contained. -/
  report : Event → Panic → σ → σ

/-- How a dispatch ends for whoever called it. -/
inductive Delivery where
  /-- The chain was run. -/
  | delivered
  /-- There is no such topic. -/
  | refused (error : BusError)
  /-- A panic came out of the chain. -/
  | unwound (panic : Panic)
  deriving DecidableEq, Repr

namespace Conduct

variable {σ L I C : Type} (k : Conduct σ L I C)

/-- Makes all listeners of a chain, in order, up to the first panic. -/
def makeAll (init : Option Init) : List L → σ → Outcome (List I) × σ
  | [], s => (.ok [], s)
  | l :: rest, s =>
    match k.make l init s with
    | (.error p, s) => (.error p, s)
    | (.ok i, s) =>
      match makeAll init rest s with
      | (.error p, s) => (.error p, s)
      | (.ok is, s) => (.ok (i :: is), s)

/-- Runs one link; a panic is reported and counts as `true`. -/
def guarded (ev : Event) (link : σ → Outcome Bool × σ) (s : σ) : Bool × σ :=
  match link s with
  | (.ok pass, s) => (pass, s)
  | (.error p, s) => (true, k.report ev p s)

/-- Runs links in order until one answers `false`. -/
def runLinks (ev : Event) : List (σ → Outcome Bool × σ) → σ → σ
  | [], s => s
  | link :: rest, s =>
    match k.guarded ev link s with
    | (true, s) => runLinks ev rest s
    | (false, s) => s

/-- Delivers an event to a chain. -/
def deliver (chain : Chain L C) (ev : Event) (init : Option Init) (s : σ) : Delivery × σ :=
  match k.makeAll init chain.listeners s with
  | (.error p, s) => (.unwound p, s)
  | (.ok is, s) =>
    (.delivered,
      k.runLinks ev (is.map (fun i => k.handle i ev) ++ chain.clauses.map (fun c => k.call c ev)) s)

/-- Dispatches an event on a bus: delivers it to the chain that its topic has
there now. -/
def dispatch (bus : Bus L C) (ev : Event) (init : Option Init) (s : σ) : Delivery × σ :=
  match bus.chain? ev.topic with
  | none => (.refused (.eventNotFound ev.topic), s)
  | some chain => k.deliver chain ev init s

end Conduct
end JobPool
