/-
JobPool.Bus.Script — links whose behaviour is written down.

An action is what a scripted link does when it is made and when it handles an
event: operations on the bus, then perhaps a panic, else an answer. The
operations may dispatch, so links run inside links; operations nest at most
`Script.depth` deep, and one that would go deeper is noted and left out. That
bound is what the recursion runs on: `perform n` may nest operations `n` deep.
-/
import JobPool.Bus.LogWriter

namespace JobPool

mutual
/-- An operation on a bus. -/
inductive BusOp where
  | ensureLifecycle
  | add (spec : TopicSpec)
  | ensure (spec : TopicSpec)
  | spec (topic : String)
  | has (topic : String)
  | deleteEvent (topic : String)
  | deleteTopic (topic : String)
  | specs
  | names
  | render
  | onEvent (topic : String) (action : Action)
  | onTopic (topic : String) (action : Action)
  | listenEvent (topic : String) (action : Action)
  | listenTopic (topic : String) (action : Action)
  | subscribe (subs : List (String × List Action))
  | subscribeLog (withProgress : Bool)
  | dispatch (event : Event) (init : Option Init)

/-- What a scripted link does: `pass` is its answer, unless it panics. -/
inductive Action where
  | mk (tag : String) (pass : Bool) (panic : Option Panic) (ops : List BusOp)
    (panicOnMake : Option Panic) (opsOnMake : List BusOp)
end

namespace Action

/-- The name of a link in notes. -/
def tag : Action → String
  | mk tag .. => tag

/-- Whether the delivery goes on after the link. -/
def pass : Action → Bool
  | mk _ pass .. => pass

/-- The panic that ends the link, if any. -/
def panic : Action → Option Panic
  | mk _ _ panic .. => panic

/-- What the link carries out when it handles an event. -/
def ops : Action → List BusOp
  | mk _ _ _ ops .. => ops

/-- The panic that ends the making of the link, if any. -/
def panicOnMake : Action → Option Panic
  | mk _ _ _ _ panicOnMake _ => panicOnMake

/-- What the link carries out while it is made. -/
def opsOnMake : Action → List BusOp
  | mk _ _ _ _ _ opsOnMake => opsOnMake

end Action

/-- The name of an operation. -/
def BusOp.name : BusOp → String
  | ensureLifecycle => "lifecycle"
  | add _ => "add"
  | ensure _ => "ensure"
  | spec _ => "get"
  | has _ => "has"
  | deleteEvent _ => "delete_event"
  | deleteTopic _ => "delete_topic"
  | specs => "list_events"
  | names => "list_topics"
  | render => "debug"
  | onEvent .. => "on_event"
  | onTopic .. => "on_topic"
  | listenEvent .. => "listen"
  | listenTopic .. => "listen_topic"
  | subscribe _ => "subscribe"
  | subscribeLog _ => "log_writer"
  | dispatch .. => "dispatch"

/-- The clauses that a bus may hold. -/
inductive Clause where
  | script (action : Action)
  | log (clause : LogClause)
  /-- Notes every event it is called with under its own number. -/
  | recorder (number : Nat)

/-- A scripted listener made for one dispatch, and how often it has run. -/
structure Made where
  action : Action
  init : Option Init
  handled : Nat

/-- A bus of scripted links. -/
abbrev ScriptBus := Bus Action Clause

/-- True of a topic if no listener attached to it panics while it is made. -/
def ScriptBus.IsCalm (b : ScriptBus) (topic : String) : Prop :=
  ∀ chain, b.chain? topic = some chain → ∀ l ∈ chain.listeners, l.panicOnMake = none

/-- A bus, what was noted, and the time. -/
structure Hub where
  bus : ScriptBus := {}
  journal : Journal := #[]
  now : Nat := 0

namespace Hub

/-- Makes a note. -/
def note (h : Hub) (n : Note) : Hub := { h with journal := h.journal.push ⟨h.now, n⟩ }

/-- Puts the bus in which an operation resulted in place. -/
def withBus (h : Hub) (b : ScriptBus) : Hub := { h with bus := b }

end Hub

namespace Script

/-- How deep operations of links may nest. -/
def depth : Nat := 3

/-- The note of a contained panic. -/
def panicLine (ev : Event) (p : Panic) : LogLine :=
  ⟨.warn, "jobvisor::events::bus", "event listener panicked",
    [("topic", ev.topic), ("info", p.info)]⟩

/-- The end of a link: its panic, or its answer. -/
def verdict (panic : Option Panic) (pass : Bool) : Outcome Bool :=
  match panic with
  | some p => .error p
  | none => .ok pass

/-- What links do on a hub, given what happens to an operation in them. -/
def conduct (run : BusOp → Hub → Hub) : Conduct Hub Action Made Clause where
  make a init h :=
    let h := a.opsOnMake.foldl (fun h op => run op h) (h.note (.made a.tag init))
    match a.panicOnMake with
    | some p => (.error p, h)
    | none => (.ok ⟨a, init, 0⟩, h)
  handle m ev h :=
    let h := h.note (.handled m.action.tag m.init (m.handled + 1) ev)
    (verdict m.action.panic m.action.pass, m.action.ops.foldl (fun h op => run op h) h)
  call c ev h :=
    match c with
    | .script a =>
      let h := h.note (.called a.tag ev)
      (verdict a.panic a.pass, a.ops.foldl (fun h op => run op h) h)
    | .log c =>
      match c.line? ev with
      | some l => (.ok true, h.note (.line l))
      | none => (.ok true, h)
    | .recorder number => (.ok true, h.note (.recorded number ev))
  report ev p h := h.note (.line (panicLine ev p))

/-- Carries out one operation on a hub whose links act by `k`. -/
def carryOut (k : Conduct Hub Action Made Clause) (op : BusOp) (h : Hub) : Reply × Hub :=
  let attached (r : Except BusError Unit × ScriptBus) : Reply × Hub :=
    (.ofResult r.1, h.withBus r.2)
  match op with
  | .ensureLifecycle => (.done, h.withBus h.bus.ensureLifecycle)
  | .add spec =>
    match h.bus.add spec with
    | (.ok spec, b) => (.spec (some spec), h.withBus b)
    | (.error e, b) => (.refused e, h.withBus b)
  | .ensure spec =>
    let (spec, b) := h.bus.ensure spec
    (.spec (some spec), h.withBus b)
  | .spec topic => (.spec (h.bus.spec? topic), h)
  | .has topic => (.flag (h.bus.hasTopic topic), h)
  | .deleteEvent topic | .deleteTopic topic =>
    let (found, b) := h.bus.delete topic
    (.flag found, h.withBus b)
  | .specs => (.specs h.bus.specs, h)
  | .names => (.names h.bus.names, h)
  | .render => (.text h.bus.render, h)
  | .onEvent topic a | .onTopic topic a => attached (h.bus.onTopic topic (.script a))
  | .listenEvent topic a | .listenTopic topic a => attached (h.bus.listen topic a)
  | .subscribe subs =>
    attached (h.bus.subscribe (subs.map fun s => (s.1, s.2.map .script)))
  | .subscribeLog withProgress =>
    let subs := ({ withProgress } : LogWriter).subscriptions
    attached (h.bus.subscribe (subs.map fun s => (s.1, s.2.map .log)))
  | .dispatch ev init =>
    let (d, h) := k.dispatch h.bus ev init h
    (.ofDelivery d, h)

/-- What happens to an operation inside a link, when operations may nest `n`
deeper: it is carried out and its answer noted, or noted as too deep. -/
def nested : Nat → BusOp → Hub → Hub
  | 0 => fun op h => h.note (.tooDeep op.name)
  | n + 1 => fun op h =>
    let (reply, h) := carryOut (conduct (nested n)) op h
    h.note (.did op.name reply)

/-- What links do on a hub. -/
def links : Conduct Hub Action Made Clause := conduct (nested depth)

end Script

namespace Hub

/-- Carries out one operation. -/
def perform (h : Hub) (op : BusOp) : Reply × Hub := Script.carryOut Script.links op h

/-- Dispatches an event without init data. -/
def dispatch (h : Hub) (ev : Event) : Delivery × Hub :=
  Script.links.dispatch h.bus ev none h

end Hub
end JobPool
