/-
JobPool.Bus.Basic — the register of topics and the links attached to them.

Each registered topic has a spec and a chain of links: listeners, which are
made afresh for every dispatch, and clauses, which are plain. The kinds of
links are parameters; what links do is the matter of `JobPool.Bus.Dispatch`.

Adding a topic that is there fails; making sure of one never changes it.
Attaching to a topic that is not there fails. A subscription attaches clauses
to several topics, all or none.
-/
import JobPool.Bus.Event
import JobPool.NameMap

namespace JobPool

/-- Why an operation on a bus was refused. -/
inductive BusError where
  /-- The topic to add is there already. -/
  | topicExists (topic : String)
  /-- The topic to attach to is not there. -/
  | topicNotFound (topic : String)
  /-- The topic of the event to dispatch is not there. -/
  | eventNotFound (topic : String)
  deriving DecidableEq, Repr

namespace BusError

/-- A short stable name of the cause. -/
def label : BusError → String
  | topicExists _ => "bus_topic_exists"
  | topicNotFound _ => "bus_topic_not_found"
  | eventNotFound _ => "bus_event_not_found"

/-- The cause in words. -/
def message : BusError → String
  | topicExists topic => "topic \"" ++ topic ++ "\" exists"
  | topicNotFound topic => "topic \"" ++ topic ++ "\" not found"
  | eventNotFound topic => "event \"" ++ topic ++ "\" not found"

/-- The cause as a record. -/
def render : BusError → String
  | topicExists topic => Text.record "TopicExists" [("topic", Text.Quoted.encode topic)]
  | topicNotFound topic => Text.record "TopicNotFound" [("topic", Text.Quoted.encode topic)]
  | eventNotFound topic => Text.record "EventNotFound" [("topic", Text.Quoted.encode topic)]

end BusError

/-- A registered topic with its chain. -/
structure Chain (L C : Type) where
  spec : TopicSpec
  listeners : List L := []
  clauses : List C := []

/-- Registered topics with their chains. -/
structure Bus (L C : Type) where
  topics : NameMap (Chain L C) := .empty

namespace Bus

variable {L C : Type}

instance : Inhabited (Bus L C) := ⟨{}⟩

/-- A bus without topics. -/
def empty : Bus L C := {}

/-- The chain of a topic. -/
def chain? (b : Bus L C) (topic : String) : Option (Chain L C) := b.topics.get? topic

/-- True if the topic is registered. -/
def hasTopic (b : Bus L C) (topic : String) : Bool := b.topics.contains topic

/-- The spec a topic was registered with. -/
def spec? (b : Bus L C) (topic : String) : Option TopicSpec := (b.chain? topic).map (·.spec)

/-- Registers a topic; refused if it is there. -/
def add (b : Bus L C) (spec : TopicSpec) : Except BusError TopicSpec × Bus L C :=
  if b.hasTopic spec.topic then (.error (.topicExists spec.topic), b)
  else (.ok spec, ⟨b.topics.insert spec.topic { spec }⟩)

/-- Registers a topic unless it is there, and gives the spec it has then. -/
def ensure (b : Bus L C) (spec : TopicSpec) : TopicSpec × Bus L C :=
  match b.chain? spec.topic with
  | some chain => (chain.spec, b)
  | none => (spec, ⟨b.topics.insert spec.topic { spec }⟩)

/-- Makes sure of every lifecycle topic. -/
def ensureLifecycle (b : Bus L C) : Bus L C :=
  Topic.lifecycle.foldl (fun b spec => (b.ensure spec).2) b

/-- Removes a topic with its links; false if it was not there. -/
def delete (b : Bus L C) (topic : String) : Bool × Bus L C :=
  (b.hasTopic topic, ⟨b.topics.erase topic⟩)

/-- The specs of all topics, in the order of their names. -/
def specs (b : Bus L C) : List TopicSpec := b.topics.values.map (·.spec)

/-- The names of all topics, rising. -/
def names (b : Bus L C) : List String := b.topics.names

/-- Changes the chain of a topic; refused if the topic is not there. -/
def attach (b : Bus L C) (topic : String) (f : Chain L C → Chain L C) :
    Except BusError Unit × Bus L C :=
  if b.hasTopic topic then (.ok (), ⟨b.topics.modify topic f⟩)
  else (.error (.topicNotFound topic), b)

/-- Puts clauses at the end of a chain. -/
def Chain.addClauses (cs : List C) (c : Chain L C) : Chain L C :=
  { c with clauses := c.clauses ++ cs }

/-- Puts a listener at the end of the listeners of a chain. -/
def Chain.addListener (l : L) (c : Chain L C) : Chain L C :=
  { c with listeners := c.listeners ++ [l] }

/-- Attaches a clause to a topic. -/
def onTopic (b : Bus L C) (topic : String) (c : C) : Except BusError Unit × Bus L C :=
  b.attach topic (Chain.addClauses [c])

/-- Attaches a listener to a topic. -/
def listen (b : Bus L C) (topic : String) (l : L) : Except BusError Unit × Bus L C :=
  b.attach topic (Chain.addListener l)

/-- Attaches clauses to topics, in order. If a topic is not there, nothing is
attached, and the first such topic is named. -/
def subscribe (b : Bus L C) (subs : List (String × List C)) : Except BusError Unit × Bus L C :=
  match subs.find? fun s => !b.hasTopic s.1 with
  | some s => (.error (.topicNotFound s.1), b)
  | none => (.ok (), subs.foldl (fun b s => (b.attach s.1 (Chain.addClauses s.2)).2) b)

/-- The bus as a record. -/
def render (b : Bus L C) : String :=
  Text.record "EventBus" [("topics", Text.bracketed (b.names.map Text.Quoted.encode))]

end Bus
end JobPool
