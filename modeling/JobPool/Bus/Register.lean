/-
JobPool.Bus.Register — the topics of a bus as a plain finite map.

A `Register` is a function from topics to chains and knows nothing of how a bus keeps
them. `Register.answer` says what each call that is no dispatch answers and does, topic by
topic; a bus is read as a register by `Bus.chain?`. `Bus.Lawful` is what those who share a
bus rely on: a call leaves topics alone that it does not name, a refused call changes
nothing, and the ways of looking a topic up agree.
-/
import JobPool.Journal

namespace JobPool

/-- What can be asked of a bus, dispatches and looking up apart. -/
inductive BusCall (L C : Type) where
  | add (spec : TopicSpec)
  | ensure (spec : TopicSpec)
  | ensureLifecycle
  | deleteEvent (spec : TopicSpec)
  | deleteTopic (topic : String)
  | onEvent (spec : TopicSpec) (clause : C)
  | onTopic (topic : String) (clause : C)
  | listenEvent (spec : TopicSpec) (listener : L)
  | listenTopic (topic : String) (listener : L)
  | subscribe (subs : List (String × List C))

namespace BusCall

variable {L C : Type}

/-- The topics that a call attaches links to, in order. -/
def attachesTo : BusCall L C → List String
  | onEvent spec _ | listenEvent spec _ => [spec.topic]
  | onTopic topic _ | listenTopic topic _ => [topic]
  | subscribe subs => subs.map (·.1)
  | _ => []

/-- The specs whose topics a call makes sure of. -/
def ensures : BusCall L C → List TopicSpec
  | ensure spec => [spec]
  | ensureLifecycle => Topic.lifecycle
  | _ => []

/-- The topic that a call deletes, if it deletes one. -/
def deletes : BusCall L C → Option String
  | deleteEvent spec => some spec.topic
  | deleteTopic topic => some topic
  | _ => none

/-- The topics that a call names. -/
def topics (call : BusCall L C) : List String :=
  match call with
  | add spec => [spec.topic]
  | _ => call.attachesTo ++ call.ensures.map (·.topic) ++ call.deletes.toList

end BusCall

namespace Bus

variable {L C : Type}

/-- Carries out one call. An event stands for its topic. -/
def answer (b : Bus L C) : BusCall L C → Reply × Bus L C
  | .add spec =>
    match b.add spec with
    | (.ok spec, b) => (.spec (some spec), b)
    | (.error e, b) => (.refused e, b)
  | .ensure spec =>
    let (spec, b) := b.ensure spec
    (.spec (some spec), b)
  | .ensureLifecycle => (.done, b.ensureLifecycle)
  | .deleteEvent ⟨topic, _⟩ | .deleteTopic topic =>
    let (found, b) := b.delete topic
    (.flag found, b)
  | .onEvent ⟨topic, _⟩ c | .onTopic topic c =>
    let (r, b) := b.onTopic topic c
    (.ofResult r, b)
  | .listenEvent ⟨topic, _⟩ l | .listenTopic topic l =>
    let (r, b) := b.listen topic l
    (.ofResult r, b)
  | .subscribe subs =>
    let (r, b) := b.subscribe subs
    (.ofResult r, b)

/-- Carries out calls one after another, with the answers in order. -/
def answerAll (b : Bus L C) : List (BusCall L C) → List Reply × Bus L C
  | [] => ([], b)
  | call :: calls =>
    let (r, b) := b.answer call
    let (rs, b) := b.answerAll calls
    (r :: rs, b)

end Bus

/-- The chains of topics; none for a topic that is not registered. -/
abbrev Register (L C : Type) := String → Option (Chain L C)

namespace Register

variable {L C : Type}

/-- No topics. -/
def empty : Register L C := fun _ => none

/-- Gives a topic a chain, or takes it out. -/
def set (r : Register L C) (topic : String) (c : Option (Chain L C)) : Register L C :=
  fun t => if t = topic then c else r t

/-- Gives every topic of some specs that is not there a chain without links. -/
def ensure (r : Register L C) (specs : List TopicSpec) : Register L C :=
  fun t => (r t).or ((specs.find? (·.topic == t)).map fun spec => { spec })

/-- Attaches something to each of some topics. If one is not there, nothing is attached,
and the first such topic is named. -/
def attach (r : Register L C) (topics : List String) (f : String → Chain L C → Chain L C) :
    Reply × Register L C :=
  match topics.find? fun topic => (r topic).isNone with
  | some topic => (.refused (.topicNotFound topic), r)
  | none => (.done, fun t => if t ∈ topics then (r t).map (f t) else r t)

/-- Carries out one call, topic by topic. -/
def answer (r : Register L C) : BusCall L C → Reply × Register L C
  | .add spec =>
    if (r spec.topic).isSome then (.refused (.topicExists spec.topic), r)
    else (.spec (some spec), r.set spec.topic (some { spec }))
  | .ensure spec =>
    (.spec (some ((r spec.topic).elim spec (·.spec))), r.ensure [spec])
  | .ensureLifecycle => (.done, r.ensure Topic.lifecycle)
  | .deleteEvent ⟨topic, _⟩ | .deleteTopic topic =>
    (.flag (r topic).isSome, r.set topic none)
  | .onEvent ⟨topic, _⟩ c | .onTopic topic c =>
    r.attach [topic] fun _ chain => { chain with clauses := chain.clauses ++ [c] }
  | .listenEvent ⟨topic, _⟩ l | .listenTopic topic l =>
    r.attach [topic] fun _ chain => { chain with listeners := chain.listeners ++ [l] }
  | .subscribe subs =>
    r.attach (subs.map (·.1)) fun t chain =>
      { chain with clauses := chain.clauses ++ (subs.filter (·.1 == t)).flatMap (·.2) }

/-- Carries out calls one after another, with the answers in order. -/
def answerAll (r : Register L C) : List (BusCall L C) → List Reply × Register L C
  | [] => ([], r)
  | call :: calls =>
    let (a, r) := r.answer call
    let (as, r) := r.answerAll calls
    (a :: as, r)

end Register

/-- What holds of the topics of a bus, and of each further call. -/
structure Bus.Lawful {L C : Type} (b : Bus L C) : Prop where
  /-- A call leaves topics alone that it does not name. -/
  frame : ∀ (call : BusCall L C) topic, topic ∉ call.topics →
    (b.answer call).2.chain? topic = b.chain? topic
  /-- A call that is refused changes nothing. -/
  refused : ∀ (call : BusCall L C) e, (b.answer call).1 = .refused e → (b.answer call).2 = b
  /-- A topic that is there is not added. -/
  addAgain : ∀ spec, b.hasTopic spec.topic = true →
    b.answer (.add spec) = (.refused (.topicExists spec.topic), b)
  /-- A topic that is not there, also one that was deleted, begins without links. -/
  addNew : ∀ spec, b.hasTopic spec.topic = false →
    (b.answer (.add spec)).1 = .spec (some spec) ∧
      (b.answer (.add spec)).2.chain? spec.topic = some { spec }
  /-- Making sure of topics leaves those alone that are there. -/
  ensured : ∀ (call : BusCall L C) topic chain, call.ensures ≠ [] →
    b.chain? topic = some chain → (b.answer call).2.chain? topic = some chain
  /-- Making sure again changes nothing, and is answered alike. -/
  ensuredAgain : ∀ call : BusCall L C, call.ensures ≠ [] →
    (b.answer call).2.answer call = b.answer call
  /-- Links are not attached to topics that are not there; the first such topic is named. -/
  attachAbsent : ∀ (call : BusCall L C) topic,
    call.attachesTo.find? (fun t => !b.hasTopic t) = some topic →
      b.answer call = (.refused (.topicNotFound topic), b)
  /-- The answer to a deletion is whether the topic was there; it is not there after it. -/
  deleted : ∀ (call : BusCall L C) topic, call.deletes = some topic →
    (b.answer call).1 = .flag (b.hasTopic topic) ∧ (b.answer call).2.chain? topic = none
  has_iff : ∀ topic, b.hasTopic topic = true ↔ ∃ spec, b.spec? topic = some spec
  mem_names_iff : ∀ topic, topic ∈ b.names ↔ b.hasTopic topic = true
  mem_specs_iff : ∀ spec, spec ∈ b.specs ↔ b.spec? spec.topic = some spec
  names_eq : b.names = b.specs.map (·.topic)
  rising_names : b.names.Pairwise (· < ·)
  rising_specs : b.specs.Pairwise fun x y => x.topic < y.topic

end JobPool
