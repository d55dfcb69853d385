/-
JobPool.Bus.Logging — a bus with links that know nothing of the log.

Log clauses hang on the same chains as the links of others. `Conduct.Follows` compares what
links do in two states that look alike to those others: each link answers alike and leaves
states that look alike, and the clauses that are hidden from view do nothing that could be
noticed. `LoggedBus` is any state that holds a bus with log clauses among its links, and what
the others see there is `LoggedBus.view`: the bus without its log clauses, and the rest of the
state without the log. `Conduct.noting` writes down what the others are called with and what
they see then. What a line of the log tells of its event is `LogLine.Tells`.
-/
import JobPool.Bus.Passage
import JobPool.Bus.Script

namespace JobPool

variable {σ σ' τ ρ L I C : Type}

/-! ## §1 Dispatches -/

/-- Dispatches events one after another, each on the bus that the state holds by then. -/
def Conduct.dispatchAll (k : Conduct σ L I C) (bus : σ → Bus L C) :
    List (Event × Option Init) → σ → List Delivery × σ
  | [], s => ([], s)
  | (ev, init) :: events, s =>
    let (d, s) := k.dispatch (bus s) ev init s
    let (ds, s) := k.dispatchAll bus events s
    (d :: ds, s)

/-- Carries out operations one after another. -/
def Hub.performAll (h : Hub) : List BusOp → List Reply × Hub
  | [] => ([], h)
  | op :: ops =>
    let (r, h) := h.perform op
    let (rs, h) := h.performAll ops
    (r :: rs, h)

/-! ## §2 Links that do not look at everything -/

/-- The chain without the hidden clauses. -/
def Chain.without (hidden : C → Bool) (chain : Chain L C) : Chain L C :=
  { chain with clauses := chain.clauses.filter fun c => !hidden c }

/-- The bus without the hidden clauses. -/
def Bus.without (hidden : C → Bool) (b : Bus L C) : Bus L C :=
  ⟨b.topics.map (Chain.without hidden)⟩

/-- True of a link unless it is a hidden clause. -/
def Link.isShown (hidden : C → Bool) : Link I C → Bool
  | .made _ => true
  | .clause c => !hidden c

/-- The same outcome, and states that look alike. -/
def Alike {α : Type} (view : σ → τ) (view' : σ' → τ) (x : α × σ) (y : α × σ') : Prop :=
  x.1 = y.1 ∧ view x.2 = view' y.2

namespace Conduct

/-- In states that look alike, links that are not hidden do the same. -/
structure Matches (k : Conduct σ L I C) (k' : Conduct σ' L I C) (hidden : C → Bool)
    (view : σ → τ) (view' : σ' → τ) : Prop where
  make : ∀ {s s'}, view s = view' s' → ∀ l init,
    Alike view view' (k.make l init s) (k'.make l init s')
  handle : ∀ {s s'}, view s = view' s' → ∀ i ev,
    Alike view view' (k.handle i ev s) (k'.handle i ev s')
  call : ∀ {s s'}, view s = view' s' → ∀ c ev, hidden c = false →
    Alike view view' (k.call c ev s) (k'.call c ev s')
  report : ∀ {s s'}, view s = view' s' → ∀ ev p, view (k.report ev p s) = view' (k'.report ev p s')

/-- Hidden clauses moreover let the delivery go on and change nothing that is seen. -/
structure Follows (k : Conduct σ L I C) (k' : Conduct σ' L I C) (hidden : C → Bool)
    (view : σ → τ) (view' : σ' → τ) : Prop extends Matches k k' hidden view view' where
  quiet : ∀ c, hidden c = true → ∀ ev s,
    (k.call c ev s).1 = .ok true ∧ view (k.call c ev s).2 = view s

end Conduct

/-- A call to a link, what came of it, and what was to be seen before it. -/
structure Glimpse (τ L I C : Type) where
  call : LinkCall L I C
  /-- The event that was handled, if the link did not have to be made yet. -/
  event : Option Event
  seen : τ

/-- The same links; each call to one that is not hidden is written down. -/
def Conduct.noting (k : Conduct σ L I C) (hidden : C → Bool) (view : σ → τ) :
    Conduct (σ × List (Glimpse τ L I C)) L I C where
  make l init := fun (s, seen) =>
    let (made, s₁) := k.make l init s
    (made, s₁, seen ++ [⟨.make l init made, none, view s⟩])
  handle i ev := fun (s, seen) =>
    let (out, s₁) := k.handle i ev s
    (out, s₁, seen ++ [⟨.run (.made i) out, some ev, view s⟩])
  call c ev := fun (s, seen) =>
    let (out, s₁) := k.call c ev s
    (out, s₁, if hidden c then seen else seen ++ [⟨.run (.clause c) out, some ev, view s⟩])
  report ev p := fun (s, seen) => (k.report ev p s, seen)

/-! ## §3 A log -/

/-- What a log clause does with an event, where lines are written by `write`: it writes its
line, if it has one for the event, and lets the delivery go on. -/
def LogClause.call (write : LogLine → σ → σ) (c : LogClause) (ev : Event) (s : σ) :
    Outcome Bool × σ :=
  (.ok true, (c.line? ev).elim s fun l => write l s)

/-- A state that holds a bus and a log. Some clauses of the bus are log clauses; the other links
may do anything, with the bus too, but they do not look at the log, and do not see which log
clauses there are. -/
structure LoggedBus (σ ρ L I C : Type) where
  conduct : Conduct σ L I C
  bus : σ → Bus L C
  /-- What there is in a state besides the bus and the log. -/
  rest : σ → ρ
  /-- Writes a line to the log. -/
  write : LogLine → σ → σ
  clause : LogClause → C
  /-- The log clause that a clause is, if it is one. -/
  log? : C → Option LogClause
  log?_clause : ∀ c, log? (clause c) = some c
  call_log : ∀ q c, log? q = some c → ∀ ev s, conduct.call q ev s = c.call write ev s
  bus_write : ∀ l s, bus (write l s) = bus s
  rest_write : ∀ l s, l.source = LogClause.source → rest (write l s) = rest s
  others : conduct.Matches conduct (fun q => (log? q).isSome)
    (fun s => ((bus s).without fun q => (log? q).isSome, rest s))
    (fun s => ((bus s).without fun q => (log? q).isSome, rest s))

namespace LoggedBus

variable (g : LoggedBus σ ρ L I C)

/-- True of a log clause. -/
def isLog (q : C) : Bool := (g.log? q).isSome

/-- What links that are no log clauses see of a state. -/
def view (s : σ) : Bus L C × ρ := ((g.bus s).without g.isLog, g.rest s)

/-- The subscription of a log writer. -/
def subscriptions (w : LogWriter) : List (String × List C) :=
  w.subscriptions.map fun sub => (sub.1, sub.2.map g.clause)

/-- What the links that are no log clauses are called with and see while events are
dispatched, and what comes of the dispatches. -/
def watch (events : List (Event × Option Init)) (s : σ) :
    List Delivery × σ × List (Glimpse (Bus L C × ρ) L I C) :=
  (g.conduct.noting g.isLog g.view).dispatchAll (fun s => g.bus s.1) events (s, [])

end LoggedBus

/-- The log clause that a clause is, if it is one. -/
def Clause.log? : Clause → Option LogClause
  | .log c => some c
  | _ => none

/-- True of a line that a log clause has written. -/
def Entry.isLogLine (e : Entry) : Bool :=
  match e.note with
  | .line l => l.source == LogClause.source
  | _ => false

/-- What scripted links see of a hub: the bus without its log clauses, what was noted but for
the lines of the log, and the time. -/
def Hub.unlogged (h : Hub) : ScriptBus × List Entry × Nat :=
  (h.bus.without fun q => q.log?.isSome, h.journal.toList.filter fun e => !e.isLogLine, h.now)

/-! ## §4 What a line tells -/

/-- The log clause that is for events of this kind. -/
def LogClause.for? : Event → Option LogClause
  | .before _ => some started
  | .after _ => some done
  | .retry .. => some retrying
  | .failed .. => some failed
  | .progress _ => some progress
  | .user .. => none

namespace Event

/-- The attempt that failed, if another follows. -/
def attempt? : Event → Option Nat
  | retry _ attempt _ => some attempt
  | _ => none

/-- The error of an attempt or a job that failed. -/
def error? : Event → Option JobError
  | failed _ error | retry _ _ error => some error
  | _ => none

/-- The name of the error with which a job failed for good. -/
def label? : Event → Option String
  | failed _ error => some error.label
  | _ => none

/-- The counts that are published. -/
def counts? : Event → Option Progress
  | progress p => some p
  | _ => none

end Event

/-- The names of the counts in a line. -/
def Progress.counters : List (String × (Progress → Nat)) :=
  [("total", total), ("pending", pending), ("executing", executing), ("completed", completed),
    ("success", success), ("failed", failed)]

/-- A line has the values of its event, each under its name, and no others. -/
structure LogLine.Tells (l : LogLine) (ev : Event) : Prop where
  source : l.source = LogClause.source
  job : l.fields.lookup "job" = ev.job?.map (·.name)
  attempt : l.fields.lookup "attempt" = ev.attempt?.map toString
  error : l.fields.lookup "error" = ev.error?.map (·.message)
  label : l.fields.lookup "label" = ev.label?
  counts : ∀ counter ∈ Progress.counters,
    l.fields.lookup counter.1 = ev.counts?.map fun p => toString (counter.2 p)
  names : ∀ name ∈ l.fields.map (·.1),
    name ∈ ["job", "attempt", "error", "label"] ++ Progress.counters.map (·.1)

/-! ## §5 A log writer -/

/-- True of the clauses that a log writer has. -/
def LogWriter.Has (w : LogWriter) (c : LogClause) : Prop := c = .progress → w.withProgress = true

namespace LoggedBus

variable (g : LoggedBus σ ρ L I C)

/-- On the bus `b` the log writer was subscribed in state `s`, and nobody takes notice. -/
structure Unnoticed (w : LogWriter) (s : σ) (b : Bus L C) : Prop where
  /-- The writer has one clause on each of its topics, behind those that were there. -/
  attached : ∀ c, w.Has c → ∀ chain, (g.bus s).chain? c.topic = some chain →
    b.chain? c.topic = some (Bus.Chain.addClauses [g.clause c] chain)
  elsewhere : ∀ topic, (∀ c, w.Has c → c.topic ≠ topic) → b.chain? topic = (g.bus s).chain? topic
  /-- Dispatches end as without the writer, and leave what they leave without it. -/
  dispatches : ∀ s', g.bus s' = b → g.rest s' = g.rest s → ∀ events,
    Alike g.view g.view (g.conduct.dispatchAll g.bus events s')
      (g.conduct.dispatchAll g.bus events s)
  /-- The other links are called as without the writer, and see what they see without it. -/
  others : ∀ s', g.bus s' = b → g.rest s' = g.rest s → ∀ events,
    (g.watch events s').2.2 = (g.watch events s).2.2

/-- In the line of links that a dispatch runs, the log clause `q` stands behind `before`: it is
called just if these let the event pass. Then it writes its line for the event, if it has one,
and nothing else, and the delivery goes on to the links `after` it. -/
structure Reports (ev : Event) (init : Option Init) (chain : Chain L C) (is : List I)
    (outs : List (Outcome Bool)) (s t : σ) (before : List (Link I C)) (c : LogClause)
    (after : List (Link I C)) : Prop where
  reached : before.length < outs.length ↔ ∀ out ∈ outs.take before.length, passes out = true
  writes : before.length < outs.length → ∃ s₁,
    outs[before.length]? = some (.ok true) ∧
    g.conduct.Passage ev s
      (Conduct.makings init chain.listeners is ++ List.zipWith .run before outs) s₁ ∧
    g.conduct.Passage ev ((c.line? ev).elim s₁ fun l => g.write l s₁)
      (List.zipWith .run after (outs.drop (before.length + 1))) t

/-- Whatever clauses there are, every log clause that a dispatch reaches reports the event. -/
def Exact : Prop :=
  ∀ ev init s t, g.conduct.dispatch (g.bus s) ev init s = (.delivered, t) →
    ∃ chain is outs, (g.bus s).chain? ev.topic = some chain ∧
      g.conduct.Serves ev init chain is outs s t ∧
      ∀ before q after c, chain.line is = before ++ .clause q :: after → g.log? q = some c →
        g.Reports ev init chain is outs s t before c after

end LoggedBus

end JobPool
