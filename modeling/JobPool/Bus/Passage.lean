/-
JobPool.Bus.Passage — the calls to links of which a dispatch consists.

A dispatch calls on links only: it has listeners made, and it has made listeners and
clauses handle the event. Between two calls nothing happens, save that a contained panic
is reported. `Conduct.Passage` is that way of a state through calls, and
`Conduct.Serves` says which calls a chain asks for. Neither knows of the registers: the
state may hold the bus, a call may change it in any way and dispatch as well, and the calls
that are still to come stay the same.
-/
import JobPool.Bus.Dispatch

namespace JobPool

/-- True if the delivery goes on after a link with this outcome. A panic does not stop it. -/
def passes : Outcome Bool → Bool
  | .ok pass => pass
  | .error _ => true

/-- A link that handles events: a listener made for one dispatch, or a clause. -/
inductive Link (I C : Type) where
  | made (instance_ : I)
  | clause (c : C)
  deriving DecidableEq, Repr

/-- A call of a dispatch, and what came of it. -/
inductive LinkCall (L I C : Type) where
  /-- A registered listener is asked for an instance. -/
  | make (l : L) (init : Option Init) (made : Outcome I)
  /-- A link handles the event. -/
  | run (link : Link I C) (outcome : Outcome Bool)

/-- The links of a chain for which these instances were made, in the order in which they
handle an event. -/
def Chain.line {L I C : Type} (chain : Chain L C) (is : List I) : List (Link I C) :=
  is.map .made ++ chain.clauses.map .clause

/-- The links that ran are those up to the first that answers `false`, or all. -/
structure RunUntilFalse {α : Type} (links : List α) (outs : List (Outcome Bool)) : Prop where
  /-- The outcomes are those of the first links, one each. -/
  length_le : outs.length ≤ links.length
  passed : ∀ out ∈ outs.dropLast, passes out = true
  stopped : outs.length < links.length → ∃ out, outs.getLast? = some out ∧ passes out = false

namespace Conduct

variable {σ L I C : Type} (k : Conduct σ L I C)

/-- A link handles an event. -/
def run (ev : Event) : Link I C → σ → Outcome Bool × σ
  | .made i => k.handle i ev
  | .clause c => k.call c ev

/-- From one state to another by exactly these calls, in this order. -/
inductive Passage (ev : Event) : σ → List (LinkCall L I C) → σ → Prop where
  | done {s : σ} : Passage ev s [] s
  | make {s s₁ s' : σ} {l : L} {init : Option Init} {made : Outcome I}
      {calls : List (LinkCall L I C)} (h : k.make l init s = (made, s₁))
      (rest : Passage ev s₁ calls s') : Passage ev s (.make l init made :: calls) s'
  | answer {s s₁ s' : σ} {link : Link I C} {pass : Bool} {calls : List (LinkCall L I C)}
      (h : k.run ev link s = (.ok pass, s₁)) (rest : Passage ev s₁ calls s') :
      Passage ev s (.run link (.ok pass) :: calls) s'
  | panic {s s₁ s' : σ} {link : Link I C} {p : Panic} {calls : List (LinkCall L I C)}
      (h : k.run ev link s = (.error p, s₁)) (rest : Passage ev (k.report ev p s₁) calls s') :
      Passage ev s (.run link (.error p) :: calls) s'

/-- The calls that have instances made of listeners, one each. -/
def makings (init : Option Init) (ls : List L) (is : List I) : List (LinkCall L I C) :=
  List.zipWith (fun l i => .make l init (.ok i)) ls is

/-- A chain is served: an instance is made of each listener, in order, and then the line of
instances and clauses runs up to the first `false`. -/
structure Serves (ev : Event) (init : Option Init) (chain : Chain L C) (is : List I)
    (outs : List (Outcome Bool)) (s s' : σ) : Prop where
  /-- Each listener is made once. -/
  made : is.length = chain.listeners.length
  ran : RunUntilFalse (chain.line is) outs
  passage : k.Passage ev s
    (makings init chain.listeners is ++ List.zipWith .run (chain.line is) outs) s'

/-- A chain is not served: making a listener ends with panic `p`. The listeners before it
were made; those behind it are not, and no link runs. -/
def Breaks (ev : Event) (init : Option Init) (chain : Chain L C) (p : Panic) (s s' : σ) : Prop :=
  ∃ before l after is, chain.listeners = before ++ l :: after ∧ is.length = before.length ∧
    k.Passage ev s (makings init before is ++ [.make l init (.error p)]) s'

/-- Each of the listeners can be made, one after another, without a panic. -/
def MakesAll (init : Option Init) : List L → σ → Prop
  | [], _ => True
  | l :: ls, s => ∃ i s₁, k.make l init s = (.ok i, s₁) ∧ MakesAll init ls s₁

end Conduct
end JobPool
