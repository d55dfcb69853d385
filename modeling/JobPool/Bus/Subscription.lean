/-
JobPool.Bus.Subscription — what a subscription leaves behind on a bus.

A subscription lists clauses for topics; a topic may be listed more than once, and with no
clauses at all. `Bus.listed` collects what is listed for one topic. `Bus.Subscribed` compares
the bus before a subscription with the bus after it: what is registered, how the chains
differ, and how a dispatch fares on the one and on the other.
-/
import JobPool.Bus.Passage

namespace JobPool
namespace Bus

variable {L C : Type}

/-- The clauses that a subscription lists for a topic, those of every mention, in order. -/
def listed (subs : List (String × List C)) (topic : String) : List C :=
  (subs.filter (·.1 == topic)).flatMap (·.2)

/-- The bus `b'` is `b` after a subscription. -/
structure Subscribed (b : Bus L C) (subs : List (String × List C)) (b' : Bus L C) : Prop where
  names : b'.names = b.names
  specs : b'.specs = b.specs
  /-- The clauses that are listed for a topic stand behind those it had. Nothing else of its
  chain is changed. -/
  chains : ∀ topic, b'.chain? topic =
    (b.chain? topic).map fun chain => { chain with clauses := chain.clauses ++ listed subs topic }
  /-- A dispatch begins as it did. If the links that the topic had let the event pass, it goes
  on to the listed clauses. -/
  served : ∀ {σ I : Type} (k : Conduct σ L I C) (ev : Event) (init : Option Init) (s : σ)
    (chain : Chain L C), b.chain? ev.topic = some chain → k.MakesAll init chain.listeners s →
    ∃ is outs more s₁ s₂,
      k.dispatch b ev init s = (.delivered, s₁) ∧ k.Serves ev init chain is outs s s₁ ∧
      k.dispatch b' ev init s = (.delivered, s₂) ∧
      k.Serves ev init (Chain.addClauses (listed subs ev.topic) chain) is (outs ++ more) s s₂
  /-- A dispatch that does not come as far as the links is the same. -/
  unserved : ∀ {σ I : Type} (k : Conduct σ L I C) (ev : Event) (init : Option Init) (s : σ),
    (∀ chain, b.chain? ev.topic = some chain → ¬ k.MakesAll init chain.listeners s) →
    k.dispatch b' ev init s = k.dispatch b ev init s

end Bus
end JobPool
