/-
JobPool.Queue.Fifo — the plain bounded list that a queue is taken for.

A `Fifo` knows its items in the order they came, and nothing of slots, heads or
waiting parties. `Fifo.pass` is what one pass through the critical section
answers and does; `Fifo.serve` carries out a request with nobody else at the
queue. `Ring.toFifo` reads a ring as such a list.
-/
import JobPool.Queue.HandOff

namespace JobPool

open HandOff (Request Answer Party Act)

/-- Items in the order they came, and how many there may be. -/
structure Fifo (α : Type) where
  capacity : Nat
  items : List α

namespace Fifo

variable {α : Type}

/-- No items, and room for `capacity` of them; zero counts as one. -/
def empty (capacity : Nat) : Fifo α := ⟨max capacity 1, []⟩

/-- True when no further item fits. -/
def isFull (f : Fifo α) : Bool := f.items.length == f.capacity

/-- One pass through the critical section, for a party whose wait has `expired`
or not: the answer it leaves with, none if it has to wait. A party that has yet
to wait, until an instant that the clock cannot tell, panics and leaves the list
as it is: a producer if there is no room, a consumer in any case. -/
def pass (f : Fifo α) (expired : Bool) : Request α → Option (Answer α) × Fifo α
  | .enqueue a p =>
    if f.isFull then
      (if expired || p == .never then some (.refused a)
        else if p.overflows then some .panicked else none, f)
    else (some .accepted, { f with items := f.items ++ [a] })
  | .dequeue p =>
    if !expired && p.overflows then (some .panicked, f)
    else
      match f.items with
      | a :: rest => (some (.received a), { f with items := rest })
      | [] => (if expired || p == .never then some .nothing else none, f)
  | .clear => (some (.dropped f.items.length), { f with items := [] })

/-- Carries out one request with nobody else at the queue: no room and no item
appears meanwhile, so a limited wait runs out and one without end has no answer. -/
def serve (f : Fifo α) (request : Request α) : Option (Answer α) × Fifo α :=
  f.pass request.isLimited request

/-- Carries out requests one after another, with the answers in order. -/
def serveAll (f : Fifo α) : List (Request α) → List (Option (Answer α)) × Fifo α
  | [] => ([], f)
  | q :: qs =>
    let (a, f) := f.serve q
    let (as, f) := f.serveAll qs
    (a :: as, f)

end Fifo

namespace Ring

variable {α : Type}

/-- The ring as a plain bounded list. -/
def toFifo (r : Ring α) : Fifo α := ⟨r.capacity, r.toList⟩

/-- Carries out requests one after another, with the answers in order. -/
def serveAll (r : Ring α) : List (Request α) → List (Option (Answer α)) × Ring α
  | [] => ([], r)
  | q :: qs =>
    let (a, r) := r.serve q
    let (as, r) := r.serveAll qs
    (a :: as, r)

end Ring

namespace HandOff

variable {α : Type}

/-- The answer that a party has or leaves with, none before that. -/
def Party.outcome : Party α → Option (Answer α)
  | .signalling _ a | .finished a => some a
  | .arriving _ | .waiting .. => none

/-- Acts one after another; none if one of them is not possible. -/
def run (h : HandOff α) (acts : List (Act α)) : Option (HandOff α) := acts.foldlM step h

end HandOff
end JobPool
