/-
JobPool.Queue.Turns — everything that can come next at a queue, and what went through it.

`HandOff.step` lets a wait run out and the party pass the critical section for the last time
in one act. Others may pass between the two, so a `Turn` is an act or the end of a wait by
itself; turns may come in any order.

A queue forgets what went through it. `Books` keeps it, read off the contents before and
after a pass and not off the answers: `Answer.Settles` compares the two. `HandOff.Sound` is
what one may rely on after any turns: nothing is lost, and nobody waits for what is there
unless somebody has been told of it or will be.
-/
import JobPool.Queue.Fifo

namespace JobPool
namespace HandOff

variable {α : Type}

/-! ## Turns -/

/-- What may come next at the queue. -/
inductive Turn (α : Type) where
  | act (a : Act α)
  /-- The wait of party `i` runs out before it was signalled; it has still to pass the
  critical section. -/
  | lapse (i : Nat)
  deriving Repr

/-- The request of a party that waits no longer. -/
def Request.hurry : Request α → Request α
  | .enqueue a _ => .enqueue a .never
  | .dequeue _ => .dequeue .never
  | .clear => .clear

/-- True of a request that is prepared to wait, and can. -/
def Request.mayWait : Request α → Bool
  | .enqueue _ p | .dequeue p => p != .never && !p.overflows
  | .clear => false

/-- The wait of a party runs out; `none` if it does not wait, or for as long as it takes. -/
def lapse (h : HandOff α) (i : Nat) : Option (HandOff α) :=
  match h.parties[i]? with
  | some (.waiting q false) =>
    if q.isLimited then some { h with parties := h.parties.set i (.arriving q.hurry) } else none
  | _ => none

/-- One turn; `none` if it is not possible. -/
def turn (h : HandOff α) : Turn α → Option (HandOff α)
  | .act a => h.step a
  | .lapse i => h.lapse i

/-- True of a turn that brings a party. -/
def Turn.isArrival : Turn α → Bool
  | .act (.arrive _) => true
  | _ => false

/-- True of a turn that a party takes by itself: a pass through the critical section, and a
signal. -/
def Turn.isOwn : Turn α → Bool
  | .act (.enter _) | .act (.signal ..) => true
  | _ => false

/-- True unless the turn brings a producer or has the wait of party `i` run out. -/
def Turn.leavesTo (i : Nat) : Turn α → Bool
  | .act (.arrive (.enqueue ..)) => false
  | .act (.expire j) | .lapse j => j != i
  | _ => true

/-! ## Books -/

end HandOff

/-- What the parties came for, by number, and what went into the queue and out of it, oldest
first, with the party that brought it about. -/
structure Books (α : Type) where
  asked : List (HandOff.Request α) := []
  entered : List (Nat × α) := []
  left : List (Nat × α) := []

namespace Books

variable {α : Type}

/-- Party `i` changed what the queue holds: what stands behind the earlier items has entered,
and as many as are missing have left from the front. -/
def change (b : Books α) (i : Nat) (before after : List α) : Books α :=
  { b with
    entered := b.entered ++ (after.drop before.length).map fun a => (i, a)
    left := b.left ++ (before.take (before.length - after.length)).map fun a => (i, a) }

/-- The items that party `i` put in. -/
def enteredBy (b : Books α) (i : Nat) : List α := (b.entered.filter (·.1 == i)).map (·.2)

/-- The items that party `i` took out. -/
def leftBy (b : Books α) (i : Nat) : List α := (b.left.filter (·.1 == i)).map (·.2)

end Books

namespace HandOff

variable {α : Type}

/-- The books `b` continued by a turn from `h` to `h'`. -/
def book (h : HandOff α) (b : Books α) (h' : HandOff α) : Turn α → Books α
  | .act (.arrive q) => { b with asked := b.asked ++ [q] }
  | .act (.enter i) | .act (.expire i) => b.change i h.ring.toList h'.ring.toList
  | .act (.signal ..) | .lapse _ => b

/-- Turns one after another, with the books; none if one of them is not possible. -/
def play (b : Books α) (h : HandOff α) : List (Turn α) → Option (Books α × HandOff α)
  | [] => some (b, h)
  | t :: ts =>
    match h.turn t with
    | some h' => play (h.book b h' t) h' ts
    | none => none

/-- What a party that came for `q` asks for: that, or the same without waiting any longer. -/
def Request.ComesTo (q q' : Request α) : Prop := q' = q ∨ q.isLimited = true ∧ q' = q.hurry

/-- What a party with this answer put in and took out, given what it came for. Only a party
that was not prepared to wait for ever is refused, or finds nothing; only one that would have
waited longer than the clock can tell has no answer. -/
def Answer.Settles (q : Request α) (entered left : List α) : Answer α → Prop
  | .accepted => (∃ a p, q = .enqueue a p ∧ entered = [a]) ∧ left = []
  | .refused a => (∃ p, q = .enqueue a p ∧ p ≠ .endless) ∧ entered = [] ∧ left = []
  | .received a => (∃ p, q = .dequeue p) ∧ entered = [] ∧ left = [a]
  | .nothing => (∃ p, q = .dequeue p ∧ p ≠ .endless) ∧ entered = [] ∧ left = []
  | .dropped n => q = .clear ∧ entered = [] ∧ left.length = n
  | .panicked => q.overflows = true ∧ entered = [] ∧ left = []

/-- What a party that came for `q` put in and took out so far. -/
def Party.Tells (q : Request α) (entered left : List α) : Party α → Prop
  | .arriving q' => q.ComesTo q' ∧ entered = [] ∧ left = []
  | .waiting q' _ => (q.ComesTo q' ∧ q'.mayWait = true) ∧ entered = [] ∧ left = []
  | .signalling _ a | .finished a => a.Settles q entered left

/-! ## Signals -/

/-- True of a party that was given the signal `s` and has not gone on since. -/
def Party.isWoken (s : Signal) : Party α → Bool
  | .waiting (.enqueue ..) true => s == .room
  | .waiting (.dequeue _) true => s == .item
  | _ => false

/-- True of a party that has still to give the signal `s`. -/
def Party.owes (s : Signal) : Party α → Bool
  | .signalling t _ => t == s
  | _ => false

/-- True of a party that does not go on by itself. -/
def Party.rests : Party α → Bool
  | .waiting _ false | .finished _ => true
  | _ => false

/-- Nothing is left to run: every party is done, or waits and was not signalled. -/
def isAtRest (h : HandOff α) : Bool := h.parties.all (·.rests)

/-- True of a party that may still put something in. -/
def Party.isProducing : Party α → Bool
  | .arriving (.enqueue ..) | .waiting (.enqueue ..) _ => true
  | _ => false

/-- What one may rely on at a queue with its books. -/
structure Sound (b : Books α) (h : HandOff α) : Prop where
  /-- What left are the first of the items that entered, in that order, and the others are
  in the queue. -/
  order : b.entered.map (·.2) = b.left.map (·.2) ++ h.ring.toList
  told : ∀ {i : Nat} {q : Request α} {p : Party α}, b.asked[i]? = some q → h.parties[i]? = some p →
    p.Tells q (b.enteredBy i) (b.leftBy i)
  /-- If a party waits for an item and was not told of one, all items there are have been, or
  are still to be, announced to others. -/
  items : h.anyAwaits .item = true →
    h.ring.len ≤ h.parties.countP (·.isWoken .item) + h.parties.countP (·.owes .item)
  rooms : h.anyAwaits .room = true →
    h.parties.any (·.owes .roomForAll) = true ∨
      h.ring.capacity - h.ring.len ≤
        h.parties.countP (·.isWoken .room) + h.parties.countP (·.owes .room)

end HandOff
end JobPool
