/-
JobPool.Queue.Ring — a first-in first-out queue of bounded size in a ring of slots.

The items lie in `len` neighbouring slots from `head` on, wrapping round at the
end; all other slots are empty. `Ring.toList` reads them in order, oldest
first, and says what each operation means: `push` appends, `pop` takes the
first, `clear` drops them all. `WellFormed` is the layout that makes the view
right.
-/

namespace JobPool

/-- A ring of slots, the slot of the oldest item, and the number of items. -/
structure Ring (α : Type) where
  slots : Array (Option α)
  head : Nat
  len : Nat

namespace Ring

variable {α : Type}

/-- An empty ring for at most `capacity` items; zero counts as one. -/
def empty (capacity : Nat) : Ring α :=
  ⟨Array.replicate (max capacity 1) none, 0, 0⟩

/-- The most items the ring can hold. -/
def capacity (r : Ring α) : Nat := r.slots.size

/-- True when no further item fits. -/
def isFull (r : Ring α) : Bool := r.len == r.capacity

/-- True when there is no item. -/
def isEmpty (r : Ring α) : Bool := r.len == 0

/-- The slot that lies `k` places after the head. -/
def slot (r : Ring α) (k : Nat) : Nat := (r.head + k) % r.capacity

/-- Puts an item behind the last one. Only for a ring that is not full. -/
def push (r : Ring α) (item : α) : Ring α :=
  { r with slots := r.slots.setIfInBounds (r.slot r.len) (some item), len := r.len + 1 }

/-- What lies `k` places after the head. -/
def peek (r : Ring α) (k : Nat) : Option α := (r.slots[r.slot k]?).join

/-- The ring without its oldest item. -/
def tail (r : Ring α) : Ring α :=
  { slots := r.slots.setIfInBounds r.head none, head := r.slot 1, len := r.len - 1 }

/-- Takes the oldest item out. -/
def pop (r : Ring α) : Option α × Ring α :=
  if r.len = 0 then (none, r) else ((r.slots[r.head]?).join, r.tail)

/-- Takes items out until there is none, at most `n` of them. -/
def drain : Nat → Ring α → Ring α
  | 0, r => r
  | n + 1, r =>
    match r.pop with
    | (some _, r') => drain n r'
    | (none, r') => r'

/-- Drops every item and says how many there were. -/
def clear (r : Ring α) : Nat × Ring α :=
  (r.len, { r.drain r.len with head := 0 })

/-- The items, oldest first. -/
def toList (r : Ring α) : List α := (List.range r.len).filterMap r.peek

/-- The layout of a ring: the head is a slot, the items fit, and a slot is
filled exactly if it is one of the `len` slots from the head on. -/
structure WellFormed (r : Ring α) : Prop where
  head_lt : r.head < r.capacity
  len_le : r.len ≤ r.capacity
  filled : ∀ k, k < r.capacity → ((r.peek k).isSome ↔ k < r.len)

end Ring
end JobPool
