/-
JobPool.Queue.HandOff — producers and consumers meeting at one bounded queue.

Each party carries out one operation: it enters the queue's critical section,
and either leaves with an answer or waits there for room or for an item. Who
is to wait until an instant that the clock cannot tell panics instead. A
party that changed the queue leaves the critical section first and signals
afterwards, so other parties may come in between. A step is one critical
section, one signal, or one wait running out; parties may take their steps in
any order.

`HandOff.step` is that relation as a function of the chosen act.
`HandOff.settle` is one particular order: every party goes as far as it can,
oldest first.
-/
import JobPool.Queue.Ring
import JobPool.Text.Fields
import JobPool.Time.Clock

namespace JobPool

/-- How long an operation is prepared to wait. -/
inductive Patience where
  /-- Not at all. -/
  | never
  /-- For so long after the instant `since`, at which the operation reads the clock. -/
  | limited (since : Nat) (timeout : Duration)
  /-- As long as it takes. -/
  | endless
  deriving DecidableEq, Repr

namespace Patience

/-- True of a wait that may run out. -/
def isLimited : Patience → Bool
  | limited since timeout => Instant.canTell since timeout
  | never | endless => false

/-- True of a wait for which the clock cannot tell when it would run out. -/
def overflows : Patience → Bool
  | limited since timeout => !Instant.canTell since timeout
  | never | endless => false

@[simp] theorem overflows_never : never.overflows = false := rfl

end Patience

namespace HandOff

variable {α : Type}

/-- What a party wants of the queue. -/
inductive Request (α : Type) where
  | enqueue (item : α) (patience : Patience)
  | dequeue (patience : Patience)
  | clear
  deriving DecidableEq, Repr

/-- What a party gets. -/
inductive Answer (α : Type) where
  /-- The item is in the queue. -/
  | accepted
  /-- The item is handed back. -/
  | refused (item : α)
  /-- The oldest item, which has left the queue. -/
  | received (item : α)
  /-- There was no item. -/
  | nothing
  /-- So many items were dropped. -/
  | dropped (count : Nat)
  /-- None: the operation panicked. An item it came with is lost. -/
  | panicked
  deriving DecidableEq, Repr

/-- A signal to waiting parties. -/
inductive Signal where
  /-- To one party that waits for an item. -/
  | item
  /-- To one party that waits for room. -/
  | room
  /-- To every party that waits for room. -/
  | roomForAll
  deriving DecidableEq, Repr

/-- How far a party has come. -/
inductive Party (α : Type) where
  /-- Before its critical section. -/
  | arriving (request : Request α)
  /-- Waiting, with or without having been signalled. -/
  | waiting (request : Request α) (signalled : Bool)
  /-- Out of the critical section, its signal not yet given. -/
  | signalling (signal : Signal) (answer : Answer α)
  /-- Done. -/
  | finished (answer : Answer α)
  deriving DecidableEq, Repr

/-- True if the wait of a request may run out. -/
def Request.isLimited : Request α → Bool
  | .enqueue _ p | .dequeue p => p.isLimited
  | .clear => false

/-- True of a request that panics rather than wait. -/
def Request.overflows : Request α → Bool
  | .enqueue _ p | .dequeue p => p.overflows
  | .clear => false

/-- One pass through the critical section for a request whose wait, if any,
has not run out: the queue after it, and where the party stands. A producer
asks how long it may wait when it finds the queue full, a consumer before it
looks for an item. -/
def attempt (r : Ring α) : Request α → Ring α × Party α
  | .enqueue item p =>
    if r.isFull then
      if p = .never then (r, .finished (.refused item))
      else if p.overflows then (r, .finished .panicked)
      else (r, .waiting (.enqueue item p) false)
    else (r.push item, .signalling .item .accepted)
  | .dequeue p =>
    if p.overflows then (r, .finished .panicked)
    else
      match r.pop with
      | (some item, r') => (r', .signalling .room (.received item))
      | (none, r') =>
        if p = .never then (r', .finished .nothing)
        else (r', .waiting (.dequeue p) false)
  | .clear =>
    match r.clear with
    | (0, r') => (r', .finished (.dropped 0))
    | (n + 1, r') => (r', .signalling .roomForAll (.dropped (n + 1)))

/-- The last pass through the critical section, after the wait ran out: it
takes what there is and otherwise gives up. -/
def lastAttempt (r : Ring α) : Request α → Ring α × Party α
  | .enqueue item _ => attempt r (.enqueue item .never)
  | .dequeue _ => attempt r (.dequeue .never)
  | .clear => attempt r .clear

/-- True of a party that `s` is meant for and that has not been signalled. -/
def Party.awaits (s : Signal) : Party α → Bool
  | .waiting (.enqueue ..) false => s == .room || s == .roomForAll
  | .waiting (.dequeue _) false => s == .item
  | _ => false

/-- A party that waits becomes signalled; others stay as they are. -/
def Party.wake : Party α → Party α
  | .waiting request _ => .waiting request true
  | p => p

end HandOff

/-- A queue and the parties at it, in the order they came. -/
structure HandOff (α : Type) where
  ring : Ring α
  parties : List (HandOff.Party α)

namespace HandOff

variable {α : Type}

/-- What may happen next at the queue. -/
inductive Act (α : Type) where
  /-- A party comes with a request. -/
  | arrive (request : Request α)
  /-- Party `i`, arriving or signalled, passes the critical section. -/
  | enter (i : Nat)
  /-- The wait of party `i` runs out before it was signalled. -/
  | expire (i : Nat)
  /-- Party `i` gives its signal; a signal meant for one goes to `target`,
  if any party waits for it. -/
  | signal (i : Nat) (target : Option Nat)
  deriving Repr

/-- A queue without parties. -/
def ofRing (r : Ring α) : HandOff α := ⟨r, []⟩

/-- Puts the outcome of a critical section of party `i` in its place. -/
def settleParty (h : HandOff α) (i : Nat) (out : Ring α × Party α) : HandOff α :=
  ⟨out.1, h.parties.set i out.2⟩

/-- True if some party waits, not signalled, for `s`. -/
def anyAwaits (h : HandOff α) (s : Signal) : Bool := h.parties.any (·.awaits s)

/-- One step; `none` if the act is not possible. -/
def step (h : HandOff α) : Act α → Option (HandOff α)
  | .arrive request => some { h with parties := h.parties ++ [.arriving request] }
  | .enter i =>
    match h.parties[i]? with
    | some (.arriving request) => some (h.settleParty i (attempt h.ring request))
    | some (.waiting request true) => some (h.settleParty i (attempt h.ring request))
    | _ => none
  | .expire i =>
    match h.parties[i]? with
    | some (.waiting request false) =>
      if request.isLimited then some (h.settleParty i (lastAttempt h.ring request)) else none
    | _ => none
  | .signal i target =>
    match h.parties[i]? with
    | some (.signalling .roomForAll answer) =>
      some { h with
        parties := (h.parties.map fun p => if p.awaits .roomForAll then p.wake else p).set i
          (.finished answer) }
    | some (.signalling s answer) =>
      match target with
      | some j =>
        match h.parties[j]? with
        | some p =>
          if p.awaits s then
            some { h with parties := (h.parties.set j p.wake).set i (.finished answer) }
          else none
        | none => none
      | none =>
        if h.anyAwaits s then none
        else some { h with parties := h.parties.set i (.finished answer) }
    | _ => none

/-- The act by which party `i` goes on by itself, if it can: a signal meant for
one goes to the party that has waited longest. -/
def nextAct (h : HandOff α) (i : Nat) : Option (Act α) :=
  match h.parties[i]? with
  | some (.arriving _) => some (.enter i)
  | some (.waiting _ true) => some (.enter i)
  | some (.signalling s _) => some (.signal i (h.parties.findIdx? (·.awaits s)))
  | _ => none

/-- The first party that can go on by itself takes a step. -/
def advance (h : HandOff α) : Option (HandOff α) :=
  (List.range h.parties.length).findSome? fun i => (h.nextAct i).bind h.step

/-- At most `n` steps of the parties that can go on by themselves. -/
def advanceWithin : Nat → HandOff α → HandOff α
  | 0, h => h
  | n + 1, h =>
    match h.advance with
    | some h' => advanceWithin n h'
    | none => h

/-- Lets every party go as far as it can. A party passes the critical section
at most once on its own and once more per signal it is given, and gives at
most one signal, which bounds the number of steps. -/
def settle (h : HandOff α) : HandOff α :=
  advanceWithin ((h.parties.length + 1) * (h.parties.length + 3)) h

/-- A party comes, and all go as far as they can. -/
def meet (h : HandOff α) (request : Request α) : HandOff α :=
  settle { h with parties := h.parties ++ [.arriving request] }

/-- The wait of every party that still waits for a limited time runs out,
oldest first, and all go as far as they can. -/
def expireAll (h : HandOff α) : HandOff α :=
  (List.range h.parties.length).foldl
    (fun h i => ((h.step (.expire i)).map settle).getD h) h

/-- The answer of party `i`, once it is done. -/
def answer? (h : HandOff α) (i : Nat) : Option (Answer α) :=
  match h.parties[i]? with
  | some (.finished a) => some a
  | _ => none

end HandOff

namespace Ring

variable {α : Type}

/-- Carries out one request with nobody else at the queue: a wait can only run
out, and one without end leaves the request without an answer. -/
def serve (r : Ring α) (request : HandOff.Request α) : Option (HandOff.Answer α) × Ring α :=
  let h := ((HandOff.ofRing r).meet request).expireAll
  (h.answer? 0, h.ring)

/-- The queue as a record. -/
def render (r : Ring α) : String :=
  Text.record "BlockingQueue" [("len", toString r.len), ("capacity", toString r.capacity)]

end Ring
end JobPool
