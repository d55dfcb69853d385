/-
JobPool.Queue.Watching — a tally on its own, with those who watch it.

`Tally.carry` carries out one call on a tally, balanced or not, and `WatchedTally.answer` one
use, which is a call or a look at the channel. What the receivers are told is described without
the numbers of the sends: `TallyUse.isMutation` says which uses publish, `snapshot` what was
published by a sequence of uses, and `Attends` when a receiver is up to date.
-/
import JobPool.Queue.Audience

namespace JobPool

/-! ## Calls -/

/-- What can be told to a tally. -/
inductive TallyCall where
  | enqueued
  | dequeued
  | completed (success : Bool)
  | discarded (n : Nat)
  deriving DecidableEq, Repr

/-- The counts after a call. -/
def TallyCall.apply (p : Progress) : TallyCall → Progress
  | enqueued => p.enqueued
  | dequeued => p.dequeued
  | completed success => p.done success
  | discarded n => p.discarded n

/-- True for a call that publishes the counts, equal to the old ones or not. -/
def TallyCall.isMutation : TallyCall → Bool
  | discarded n => n != 0
  | _ => true

/-- Carries out a call. -/
def Tally.carry (t : Tally) : TallyCall → Tally
  | .enqueued => t.enqueued
  | .dequeued => t.dequeued
  | .completed success => t.done success
  | .discarded n => t.discarded n

/-! ## Uses -/

/-- What can be done with a tally and the channel of its counts. -/
inductive TallyUse where
  | call (c : TallyCall)
  | look (l : Look)
  deriving DecidableEq, Repr

namespace TallyUse

/-- The call that publishes, if the use is one. -/
def mutation? : TallyUse → Option TallyCall
  | call c => if c.isMutation then some c else none
  | look _ => none

/-- True if the use publishes the counts. -/
def isMutation (use : TallyUse) : Bool := use.mutation?.isSome

/-- How many receivers there are after these uses. -/
def watchers (uses : List TallyUse) : Nat := uses.count (.look .watch)

/-- How often these uses publish. -/
def mutations (uses : List TallyUse) : Nat := uses.countP isMutation

/-- The counts as these uses publish them the `n`-th time; those of a new tally are number 0. -/
def snapshot (uses : List TallyUse) (n : Nat) : Progress :=
  ((uses.filterMap mutation?).take n).foldl TallyCall.apply {}

/-- After `before` this use makes receiver `i`, or marks the counts as seen with it. -/
def Attends (before : List TallyUse) (i : Nat) (use : TallyUse) : Prop :=
  use = .look .watch ∧ i = watchers before ∨ use = .look (.update i) ∧ i < watchers before

end TallyUse

/-- A tally and the receivers of its counts. -/
structure WatchedTally where
  tally : Tally := {}
  receivers : List Receiver := []

namespace WatchedTally

/-- Carries out one use. -/
def answer (w : WatchedTally) : TallyUse → Option (Sight Progress) × WatchedTally
  | .call c => (none, { w with tally := w.tally.carry c })
  | .look l =>
    let (s, receivers) := w.tally.channel.look w.receivers l
    (some s, { w with receivers })

/-- Carries out uses one after another. -/
def after (w : WatchedTally) (uses : List TallyUse) : WatchedTally :=
  uses.foldl (fun w use => (w.answer use).2) w

/-- What a look is answered. -/
def sight (w : WatchedTally) (l : Look) : Sight Progress := (w.tally.channel.look w.receivers l).1

end WatchedTally
end JobPool
