/-
JobPool.Pool.Strand — the life of a pool that is one of several.

On a `Schedule` a pool has its surroundings to itself: whatever others do to its driver or its
bus is a move. Where several pools work on one driver or one bus, a step of one of them changes
the surroundings of the others in ways that need be no moves of theirs. A `Strand` is what one
of the pools has of such a life: its own moves, and turns in between that leave the pool as it
is and may do anything to what is around it.
-/
import JobPool.Pool.Path

namespace JobPool

/-- Turns without end, as one pool has them. -/
structure Strand where
  state : Nat → Site
  /-- What the pool does in a turn, if the turn is its own. -/
  move : Nat → Option Move
  moved : ∀ {n : Nat} {m : Move}, move n = some m →
    ∃ s, (state n).move m = some s ∧ (state (n + 1)).pool = s.pool
  rested : ∀ {n : Nat}, move n = none → (state (n + 1)).pool = (state n).pool

/-- A pool that has its surroundings to itself. -/
def Schedule.strand (σ : Schedule) : Strand where
  state := σ.state
  move n := some (σ.move n)
  moved {n m} own := ⟨σ.state (n + 1), Option.some.inj own ▸ σ.goes n, rfl⟩
  rested own := by cases own

namespace Strand

/-- A task that can step from some point on comes to its turn. -/
def IsFair (ς : Strand) (t : PoolTask) : Prop :=
  ∀ n, ∃ m, n ≤ m ∧ (ς.move m = some (.task t) ∨ (ς.state m).step t = none)

/-- Whatever the time, it is over at last. -/
def TimeFlows (ς : Strand) : Prop := ∀ time, ∃ n, ∀ m, n ≤ m → time ≤ (ς.state m).now

end Strand

theorem Schedule.IsFair.strand {σ : Schedule} {t : PoolTask} (fair : σ.IsFair t) :
    σ.strand.IsFair t := fun n =>
  (fair n).imp fun _ turn => turn.imp_right (·.imp_left (congrArg some))

end JobPool
