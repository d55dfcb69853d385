/-
JobPool.Pool.Path — the moves that lead from one state of a pool to another.

`Reached` keeps what became of the jobs, not which loop had which of them. A
`Path` keeps every move with the state in which it was made, so one can follow a
single loop: the jobs that it took, what it told about them, and the outcomes that
it recorded. A `Schedule` goes on without end, which is what one needs to say that
something comes to its end if its turns come.
-/
import JobPool.Pool.Moves

namespace JobPool

/-- True of a step of the loop. -/
def Move.isStepOf (i : LoopId) : Move → Bool
  | task (.loop j) => i == j
  | _ => false

/-- True unless the move starts the pool. -/
def Move.isNoStart : Move → Bool
  | start => false
  | _ => true

/-- True unless somebody else changes what waits in the driver. -/
def Move.leavesQueue : Move → Bool
  | clear | enqueue _ | take => false
  | _ => true

/-- The run that the loop carries out, if any. -/
def Loop.run? (l : Loop) : Option Run :=
  match l.phase with
  | .running run => some run
  | _ => none

/-- The run that a loop of the pool carries out, if any. -/
def Pool.runAt (p : Pool) (i : LoopId) : Option Run := (p.loops[i]?).bind (·.run?)

/-- From `start`, moves lead to a state; each is kept with the state in which it was
made, oldest first. -/
inductive Path (start : Site) : List (Site × Move) → Site → Prop where
  | here : Path start [] start
  | step {s s' : Site} {ms : List (Site × Move)} (m : Move) (path : Path start ms s)
      (moved : s.move m = some s') : Path start (ms ++ [(s, m)]) s'

namespace Path

/-- The steps that a loop takes in some moves. -/
def stepsOf (i : LoopId) (ms : List (Site × Move)) : List (Site × Move) :=
  ms.filter (·.2.isStepOf i)

/-- The jobs that a loop takes in some moves while the clock can tell their deadlines. -/
def reckonedBy (i : LoopId) (ms : List (Site × Move)) : List Job :=
  (stepsOf i ms).filterMap fun x => (x.1.takes (.loop i)).filter x.1.onClock

/-- The jobs that a loop takes in some moves although the clock cannot tell their deadlines. -/
def strayedBy (i : LoopId) (ms : List (Site × Move)) : List Job :=
  (stepsOf i ms).filterMap fun x => (x.1.takes (.loop i)).filter (!x.1.onClock ·)

/-- The jobs whose outcomes a loop records in some moves. -/
def finishedBy (i : LoopId) (ms : List (Site × Move)) : List (Job × Bool) :=
  (stepsOf i ms).filterMap (·.1.finishes (.loop i))

/-- What a loop tells in some moves about the jobs that it runs. -/
def toldBy (i : LoopId) (ms : List (Site × Move)) : List Event :=
  (stepsOf i ms).filterMap (·.1.publishes (.loop i))

theorem trans {a b c : Site} {ms ms' : List (Site × Move)} (first : Path a ms b)
    (second : Path b ms' c) : Path a (ms ++ ms') c := by
  induction second with
  | here => simpa using first
  | step m _ moved ih =>
    rw [← List.append_assoc]
    exact .step m ih moved

end Path

namespace Site

/-- The state after some moves; one that cannot be made is left out. -/
def plays (s : Site) : List Move → Site
  | [] => s
  | m :: ms => ((s.move m).getD s).plays ms

/-- Moves with the states in which they come when they are made one after another. -/
def trail (s : Site) : List Move → List (Site × Move)
  | [] => []
  | m :: ms => (s, m) :: ((s.move m).getD s).trail ms

/-- Moves that can all be made lead along a path. -/
theorem path_of_plays : ∀ (ms : List Move) (s : Site),
    (s.trail ms).all (fun x => (x.1.move x.2).isSome) = true → Path s (s.trail ms) (s.plays ms)
  | [], _, _ => .here
  | m :: ms, s, able => by
    rw [trail, List.all_cons, Bool.and_eq_true] at able
    obtain ⟨s', moved⟩ := Option.isSome_iff_exists.1 able.1
    have rest := path_of_plays ms ((s.move m).getD s) able.2
    refine Path.trans (.step m .here ?_) rest
    rw [moved]
    rfl

end Site

/-- Moves without end. -/
structure Schedule where
  state : Nat → Site
  move : Nat → Move
  goes : ∀ n, (state n).move (move n) = some (state (n + 1))

namespace Schedule

/-- A task that can step from some point on comes to its turn. -/
def IsFair (σ : Schedule) (t : PoolTask) : Prop :=
  ∀ n, ∃ m, n ≤ m ∧ (σ.move m = .task t ∨ (σ.state m).step t = none)

/-- Whatever the time, it is over at last. -/
def TimeFlows (σ : Schedule) : Prop := ∀ time, ∃ n, ∀ m, n ≤ m → time ≤ (σ.state m).now

end Schedule

namespace Site

/-- What comes in turn `n` when the given moves are made, and after them time passes. -/
def moveIn : List Move → Nat → Move
  | [], _ => .pass 1 1
  | m :: _, 0 => m
  | _ :: ms, n + 1 => moveIn ms n

/-- The state before turn `n`. -/
def stateIn (s : Site) : List Move → Nat → Site
  | _, 0 => s
  | [], n + 1 => ((s.move (.pass 1 1)).getD s).stateIn [] n
  | m :: ms, n + 1 => ((s.move m).getD s).stateIn ms n

theorem move_stateIn : ∀ (ms : List Move) (s : Site) (n : Nat),
    (s.trail ms).all (fun x => (x.1.move x.2).isSome) = true →
      (s.stateIn ms n).move (moveIn ms n) = some (s.stateIn ms (n + 1))
  | [], _, 0, _ => rfl
  | [], s, n + 1, able => move_stateIn [] ((s.move (.pass 1 1)).getD s) n able
  | m :: ms, s, 0, able => by
    rw [trail, List.all_cons, Bool.and_eq_true] at able
    obtain ⟨s', moved⟩ := Option.isSome_iff_exists.1 able.1
    simp [moveIn, stateIn, moved]
  | m :: ms, s, n + 1, able => by
    rw [trail, List.all_cons, Bool.and_eq_true] at able
    exact move_stateIn ms ((s.move m).getD s) n able.2

/-- The moves are made, and after them time passes. -/
def schedule (s : Site) (ms : List Move)
    (able : (s.trail ms).all (fun x => (x.1.move x.2).isSome) = true) : Schedule where
  state := s.stateIn ms
  move := moveIn ms
  goes n := move_stateIn ms s n able

/-- The first turns are the moves. -/
theorem turn_mem_trail (ms : List Move) (s : Site) (n : Nat) (lt : n < ms.length) :
    (s.stateIn ms n, moveIn ms n) ∈ s.trail ms := by
  induction ms generalizing s n with
  | nil => cases lt
  | cons m ms ih =>
    cases n with
    | zero => exact List.mem_cons_self
    | succ n => exact List.mem_cons_of_mem _ (ih _ n (Nat.lt_of_succ_lt_succ lt))

/-- After the moves only time passes. -/
theorem turn_after (ms : List Move) (s : Site) (k : Nat) :
    moveIn ms (ms.length + k) = .pass 1 1 ∧
      (s.stateIn ms (ms.length + k)).pool = (s.plays ms).pool ∧
      (s.stateIn ms (ms.length + k)).now = (s.plays ms).now + k := by
  induction ms generalizing s with
  | nil =>
    rw [List.length_nil, Nat.zero_add]
    induction k generalizing s with
    | zero => exact ⟨rfl, rfl, rfl⟩
    | succ k ih =>
      obtain ⟨-, pool, now⟩ := ih ((s.move (.pass 1 1)).getD s)
      refine ⟨rfl, pool, now.trans ?_⟩
      show s.now + 1 + k = s.now + (k + 1)
      omega
  | cons m ms ih =>
    rw [List.length_cons, Nat.succ_add_eq_add_succ]
    exact ih ((s.move m).getD s)

end Site
end JobPool
