/-
JobPool.World.Turns — what happens in a world, turn by turn.

In a turn one pool of the world makes a move, or something happens beside the pools: time
passes, others use drivers and buses, a pool is built. A label says which pool made which move,
so one can follow a single pool through the turns of all. `World.Turns` is a row of turns, and a
`World.Schedule` goes on without end. Pools meet in the drivers and buses that they share, so
what a pool does may depend on the others; `World.Apart` says what does not.
-/
import JobPool.Pool.Phases
import JobPool.World

namespace JobPool

/-- The pool that a turn belongs to, and its move; none if something happens beside the pools. -/
abbrev Label := Option (PoolId × Move)

namespace World

/-- One turn. -/
inductive Turn (w : World) : Label → World → Prop where
  | move {i : PoolId} {m : Move} {s s' : Site} (found : w.site? i = some s)
      (moved : s.move m = some s') : Turn w (some (i, m)) (w.putSite i s')
  | build (name : String) (settings : Settings) (driver : DriverId) (bus : BusId) :
      Turn w none (w.addPool name settings driver bus).2
  /-- Time passes, or something is done to drivers and buses; none of them goes away. -/
  | beside {w' : World} (members : w'.members = w.members)
      (drivers : w.drivers.length ≤ w'.drivers.length)
      (buses : w.buses.length ≤ w'.buses.length) : Turn w none w'

/-- A row of turns, oldest first. -/
inductive Turns (start : World) : List Label → World → Prop where
  | here : Turns start [] start
  | turn {w w' : World} {ls : List Label} {l : Label} (turns : Turns start ls w)
      (turn : w.Turn l w') : Turns start (ls ++ [l]) w'

theorem Turns.trans {a b c : World} {ls ls' : List Label} (first : a.Turns ls b)
    (second : b.Turns ls' c) : a.Turns (ls ++ ls') c := by
  induction second with
  | here => simpa using first
  | turn _ turn ih =>
    rw [← List.append_assoc]
    exact .turn ih turn

theorem Turn.turns {w w' : World} {l : Label} (turn : w.Turn l w') : w.Turns [l] w' :=
  .turn .here turn

/-- The moves that a pool makes in some turns. -/
def movesOf (i : PoolId) (ls : List Label) : List Move :=
  ls.filterMap fun l => l.bind fun x => if x.1 = i then some x.2 else none

/-- A call of stop or release on a pool. -/
def callAt (w : World) (i : PoolId) (c : CallId) : Option Call :=
  (w.members[i]?).bind (·.pool.calls[c]?)

/-- Each pool goes its own way: its status is that of the machine after its own moves, whatever
the others do in between, and without a move of its own it stays as it is. -/
structure Apart (w : World) (ls : List Label) (w' : World) : Prop where
  status : ∀ {i : PoolId} {k : Member}, w.members[i]? = some k →
    ∃ k', w'.members[i]? = some k' ∧
      k'.pool.status = (movesOf i ls).foldl (fun status m => status.after m) k.pool.status
  untouched : ∀ {i : PoolId} {k : Member}, w.members[i]? = some k → movesOf i ls = [] →
    w'.members[i]? = some k

/-- Turns without end. -/
structure Schedule where
  state : Nat → World
  label : Nat → Label
  goes : ∀ n, (state n).Turn (label n) (state (n + 1))

namespace Schedule

/-- A task of the pool that can step from some point on comes to its turn. -/
def IsFair (Ω : Schedule) (i : PoolId) : Prop :=
  ∀ t n, ∃ m, n ≤ m ∧ (Ω.label m = some (i, .task t) ∨ (Ω.state m).step i t = none)

/-- Whatever the time, it is over at last. -/
def TimeFlows (Ω : Schedule) : Prop := ∀ time, ∃ n, ∀ m, n ≤ m → time ≤ (Ω.state m).now

end Schedule

/-! ## Moves one after another -/

/-- The world after a move of a pool; none if the move cannot be made. -/
def make? (w : World) (x : PoolId × Move) : Option World := do
  let s ← w.site? x.1
  let s ← s.move x.2
  some (w.putSite x.1 s)

/-- The world after some moves; one that cannot be made is left out. -/
def plays (w : World) : List (PoolId × Move) → World
  | [] => w
  | x :: xs => ((w.make? x).getD w).plays xs

/-- Moves with the worlds in which they come when they are made one after another. -/
def trail (w : World) : List (PoolId × Move) → List (World × PoolId × Move)
  | [] => []
  | x :: xs => (w, x) :: ((w.make? x).getD w).trail xs

/-- The world before turn `n` when the moves are made, and after them time passes. -/
def stateIn (w : World) : List (PoolId × Move) → Nat → World
  | _, 0 => w
  | [], n + 1 => { w with now := w.now + (n + 1) }
  | x :: xs, n + 1 => ((w.make? x).getD w).stateIn xs n

theorem turn_of_make? {w w' : World} {x : PoolId × Move} (made : w.make? x = some w') :
    w.Turn (some x) w' := by
  obtain ⟨s, found, made⟩ := Option.bind_eq_some_iff.1 made
  obtain ⟨s', moved, made⟩ := Option.bind_eq_some_iff.1 made
  obtain rfl := Option.some.inj made
  exact .move found moved

theorem turn_stateIn : ∀ (xs : List (PoolId × Move)) (w : World) (n : Nat),
    (w.trail xs).all (fun x => (x.1.make? x.2).isSome) = true →
      (w.stateIn xs n).Turn xs[n]? (w.stateIn xs (n + 1))
  | [], _, 0, _ | [], _, _ + 1, _ => .beside rfl (Nat.le_refl _) (Nat.le_refl _)
  | x :: xs, w, 0, able => by
    rw [trail, List.all_cons, Bool.and_eq_true] at able
    obtain ⟨w', made⟩ := Option.isSome_iff_exists.1 able.1
    simpa [stateIn, made] using turn_of_make? made
  | x :: xs, w, n + 1, able => by
    rw [trail, List.all_cons, Bool.and_eq_true] at able
    simpa [stateIn] using turn_stateIn xs ((w.make? x).getD w) n able.2

/-- The moves are made, and after them time passes. -/
def schedule (w : World) (xs : List (PoolId × Move))
    (able : (w.trail xs).all (fun x => (x.1.make? x.2).isSome) = true) : Schedule where
  state := w.stateIn xs
  label n := xs[n]?
  goes n := turn_stateIn xs w n able

/-- Moves that can all be made are a row of turns. -/
theorem turns_of_plays : ∀ (xs : List (PoolId × Move)) (w : World),
    (w.trail xs).all (fun x => (x.1.make? x.2).isSome) = true →
      w.Turns (xs.map some) (w.plays xs)
  | [], _, _ => .here
  | x :: xs, w, able => by
    rw [trail, List.all_cons, Bool.and_eq_true] at able
    obtain ⟨w', made⟩ := Option.isSome_iff_exists.1 able.1
    have rest := turns_of_plays xs ((w.make? x).getD w) able.2
    rw [made] at rest
    rw [plays, made]
    exact (turn_of_make? made).turns.trans rest

end World
end JobPool
