/-
JobPool.Proofs.Pool.Frame — what the staff of a pool has no part in.

The frame of a pool is what is left when workers, loops, attempts and their tokens are
forgotten: the status with its times, upkeep, calls, and whether the root is cancelled.
Whatever is done to workers, by growth, by a check, by a dismissal or by the loops
themselves, leaves the frame alone, so what holds of the frame is kept without a look at
these steps.

  §1 Growth and dismissal
  §2 Loops
-/
import JobPool.Proofs.Pool.Tokens

namespace JobPool

open Pool (Asked)

namespace Pool

/-- The pool without its staff. -/
def frame (p : Pool) : Pool :=
  { p with workers := [], registry := [], loops := [], begun := [],
           tokens := { root := p.tokens.root } }

/-! ## §1 Growth and dismissal -/

theorem frame_addWorkers (wall : Nat) : ∀ (n : Nat) (p : Pool),
    (p.addWorkers wall n).frame = p.frame
  | 0, _ => rfl
  | n + 1, p => frame_addWorkers wall n (p.addWorker wall)

theorem frame_restartWorker (p : Pool) (wall : Nat) (w : WorkerId) :
    (p.restartWorker wall w).2.frame = p.frame := by
  unfold restartWorker
  split
  · rfl
  · split <;> rfl

theorem frame_restartStopped (wall : Nat) : ∀ (ws : List WorkerId) (want : Nat) (p : Pool),
    (restartStopped wall ws want p).2.frame = p.frame
  | [], 0, _ => rfl
  | _ :: _, 0, _ => rfl
  | [], _ + 1, _ => rfl
  | w :: ws, want + 1, p => by
    have first := p.frame_restartWorker wall w
    rw [restartStopped]
    split
    · rename_i q restarted
      rw [restarted] at first
      exact (frame_restartStopped wall ws want q).trans first
    · rename_i q refused
      rw [refused] at first
      exact (frame_restartStopped wall ws (want + 1) q).trans first

theorem frame_grow (p : Pool) (wall pending : Nat) : (p.grow wall pending).2.frame = p.frame := by
  simp only [grow]
  split
  · rfl
  · exact (frame_addWorkers wall _ _).trans (frame_restartStopped wall _ _ p)

/-- Workers that are asked for something have no part in the frame. -/
theorem frame_of_asked {f : Worker → Worker} {p q : Pool} {ws : List WorkerId}
    (asked : Asked f p ws q) : q.frame = p.frame := by
  rw [asked.rest]
  simp only [frame, asked.root]

theorem frame_stopWorker (p : Pool) (wall : Nat) (w : WorkerId) :
    (p.stopWorker wall w).frame = p.frame :=
  frame_of_asked (p.asked_stopWorker wall w)

theorem frame_releaseWorker (p : Pool) (wall : Nat) (w : WorkerId) :
    (p.releaseWorker wall w).2.frame = p.frame := by
  rw [releaseWorker_eq]
  exact frame_of_asked (asked_ask p w)

end Pool

namespace Site

variable {s s' : Site}

theorem frame_spawnWorkers (s : Site) : s.spawnWorkers.2.pool.frame = s.pool.frame := by
  unfold spawnWorkers
  split
  · exact s.pool.frame_grow ..
  · rfl

theorem frame_dispatch (s : Site) (job : Job) : (s.dispatch job).2.pool.frame = s.pool.frame := by
  unfold dispatch
  split
  · rfl
  · rfl
  · split
    · rfl
    · split
      · exact frame_spawnWorkers _
      · rfl

theorem frame_checkWorker (s : Site) (w : WorkerId) :
    (s.checkWorker w).2.pool.frame = s.pool.frame := by
  unfold checkWorker
  split
  · rfl
  · dsimp only
    split
    · exact s.pool.frame_stopWorker ..
    · rfl

theorem frame_releaseStopped (s : Site) (w : WorkerId) :
    (s.releaseStopped w).2.pool.frame = s.pool.frame := by
  unfold releaseStopped
  split
  · exact Pool.frame_releaseWorker _ s.wall w
  · rfl

theorem frame_stopWorkers (s : Site) (ws : List WorkerId) :
    (s.stopWorkers ws).pool.frame = s.pool.frame :=
  Pool.frame_of_asked (Pool.asked_foldl (Pool.stop_stop s.wall) (·.token_stop s.wall) ws s.pool)

theorem frame_drainRegistry (s : Site) : s.drainRegistry.2.pool.frame = s.pool.frame := by
  obtain ⟨pool, -⟩ := Pool.foldl_retire s.wall s.pool.registry [] { s.pool with registry := [] }
  have asked := Pool.asked_foldl (f := Pool.retired s.wall) (Pool.retired_retired s.wall)
    (fun k => k.token_stop s.wall) s.pool.registry { s.pool with registry := [] }
  rw [← pool] at asked
  exact (Pool.frame_of_asked asked).trans rfl

theorem frame_endUpkeep (p : Pool) (calls : List Call) :
    ({ (endUpkeep p).2 with calls } : Pool).frame =
      ({ p with current := none, calls } : Pool).frame := by
  unfold endUpkeep
  dsimp only
  split <;> rfl

/-! ## §2 Loops -/

theorem frame_stepRun {i : LoopId} {run : Run} (h : s.stepRun i run = some s') :
    s'.pool.frame = s.pool.frame := by
  obtain ⟨⟨stage, run'⟩, stepped, rfl⟩ := Option.map_eq_some_iff.1 h
  obtain ⟨t, turn, played⟩ := Option.map_eq_some_iff.1 stepped
  have tokens : stage.tokens = t.tokens := by
    have kept := (Stage.play_stage s.stage t).1
    rw [played] at kept
    exact kept
  have root : stage.tokens.root = s.pool.tokens.root :=
    tokens ▸ (Run.turned_of_turn turn).spares.root
  simp only [Pool.frame, withPool, withStage, Pool.setPhase, root]

theorem frame_stepLoop {i : LoopId} (h : s.stepLoop i = some s') :
    s'.pool.frame = s.pool.frame := by
  obtain ⟨l, -, cycles⟩ := cycles_of_stepLoop h
  cases cycles with
  | begins _ _ _ _ announces => exact (frame_stepRun announces).trans rfl
  | runs _ goes => exact frame_stepRun goes
  | _ => rfl

end Site
end JobPool
