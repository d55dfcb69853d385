/-
JobPool.Proofs.Pool.Rest — schedules on which a pool comes to rest.

Once all loops, all upkeep and all calls are over, no task of the pool takes a step any more,
however much time passes. A row of moves that leads there, with time passing ever after, is
a schedule that favours all tasks.
-/
import JobPool.Proofs.Pool.Tokens

namespace JobPool

/-- No task takes a step any more. -/
def Pool.isAtRest (p : Pool) : Bool :=
  p.loops.all (·.isOver) && p.upkeeps.all (·.isOver) && p.calls.all (· == .returned)

/-- True unless the loop makes an attempt that does not end by itself. -/
def Loop.endsByItself (l : Loop) : Bool := (l.run?.bind (·.underway?)).all (·.length.isSome)

theorem Pool.runAt_of_isAtRest {p : Pool} (rest : p.isAtRest = true) (i : LoopId) :
    p.runAt i = none := by
  simp only [isAtRest, Bool.and_eq_true, List.all_eq_true] at rest
  obtain ⟨⟨loops, -⟩, -⟩ := rest
  cases found : p.loops[i]? with
  | none => simp [runAt, found]
  | some l =>
    have ended := loops l (List.mem_of_getElem? found)
    cases phase : l.phase <;> simp [Loop.isOver, runAt, found, Loop.run?, phase] at ended ⊢

namespace Site

theorem step_of_isAtRest {s : Site} (rest : s.pool.isAtRest = true) (t : PoolTask) :
    s.step t = none := by
  simp only [Pool.isAtRest, Bool.and_eq_true, List.all_eq_true, beq_iff_eq] at rest
  obtain ⟨⟨loops, upkeeps⟩, calls⟩ := rest
  have upkeep : ∀ {u : UpkeepId} {k : Upkeep}, s.pool.upkeeps[u]? = some k →
      k.watcher = .ended ∧ (k.forwarder = .ended ∨ k.forwarder = .crashed) := by
    intro u k found
    simpa [Upkeep.isOver] using upkeeps k (List.mem_of_getElem? found)
  cases t with
  | loop i =>
    cases found : s.pool.loops[i]? with
    | none => simp [step, stepLoop, found]
    | some l =>
      have ended := loops l (List.mem_of_getElem? found)
      cases phase : l.phase <;> simp [Loop.isOver, step, stepLoop, found, phase] at ended ⊢
  | watcher u =>
    cases found : s.pool.upkeeps[u]? with
    | none => simp [step, stepWatcher, found]
    | some k => simp [step, stepWatcher, found, (upkeep found).1]
  | check u w =>
    cases found : s.pool.upkeeps[u]? with
    | none => simp [step, stepCheck, found]
    | some k => simp [step, stepCheck, found, (upkeep found).1]
  | forwarder u =>
    cases found : s.pool.upkeeps[u]? with
    | none => simp [step, stepForwarder, found]
    | some k =>
      rcases (upkeep found).2 with ended | ended <;> simp [step, stepForwarder, found, ended]
  | call c =>
    cases found : s.pool.calls[c]? with
    | none => simp [step, stepCall, found]
    | some call =>
      obtain rfl := calls call (List.mem_of_getElem? found)
      simp [step, stepCall, found]

/-- A schedule on which a pool comes to rest favours all tasks, if no listener panics while it is
made and all attempts on the way end by themselves. -/
theorem favoursAll_schedule {s : Site} {ms : List Move}
    (able : (s.trail ms).all (fun x => (x.1.move x.2).isSome) = true)
    (calm : ∀ x ∈ s.trail ms, x.1.Calm x.2)
    (ends : ∀ x ∈ s.trail ms, ∀ l ∈ x.1.pool.loops, l.endsByItself = true)
    (rest : (s.plays ms).pool.isAtRest = true) : (s.schedule ms able).FavoursAll := by
  have rests : ∀ k, ((s.schedule ms able).state (ms.length + k)).pool.isAtRest = true := by
    intro k
    rw [← (turn_after ms s k).2.1] at rest
    exact rest
  have fair : ∀ t, (s.schedule ms able).IsFair t := fun t n =>
    ⟨ms.length + n, Nat.le_add_left .., .inr (step_of_isAtRest (rests n) t)⟩
  refine ⟨fun i => ⟨fun n => ?_, fair (.loop i), fun time => ?_, fun n r a runs attempting => ?_⟩,
    fair⟩
  · rcases Nat.lt_or_ge n ms.length with lt | le
    · exact calm _ (turn_mem_trail ms s n lt)
    · obtain ⟨k, rfl⟩ := Nat.exists_eq_add_of_le le
      intro t same
      rw [show (s.schedule ms able).move _ = .pass 1 1 from (turn_after ms s k).1] at same
      cases same
  · refine ⟨ms.length + time, fun m le => ?_⟩
    obtain ⟨k, rfl⟩ := Nat.exists_eq_add_of_le (Nat.le_of_add_right_le le)
    have now := (turn_after ms s k).2.2
    show time ≤ (s.stateIn ms _).now
    omega
  · rcases Nat.lt_or_ge n ms.length with lt | le
    · intro endless
      obtain ⟨l, found, running⟩ := Pool.runAt_eq_some.1 runs
      have bound := ends _ (turn_mem_trail ms s n lt) l (List.mem_of_getElem? found)
      simp [Loop.endsByItself, Loop.run?, running, Run.underway?, attempting, endless.1] at bound
    · obtain ⟨k, rfl⟩ := Nat.exists_eq_add_of_le le
      rw [Pool.runAt_of_isAtRest (rests k)] at runs
      cases runs

end Site
end JobPool
