/-
JobPool.Proofs.Pool.Hearing — what the bus hears of a pool.

Whatever a task publishes goes to the bus, and nothing else does: a step makes notes and
dispatches the event that `Site.publishes` gives for it. So what is proved about these events
is proved about what listeners are told. What forwarders do comes with the other things that
are to be known of them.

  §1 Loops
  §2 Steps that change nothing but the pool
  §3 The clock
-/
import JobPool.Pool.Forwarding
import JobPool.Proofs.Pool.Step

namespace JobPool

theorem Hub.hears_publish (h : Hub) (ev : Event) : h.Hears ev (h.publish ev).2 := by
  unfold Hears publish
  split <;> simp_all

theorem Hub.Hears.publish_eq {h h' : Hub} {ev : Event} (heard : h.Hears ev h') :
    h' = (h.publish ev).2 := by
  unfold Hears at heard
  unfold publish
  split at heard <;> simp_all

namespace Site

variable {s s' : Site} {i : LoopId} {l : Loop} {u : UpkeepId}

theorem hears_of_hub (same : s'.hub = s.hub) : s.Hears none s' := ⟨[], same⟩

/-! ## §1 Loops -/

theorem hears_stepRun {run : Run} (h : s.stepRun i run = some s') :
    ∃ t, run.turn s.picks s.now s.pool.tokens = some t ∧ s.Hears t.event s' := by
  obtain ⟨⟨stage, run'⟩, stepped, rfl⟩ := Option.map_eq_some_iff.1 h
  obtain ⟨t, turn, played⟩ := Option.map_eq_some_iff.1 stepped
  have hub : stage.hub = (s.stage.play t).1.hub := by rw [played]
  refine ⟨t, turn, ?_⟩
  cases told : t.event with
  | none =>
    refine ⟨t.notes, ?_⟩
    show stage.hub = _
    rw [hub, Stage.play, told]
    rfl
  | some ev =>
    have heard := (t.notes.foldl Hub.note s.stage.hub).hears_publish ev
    refine ⟨t.notes, ?_⟩
    show Hub.Hears _ ev stage.hub
    rw [hub, Stage.play, told]
    dsimp only
    split <;> rename_i published <;> rw [published] at heard <;> exact heard

theorem hears_stepLoop (h : s.stepLoop i = some s') : s.Hears (s.publishes (.loop i)) s' := by
  obtain ⟨l, found, cycles⟩ := cycles_of_stepLoop h
  cases cycles with
  | ends free barred =>
    rw [publishes_of_idle found free (takes_of_barred found barred)]
    exact hears_of_hub rfl
  | parks looking mayTake empty =>
    have free := Loop.free_of_looking looking
    rw [publishes_of_idle found free (by rw [takes_of_looking found looking mayTake, empty])]
    exact hears_of_hub rfl
  | wakes parked =>
    have free := Loop.free_of_parked parked
    rw [publishes_of_idle found free (takes_of_ne_looking found (by simp [parked]))]
    exact hears_of_hub rfl
  | strays looking mayTake oldest offClock =>
    have free := Loop.free_of_looking looking
    rw [publishes_of_free found free, takes_of_looking found looking mayTake, oldest,
      Option.filter_some, offClock]
    exact hears_of_hub rfl
  | begins looking mayTake oldest onClock announces =>
    have free := Loop.free_of_looking looking
    obtain ⟨t, turn, hears⟩ := hears_stepRun announces
    rw [Run.turn, Run.phase_start_of_onClock onClock] at turn
    rw [publishes_of_free found free, takes_of_looking found looking mayTake, oldest,
      Option.filter_some, onClock]
    cases turn
    exact hears
  | runs running goes =>
    obtain ⟨t, turn, hears⟩ := hears_stepRun goes
    rw [publishes_of_running found running, turn]
    exact hears
  | crashes running unwound =>
    rw [publishes_of_still found running (by rw [Run.turn, unwound])]
    exact hears_of_hub rfl
  | finishes running done current =>
    rw [publishes_of_still found running (by rw [Run.turn, done])]
    exact hears_of_hub rfl
  | finishesLate running done outdated =>
    rw [publishes_of_still found running (by rw [Run.turn, done])]
    exact hears_of_hub rfl

/-! ## §2 Steps that change nothing but the pool -/

/-- From `s` to `s'` nothing changes but the pool. -/
def OnlyPool (s s' : Site) : Prop := s' = s.withPool s'.pool

theorem OnlyPool.hub (h : s.OnlyPool s') : s'.hub = s.hub := (congrArg Site.hub h :)

theorem OnlyPool.picks (h : s.OnlyPool s') : s'.picks = s.picks := (congrArg Site.picks h :)

theorem OnlyPool.setWatcher (h : s.OnlyPool s') (u : UpkeepId) (watcher : Watcher) :
    s.OnlyPool (s'.setWatcher u watcher) := by
  rw [OnlyPool, h]
  rfl

theorem onlyPool_spawnWorkers (s : Site) : s.OnlyPool s.spawnWorkers.2 := by
  unfold spawnWorkers
  split
  · rfl
  · rfl

theorem onlyPool_releaseStopped (s : Site) (w : WorkerId) :
    s.OnlyPool (s.releaseStopped w).2 := by
  unfold releaseStopped
  split
  · rfl
  · rfl

theorem onlyPool_checkWorker (s : Site) (w : WorkerId) : s.OnlyPool (s.checkWorker w).2 := by
  unfold checkWorker
  split
  · rfl
  · dsimp only
    split
    · rfl
    · rfl

theorem onlyPool_stepWatcher (h : s.stepWatcher u = some s') : s.OnlyPool s' := by
  obtain ⟨k, watcher, s₁, -, patrols, rfl⟩ := patrols_of_stepWatcher h
  refine OnlyPool.setWatcher ?_ u watcher
  cases patrols with
  | @dismisses _ _ w _ _ _ _ reply | @spares _ _ w _ _ _ reply =>
    have released := s.onlyPool_releaseStopped w
    rw [reply] at released
    exact released
  | grows =>
    split
    · exact s.onlyPool_spawnWorkers
    · rfl
  | _ => rfl

theorem onlyPool_stepCheck {w : WorkerId} (h : s.stepCheck u w = some s') : s.OnlyPool s' := by
  obtain ⟨k, watcher, -, -, rfl⟩ := inspects_of_stepCheck h
  exact (s.onlyPool_checkWorker w).setWatcher ..

theorem onlyPool_stepCall {c : CallId} (h : s.stepCall c = some s') : s.OnlyPool s' := by
  obtain ⟨call, call', s₁, -, proceeds, rfl⟩ := proceeds_of_stepCall h
  cases proceeds <;> rfl

theorem onlyPool_start (s : Site) : s.OnlyPool s.start.2 := by
  unfold start
  split
  · rfl
  · rfl
  all_goals exact onlyPool_spawnWorkers (s.withPool _)

theorem onlyPool_beginStop (s : Site) : s.OnlyPool s.beginStop.2 := by
  unfold beginStop
  split
  · rfl
  · rfl

theorem onlyPool_beginRelease (s : Site) : s.OnlyPool s.beginRelease.2 := by
  unfold beginRelease
  split
  · rfl
  · rfl

/-- A dispatch changes the driver too. -/
theorem onlyPool_dispatch (s : Site) (job : Job) :
    ∃ driver, ({ s with driver } : Site).OnlyPool (s.dispatch job).2 := by
  unfold dispatch
  split
  · exact ⟨s.driver, rfl⟩
  · exact ⟨s.driver, rfl⟩
  · split
    · rename_i driver _
      exact ⟨driver, rfl⟩
    · rename_i driver _
      refine ⟨driver, ?_⟩
      dsimp only
      split
      · exact onlyPool_spawnWorkers (({ s with driver } : Site).withPool s.pool.notifyAll)
      · rfl

/-! ## §3 The clock -/

/-- What a step makes known takes no time. -/
theorem Hears.now {ev : Option Event} (h : s.Hears ev s') : s'.now = s.now := by
  obtain ⟨notes, heard⟩ := h
  have noted := (Hub.foldl_note notes s.hub).2
  show s'.hub.now = s.hub.now
  cases ev with
  | none =>
    rw [heard]
    exact noted
  | some ev =>
    rw [Hub.Hears.publish_eq heard]
    exact (Hub.now_publish _ ev).trans noted

end Site

/-- The time that passes in a move. -/
def Move.elapsed : Move → Nat
  | pass time _ => time
  | _ => 0

/-- Only time that passes changes the clock. -/
theorem Site.now_of_move {s s' : Site} {m : Move} (moved : s.move m = some s') :
    s'.now = s.now + m.elapsed := by
  cases m with
  | task t =>
    cases t with
    | loop i => exact (hears_stepLoop moved).now
    | watcher u => exact congrArg Hub.now (onlyPool_stepWatcher moved).hub
    | check u w => exact congrArg Hub.now (onlyPool_stepCheck moved).hub
    | forwarder u =>
      obtain ⟨hub, forwarder, now, rfl⟩ := setForwarder_of_stepForwarder moved
      exact now
    | call c => exact congrArg Hub.now (onlyPool_stepCall moved).hub
  | start =>
    cases moved
    exact congrArg Hub.now s.onlyPool_start.hub
  | beginStop =>
    cases moved
    exact congrArg Hub.now s.onlyPool_beginStop.hub
  | beginRelease =>
    cases moved
    exact congrArg Hub.now s.onlyPool_beginRelease.hub
  | spawnWorkers =>
    cases moved
    exact congrArg Hub.now s.onlyPool_spawnWorkers.hub
  | dispatch job =>
    cases moved
    obtain ⟨driver, only⟩ := s.onlyPool_dispatch job
    exact congrArg Hub.now only.hub
  | bus op =>
    cases moved
    exact Hub.now_perform s.hub op
  | _ =>
    cases moved
    rfl

end JobPool
