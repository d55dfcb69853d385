/-
JobPool.Proofs.Pool.Step — what a move does, as changes of the pool.

Upkeep, calls and the lifecycle leave the driver alone, and no loop does anything
(`Site.Quiet`). A step of a loop does the deeds that `Site.takes`, `Site.finishes`,
`Site.loses` and `Site.publishes` tell of, and perhaps a panic cuts its run short; the
driver sees just that (`Site.Stepped`, `stepped_of_step`).

  §1 Quiet moves
  §2 Growth and upkeep
  §3 Calls and the lifecycle
  §4 Loops
  §5 All moves
  §6 Records and paths
-/
import JobPool.Proofs.Pool.Tasks
import JobPool.Proofs.Run.Playing

namespace JobPool

open Pool (Changes Deed)

namespace Site

/-! ## §1 Quiet moves -/

/-- From `s` to `s'` at most the deed `d` is done, and the driver is left alone. -/
structure Quiet (s : Site) (d : Option Deed) (s' : Site) : Prop where
  changes : ∃ ds, Changes s.pool ds s'.pool ∧ ∀ e ∈ ds, d = some e
  driver : s'.driver = s.driver

namespace Quiet

variable {s s' s'' : Site} {d : Option Deed}

theorem withPool {pool : Pool} (h : Changes s.pool [] pool) : s.Quiet d (s.withPool pool) :=
  ⟨⟨[], h, List.forall_mem_nil _⟩, rfl⟩

theorem refl (s : Site) (d : Option Deed) : s.Quiet d s := withPool (.refl s.pool)

theorem trans (first : s.Quiet d s') (second : s'.Quiet d s'') : s.Quiet d s'' := by
  obtain ⟨ds, changes, only⟩ := first.changes
  obtain ⟨es, changes', only'⟩ := second.changes
  refine ⟨⟨ds ++ es, changes.trans changes', fun e he => ?_⟩, second.driver.trans first.driver⟩
  exact (List.mem_append.1 he).elim (only e) (only' e)

theorem change {pool : Pool} (h : s.pool.Change d pool) : s.Quiet d (s.withPool pool) :=
  ⟨⟨_, .single h, fun _ he => Option.mem_toList.1 he⟩, rfl⟩

end Quiet

/-! ## §2 Growth and upkeep -/

theorem quiet_spawnWorkers (s : Site) {d : Option Deed} : s.Quiet d s.spawnWorkers.2 := by
  unfold spawnWorkers
  split
  · rename_i running
    exact Quiet.withPool (Pool.changes_grow running ..)
  · exact .refl s d

theorem quiet_modifyUpkeep (s : Site) (u : UpkeepId) {f : Upkeep → Upkeep}
    (token : ∀ k, (f k).token = k.token) {d : Option Deed} :
    s.Quiet d (s.withPool (s.pool.modifyUpkeep u f)) :=
  Quiet.withPool (.silent (.aside (.upkeep u token)))

theorem quiet_setWatcher (s : Site) (u : UpkeepId) (watcher : Watcher) {d : Option Deed} :
    s.Quiet d (s.setWatcher u watcher) :=
  s.quiet_modifyUpkeep u (f := fun k => { k with watcher }) fun _ => rfl

theorem quiet_setForwarder (s : Site) (u : UpkeepId) (forwarder : Forwarder) {d : Option Deed} :
    s.Quiet d (s.setForwarder u forwarder) :=
  s.quiet_modifyUpkeep u (f := fun k => { k with forwarder }) fun _ => rfl

theorem quiet_releaseStopped (s : Site) (w : WorkerId) {d : Option Deed} :
    s.Quiet d (s.releaseStopped w).2 := by
  unfold releaseStopped
  split
  · rename_i h
    refine Quiet.withPool (Pool.changes_releaseStopped s.wall fun k found => ?_)
    simpa [Pool.check, found] using h.2
  · exact .refl s d

theorem quiet_stepWatcher {s s' : Site} {u : UpkeepId} (h : s.stepWatcher u = some s') :
    s.Quiet none s' := by
  obtain ⟨k, watcher, s₁, -, patrols, rfl⟩ := patrols_of_stepWatcher h
  refine Quiet.trans ?_ (quiet_setWatcher ..)
  cases patrols with
  | @dismisses _ _ w _ _ _ _ reply | @spares _ _ w _ _ _ reply =>
    have released := s.quiet_releaseStopped w (d := none)
    rw [reply] at released
    exact released
  | grows =>
    split
    · exact s.quiet_spawnWorkers
    · exact .refl s none
  | _ => exact .refl s none

theorem quiet_checkWorker (s : Site) (w : WorkerId) {d : Option Deed} :
    s.Quiet d (s.checkWorker w).2 := by
  cases found : s.pool.workers[w]? with
  | none =>
    simp only [checkWorker, found]
    exact .refl s d
  | some k =>
    simp only [checkWorker, found]
    split
    · exact .withPool (.silent (.stop s.wall w))
    · exact .refl s d

theorem quiet_stepCheck {s s' : Site} {u : UpkeepId} {w : WorkerId}
    (h : s.stepCheck u w = some s') : s.Quiet none s' := by
  obtain ⟨k, watcher, -, -, rfl⟩ := inspects_of_stepCheck h
  exact (s.quiet_checkWorker w).trans (quiet_setWatcher ..)

/-- A step of a forwarder says how far it has come now; the bus may have heard of it. -/
theorem setForwarder_of_stepForwarder {s s' : Site} {u : UpkeepId}
    (h : s.stepForwarder u = some s') :
    ∃ hub forwarder, hub.now = s.hub.now ∧
      s' = ({ s with hub } : Site).setForwarder u forwarder := by
  have published : ∀ p next, ∃ hub forwarder, hub.now = s.hub.now ∧
      s.publishProgress u p next = ({ s with hub } : Site).setForwarder u forwarder := by
    intro p next
    have now := Hub.now_publish s.hub (.progress p)
    unfold publishProgress
    split <;> rename_i published <;> rw [published] at now <;> exact ⟨_, _, now, rfl⟩
  obtain ⟨k, -, reports⟩ := reports_of_stepForwarder h
  cases reports with
  | tells | finds => exact published ..
  | _ => exact ⟨s.hub, _, rfl, rfl⟩

theorem quiet_stepForwarder {s s' : Site} {u : UpkeepId} (h : s.stepForwarder u = some s') :
    s.Quiet none s' := by
  obtain ⟨hub, forwarder, -, rfl⟩ := setForwarder_of_stepForwarder h
  exact ⟨(s.quiet_setForwarder u forwarder).changes, rfl⟩

/-! ## §3 Calls and the lifecycle -/

/-- A call that goes on makes one change. -/
theorem change_stepCall {s s' : Site} {c : CallId} (h : s.stepCall c = some s') :
    ∃ pool, s' = s.withPool pool ∧ s.pool.Change (some (.called c)) pool := by
  obtain ⟨call, call', s₁, found, proceeds, rfl⟩ := proceeds_of_stepCall h
  cases proceeds with
  | halts ended => exact ⟨_, rfl, Pool.change_halt s.wall found ended⟩
  | drains ended => exact ⟨_, rfl, Pool.change_drain s.wall found ended rfl⟩
  | returns ended => exact ⟨_, rfl, .aside (.releaseReturns found ended)⟩

theorem quiet_stepCall {s s' : Site} {c : CallId} (h : s.stepCall c = some s') :
    s.Quiet (some (.called c)) s' := by
  obtain ⟨pool, rfl, change⟩ := change_stepCall h
  exact .change change

theorem quiet_start (s : Site) : s.Quiet (some .started) s.start.2 := by
  unfold start
  split
  · exact .refl s _
  · exact .refl s _
  all_goals
    rename_i status
    refine Quiet.trans (.change (.aside (.start s.wall ?_))) (quiet_spawnWorkers _)
    simp [status]

theorem quiet_beginStop (s : Site) : s.Quiet (some .stopBegan) s.beginStop.2 := by
  unfold beginStop
  split
  · rename_i running
    exact .change (.aside (.beginStop _ running))
  · exact .refl s _

theorem quiet_beginRelease (s : Site) : s.Quiet (some .releaseBegan) s.beginRelease.2 := by
  unfold beginRelease
  split
  · exact .refl s _
  · rename_i unreleased
    exact .change (.aside (.beginRelease _ unreleased))

theorem quiet_abandon (s : Site) : s.Quiet none s.abandon :=
  .withPool (.silent (.aside .abandon))

theorem changes_dispatch (s : Site) (job : Job) : Changes s.pool [] (s.dispatch job).2.pool := by
  unfold dispatch
  split
  · exact .refl s.pool
  · exact .refl s.pool
  · split
    · exact .refl s.pool
    · rename_i driver _
      split
      · obtain ⟨ds, changes, silent⟩ :=
          (quiet_spawnWorkers ({ s with driver }.withPool s.pool.notifyAll) (d := none)).changes
        obtain rfl := List.eq_nil_iff_forall_not_mem.2 fun e he => nomatch silent e he
        exact .before .notify changes
      · exact .refl s.pool

/-! ## §4 Loops -/

/-- What becomes of the driver in a step of a task. -/
inductive DriverStep (s : Site) (t : PoolTask) (driver : Driver Job) : Prop where
  | untouched (takes : s.takes t = none) (finishes : s.finishes t = none)
      (same : driver = s.driver)
  /-- A loop that may take a job wants one. -/
  | asked {i : LoopId} {l : Loop} (found : s.pool.loops[i]? = some l)
      (mayTake : s.pool.mayTake l = true) (takes : s.takes t = s.driver.dequeue.1)
      (finishes : s.finishes t = none) (after : driver = s.driver.dequeue.2)
  /-- An outcome is recorded. -/
  | told {job : Job} {success : Bool} (takes : s.takes t = none)
      (finishes : s.finishes t = some (job, success)) (after : driver = s.driver.complete success)

/-- The deeds that a task does. A loop parks only where no job waits. -/
def Own (s : Site) : PoolTask → Deed → Prop
  | .loop i, d => d.loop? = some i ∧ (d = .parked i → s.driver.dequeue.1 = none)
  | .call c, d => d = .called c
  | _, _ => False

/-- What a step of a task does: the deeds `ds`, and the driver is only asked and told
of them. Runs are cut short only by a panic while an event is delivered, and at once if their
deadline is not on the clock. -/
structure Stepped (s : Site) (t : PoolTask) (ds : List Deed) (s' : Site) : Prop where
  changes : Changes s.pool ds s'.pool
  own : ∀ d ∈ ds, s.Own t d
  taken : Deed.takenIn ds = (s.takes t).toList
  told : ∀ i, t = .loop i → Deed.toldIn ds = (s.publishes t).toList
  finished : Deed.finishedIn ds = (s.finishes t).toList
  lost : Deed.lostIn ds = (s.loses t).toList
  clocked : ∀ i job onClock, .took i job onClock ∈ ds → onClock = s.onClock job
  calm : (∀ ev ∈ s.publishes t, s.hub.bus.IsCalm ev.topic) → Deed.Uncut ds
  driver : s.DriverStep t s'.driver

/-- A task that is not a loop does nothing with a job. -/
theorem Quiet.stepped {s s' : Site} {t : PoolTask} {d : Option Deed} (h : s.Quiet d s')
    (loopless : ∀ i, t ≠ .loop i) (own : ∀ e ∈ d, s.Own t e ∧ e.loop? = none)
    (takes : s.takes t = none) (finishes : s.finishes t = none) (loses : s.loses t = none) :
    ∃ ds, s.Stepped t ds s' := by
  obtain ⟨ds, changes, only⟩ := h.changes
  have unlooped : ∀ e ∈ ds, e.loop? = none := fun e he => (own e (only e he)).2
  obtain ⟨⟨untaken, unfinished, unlost⟩, unbroken⟩ := Deed.spec_of_loopless unlooped
  refine ⟨ds, changes, fun e he => (own e (only e he)).1, ?_,
    fun i same => absurd same (loopless i), ?_, ?_, fun i job onClock took => ?_,
    fun _ => unbroken.uncut, .untouched takes finishes h.driver⟩
  · rw [takes]
    exact untaken
  · rw [finishes]
    exact unfinished
  · rw [loses]
    exact unlost
  · cases unlooped _ took

/-- A step that does nothing but change the pool. -/
theorem Stepped.of_silent {s s' : Site} {t : PoolTask} (change : s.pool.Change none s'.pool)
    (takes : s.takes t = none) (publishes : s.publishes t = none) (finishes : s.finishes t = none)
    (loses : s.loses t = none) (driver : s'.driver = s.driver) : s.Stepped t [] s' where
  changes := .silent change
  own := List.forall_mem_nil _
  taken := by rw [takes]; rfl
  told _ _ := by rw [publishes]; rfl
  finished := by rw [finishes]; rfl
  lost := by rw [loses]; rfl
  clocked _ _ _ took := absurd took List.not_mem_nil
  calm _ := Deed.unbroken_nil.uncut
  driver := .untouched takes finishes driver

/-- A step that does one deed. -/
theorem Stepped.of_deed {s s' : Site} {t : PoolTask} {d : Deed}
    (change : s.pool.Change (some d) s'.pool) (own : s.Own t d) (taken : s.takes t = d.taken?)
    (told : s.publishes t = d.told?) (finished : s.finishes t = d.finished?)
    (lost : s.loses t = d.lost?)
    (clocked : ∀ i job onClock, d = .took i job onClock → onClock = s.onClock job)
    (calm : (∀ ev ∈ s.publishes t, s.hub.bus.IsCalm ev.topic) → d.isBreak = false)
    (driver : s.DriverStep t s'.driver) : s.Stepped t [d] s' where
  changes := .single change
  own := List.forall_mem_singleton.2 own
  taken := by rw [taken, Deed.takenIn, List.filterMap_cons]; cases d.taken? <;> rfl
  told _ _ := by rw [told, Deed.toldIn, List.filterMap_cons]; cases d.told? <;> rfl
  finished := by rw [finished, Deed.finishedIn, List.filterMap_cons]; cases d.finished? <;> rfl
  lost := by rw [lost, Deed.lostIn, List.filterMap_cons]; cases d.lost? <;> rfl
  clocked i job onClock took := clocked i job onClock (List.mem_singleton.1 took).symm
  calm calmly := List.forall_mem_singleton.2 (calm calmly)
  driver := driver

/-- The run of a loop takes its turn; a panic out of an event chain may cut it short. -/
theorem turn_of_stepRun {s s' : Site} {i : LoopId} {r : Run} (h : s.stepRun i r = some s') :
    s'.driver = s.driver ∧ ∃ t run, r.turn s.picks s.now s.pool.tokens = some t ∧
      s'.pool = s.pool.afterTurn i t run ∧
      (run = t.next ∨ run = { t.next with phase := .unwound }) ∧
      ((∀ ev ∈ t.event, s.hub.bus.IsCalm ev.topic) → run = t.next) := by
  obtain ⟨⟨stage, run⟩, stepped, rfl⟩ := Option.map_eq_some_iff.1 h
  obtain ⟨t, turn, played⟩ := Option.map_eq_some_iff.1 stepped
  obtain ⟨tokens, begun, -, -⟩ := s.stage.play_stage t
  have goes := s.stage.play_run t
  have calm := Stage.play_run_of_isCalm (s := s.stage) (t := t)
  rw [played] at tokens begun goes calm
  have tokens : stage.tokens = t.tokens := tokens
  have begun : stage.begun = s.pool.begun ++ t.begun.toList := begun
  refine ⟨rfl, t, run, turn, ?_, goes, calm⟩
  simp only [withStage, withPool, Pool.setPhase, Pool.afterTurn, tokens, begun]

/-- The run of a loop takes its turn, unless a listener panics. -/
theorem change_stepRun {s s' : Site} {i : LoopId} {l : Loop} {run : Run}
    (found : s.pool.loops[i]? = some l) (running : l.phase = .running run)
    (h : s.stepRun i run = some s') :
    s'.driver = s.driver ∧ ∃ t d, run.turn s.picks s.now s.pool.tokens = some t ∧
      s.pool.Change (some d) s'.pool ∧ (d = .ran i t ∨ d = .broke i t) ∧
      ((∀ ev ∈ t.event, s.hub.bus.IsCalm ev.topic) → d = .ran i t) := by
  obtain ⟨driver, t, run', turn, pool, goes, calm⟩ := turn_of_stepRun h
  refine ⟨driver, t, ?_⟩
  rw [pool]
  by_cases same : run' = t.next
  · rw [same]
    exact ⟨_, turn, .run found running turn, .inl rfl, fun _ => rfl⟩
  · rw [goes.resolve_left same]
    exact ⟨_, turn, .cutShort found running turn, .inr rfl,
      fun allCalm => absurd (calm allCalm) same⟩

/-- A loop takes up a job and announces it; a panic may cut the run short after that. -/
theorem stepped_begins {s s' : Site} {i : LoopId} {l : Loop} {job : Job} {driver : Driver Job}
    (found : s.pool.loops[i]? = some l) (looking : l.phase = .looking)
    (mayTake : s.pool.mayTake l = true) (oldest : s.driver.dequeue = (some job, driver))
    (onClock : s.onClock job = true)
    (announces : (s.inHand i l job driver).stepRun i (.start job s.pool.settings.job s.now) =
      some s') : ∃ ds, s.Stepped (.loop i) ds s' := by
  let run := Run.start job s.pool.settings.job s.now
  let up := s.inHand i l job driver
  have free := Loop.free_of_looking looking
  have takes : s.takes (.loop i) = some job := by
    rw [takes_of_looking found looking mayTake, oldest]
  have finishes := finishes_of_free found free
  have loses := loses_of_free found free
  have publishes : s.publishes (.loop i) = some (.before job) := by
    simp [publishes_of_free found free, takes, onClock]
  have take : s.pool.Change (some (.took i job true)) up.pool :=
    onClock ▸ .take job s.now found looking mayTake
  have opening : run.phase = .opening := Run.phase_start_of_onClock onClock
  have found' : up.pool.loops[i]? = some { l with phase := .running run } := by
    simp [up, inHand, Pool.setPhase, Pool.modifyWorker, found, run]
  have due : run.turn up.picks up.now up.pool.tokens =
      some ⟨up.pool.tokens, none, [], some (.before job), { run with phase := .ready }⟩ := by
    simp only [Run.turn, opening]
    rfl
  obtain ⟨driver_eq, t, d, turn, change, kinds, calm⟩ := change_stepRun found' rfl announces
  obtain rfl := Option.some.inj (due.symm.trans turn)
  have kind : d.loop? = some i ∧ d ≠ .parked i ∧ d.taken? = none ∧
      d.told? = some (.before job) ∧ d.finished? = none ∧ d.lost? = none := by
    rcases kinds with rfl | rfl <;> exact ⟨rfl, by simp, rfl, rfl, rfl, rfl⟩
  obtain ⟨loop, unparked, untaken, told, unfinished, unlost⟩ := kind
  refine ⟨[.took i job true, d], .head take (.single change), ?_, ?_, fun _ _ => ?_, ?_, ?_, ?_,
    fun calmly => ?_, .asked found mayTake ?_ finishes ?_⟩
  · exact List.forall_mem_cons.2 ⟨⟨rfl, by simp⟩,
      List.forall_mem_singleton.2 ⟨loop, fun parked => absurd parked unparked⟩⟩
  · have took : (Deed.took i job true).taken? = some job := rfl
    rw [takes, Deed.takenIn, List.filterMap_cons_some took, List.filterMap_cons_none untaken]
    rfl
  · rw [publishes, Deed.toldIn, List.filterMap_cons_none rfl, List.filterMap_cons_some told]
    rfl
  · rw [finishes, Deed.finishedIn, List.filterMap_cons_none rfl,
      List.filterMap_cons_none unfinished]
    rfl
  · rw [loses, Deed.lostIn, List.filterMap_cons_none rfl, List.filterMap_cons_none unlost]
    rfl
  · intro j job' onClock' took
    rcases List.mem_cons.1 took with same | took
    · cases same
      exact onClock.symm
    · rw [← List.mem_singleton.1 took] at untaken
      cases untaken
  · have ran := calm fun ev hev => by
      obtain rfl := Option.some.inj hev
      exact calmly (.before job) publishes
    rw [ran]
    exact List.forall_mem_cons.2 ⟨rfl, List.forall_mem_singleton.2 rfl⟩
  · rw [takes, oldest]
  · rw [driver_eq, oldest]
    rfl

/-- The step of a loop whose run is not over. -/
theorem stepped_stepRun {s s' : Site} {i : LoopId} {l : Loop} {run : Run}
    (found : s.pool.loops[i]? = some l) (running : l.phase = .running run)
    (h : s.stepRun i run = some s') : ∃ ds, s.Stepped (.loop i) ds s' := by
  have takes : s.takes (.loop i) = none := takes_of_ne_looking found (by simp [running])
  obtain ⟨driver, t, d, turn, change, kinds, calm⟩ := change_stepRun found running h
  obtain ⟨finishes, loses⟩ := finishes_and_loses_of_turn found running turn
  have publishes : s.publishes (.loop i) = t.event := by
    rw [publishes_of_running found running, turn, Option.bind_some]
  have kind : d.loop? = some i ∧ d ≠ .parked i ∧ d.taken? = none ∧ d.told? = t.event ∧
      d.finished? = none ∧ d.lost? = none := by
    rcases kinds with rfl | rfl <;> exact ⟨rfl, by simp, rfl, rfl, rfl, rfl⟩
  obtain ⟨loop, unparked, untaken, told, unfinished, unlost⟩ := kind
  refine ⟨[d], .of_deed change ⟨loop, fun parked => absurd parked unparked⟩ ?_ ?_ ?_ ?_ ?_ ?_
    (.untouched takes finishes driver)⟩
  · rw [takes, untaken]
  · rw [publishes, told]
  · rw [finishes, unfinished]
  · rw [loses, unlost]
  · rintro _ _ _ rfl
    cases untaken
  · intro calmly
    rw [publishes] at calmly
    rw [calm calmly]
    rfl

/-- A step in which a loop records the outcome of its job. -/
theorem stepped_done {s s' : Site} {i : LoopId} {l : Loop} {run : Run} {success : Bool}
    (found : s.pool.loops[i]? = some l) (running : l.phase = .running run)
    (done : run.phase = .finished success)
    (change : s.pool.Change (some (.finished i run.job success)) s'.pool)
    (driver : s'.driver = s.driver.complete success) :
    s.Stepped (.loop i) [.finished i run.job success] s' := by
  have takes : s.takes (.loop i) = none := takes_of_ne_looking found (by simp [running])
  have finishes : s.finishes (.loop i) = some (run.job, success) := by
    simp [Site.finishes, found, running, done]
  have publishes : s.publishes (.loop i) = none :=
    publishes_of_still found running (by rw [Run.turn, done])
  have loses : s.loses (.loop i) = none := by simp [Site.loses, found, running, done]
  exact .of_deed change ⟨rfl, by simp⟩ takes publishes finishes loses
    (fun j job onClock took => by cases took) (fun _ => rfl) (.told takes finishes driver)

theorem stepped_of_stepLoop {s s' : Site} {i : LoopId} (h : s.stepLoop i = some s') :
    ∃ ds, s.Stepped (.loop i) ds s' := by
  obtain ⟨l, found, cycles⟩ := cycles_of_stepLoop h
  cases cycles with
  | ends free barred =>
    have takes := takes_of_barred found barred
    exact ⟨[], .of_silent (.endLoop s.wall found free barred) takes
      (publishes_of_idle found free takes) (finishes_of_free found free)
      (loses_of_free found free) rfl⟩
  | parks looking mayTake empty =>
    have free := Loop.free_of_looking looking
    have finishes := finishes_of_free found free
    have takes : s.takes (.loop i) = none := by
      rw [takes_of_looking found looking mayTake, empty]
    refine ⟨[.parked i], .of_deed (.park _ found looking) ⟨rfl, fun _ => by rw [empty]⟩ takes
      (publishes_of_idle found free takes) finishes (loses_of_free found free)
      (fun j job onClock took => by cases took) (fun _ => rfl)
      (.asked found mayTake ?_ finishes ?_)⟩
    · rw [takes, empty]
    · rw [empty]
  | wakes parked =>
    have free := Loop.free_of_parked parked
    have takes : s.takes (.loop i) = none := takes_of_ne_looking found (by simp [parked])
    exact ⟨[], .of_silent (.wake found parked) takes (publishes_of_idle found free takes)
      (finishes_of_free found free) (loses_of_free found free) rfl⟩
  | @strays job driver looking mayTake oldest offClock =>
    have free := Loop.free_of_looking looking
    have finishes := finishes_of_free found free
    have takes : s.takes (.loop i) = some job := by
      rw [takes_of_looking found looking mayTake, oldest]
    have publishes : s.publishes (.loop i) = none := by
      simp [publishes_of_free found free, takes, offClock]
    have take : s.pool.Change (some (.took i job false)) (s.inHand i l job driver).pool :=
      offClock ▸ .take job s.now found looking mayTake
    refine ⟨[.took i job false], .of_deed take ⟨rfl, by simp⟩ takes publishes finishes
      (loses_of_free found free) ?_ (fun _ => rfl) (.asked found mayTake ?_ finishes ?_)⟩
    · rintro _ _ _ ⟨⟩
      exact offClock.symm
    · rw [takes, oldest]
    · rw [oldest]
      rfl
  | begins looking mayTake oldest onClock announces =>
    exact stepped_begins found looking mayTake oldest onClock announces
  | runs running goes => exact stepped_stepRun found running goes
  | @crashes run running unwound =>
    have takes : s.takes (.loop i) = none := takes_of_ne_looking found (by simp [running])
    have finishes : s.finishes (.loop i) = none := by simp [Site.finishes, found, running, unwound]
    have publishes : s.publishes (.loop i) = none :=
      publishes_of_still found running (by rw [Run.turn, unwound])
    have loses : s.loses (.loop i) = some run.job := by simp [Site.loses, found, running, unwound]
    exact ⟨[.lost i run.job], .of_deed (.crash found running unwound) ⟨rfl, by simp⟩ takes publishes
      finishes loses (fun j job onClock took => by cases took) (fun _ => rfl)
      (.untouched takes finishes rfl)⟩
  | finishes running done current =>
    exact ⟨_, stepped_done found running done (.finish s.wall found running done current) rfl⟩
  | finishesLate running done outdated =>
    exact ⟨_, stepped_done found running done (.finishLate s.wall found running done outdated) rfl⟩

/-! ## §5 All moves -/

theorem stepped_of_step {s s' : Site} {t : PoolTask} (h : s.step t = some s') :
    ∃ ds, s.Stepped t ds s' := by
  cases t with
  | loop i => exact stepped_of_stepLoop h
  | watcher u => exact (quiet_stepWatcher h).stepped nofun (by simp) rfl rfl rfl
  | check u w => exact (quiet_stepCheck h).stepped nofun (by simp) rfl rfl rfl
  | forwarder u => exact (quiet_stepForwarder h).stepped nofun (by simp) rfl rfl rfl
  | call c =>
    refine (quiet_stepCall h).stepped nofun (fun e he => ?_) rfl rfl rfl
    obtain rfl := Option.some.inj he
    exact ⟨rfl, rfl⟩

/-- The jobs that a move takes from the driver for loops. -/
def takenBy (s : Site) : Move → List Job
  | .task t => (s.takes t).toList
  | _ => []

/-- Those of them whose deadlines are on the clock. -/
def reckonedBy (s : Site) (m : Move) : List Job := (s.takenBy m).filter s.onClock

/-- The jobs whose outcomes a move records for loops. -/
def finishedBy (s : Site) : Move → List (Job × Bool)
  | .task t => (s.finishes t).toList
  | _ => []

/-- The jobs that loops lose in a move. -/
def lostBy (s : Site) : Move → List Job
  | .task t => (s.loses t).toList
  | _ => []

theorem loses_of_takes {s : Site} {t : PoolTask} {job : Job} (takes : s.takes t = some job) :
    s.loses t = none := by
  cases t with
  | loop i =>
    cases found : s.pool.loops[i]? with
    | none => simp [loses, found]
    | some l => cases phase : l.phase <;> simp_all [Site.takes, loses]
  | _ => rfl

theorem loses_of_finishes {s : Site} {t : PoolTask} {x : Job × Bool}
    (finishes : s.finishes t = some x) : s.loses t = none := by
  cases t with
  | loop i =>
    cases found : s.pool.loops[i]? with
    | none => simp [loses, found]
    | some l =>
      cases phase : l.phase with
      | running run => cases stands : run.phase <;> simp_all [Site.finishes, loses]
      | _ => simp [loses, found, phase]
  | _ => rfl

theorem taken_record (s : Site) (r : Record) (m : Move) :
    (s.record r m).taken = r.taken ++ s.takenBy m := by
  cases m <;> simp [record, takenBy]
  split <;> rfl

theorem finished_record (s : Site) (r : Record) (m : Move) :
    (s.record r m).finished = r.finished ++ s.finishedBy m := by
  cases m <;> simp [record, finishedBy]
  split <;> rfl

/-- No listener attached to the topic of the event of a step panics while it is made. -/
def Calm (s : Site) (m : Move) : Prop :=
  ∀ t, m = .task t → ∀ ev ∈ s.publishes t, s.hub.bus.IsCalm ev.topic

instance (bus : ScriptBus) (topic : String) : Decidable (bus.IsCalm topic) :=
  match found : bus.chain? topic with
  | none => isTrue fun _ found' => nomatch found.symm.trans found'
  | some chain =>
    decidable_of_iff (∀ l ∈ chain.listeners, l.panicOnMake = none)
      ⟨fun h _ found' => Option.some.inj (found.symm.trans found') ▸ h, fun h => h chain found⟩

instance (s : Site) : (m : Move) → Decidable (s.Calm m)
  | .task t =>
    decidable_of_iff (∀ ev ∈ s.publishes t, s.hub.bus.IsCalm ev.topic)
      ⟨fun h _ same => Move.task.inj same ▸ h, fun h => h t rfl⟩
  | .start | .beginStop | .beginRelease | .spawnWorkers | .dispatch _ | .stopWorker _ | .abandon
  | .clear | .enqueue _ | .take | .complete _ | .bus _ | .pass _ _ =>
    isTrue fun _ same => nomatch same

/-- The clock can tell the deadline of a job that a loop takes up in the move. -/
def OnClock (s : Site) (m : Move) : Prop := ∀ job ∈ s.takenBy m, s.onClock job = true

theorem onClock_eq (s : Site) (job : Job) :
    s.onClock job = Run.onClock job s.pool.settings.job s.now := rfl

instance (s : Site) (m : Move) : Decidable (s.OnClock m) :=
  inferInstanceAs (Decidable (∀ job ∈ s.takenBy m, s.onClock job = true))

/-- Nothing panics in the move that could cut a run short: no listener and not the clock. -/
structure Smooth (s : Site) (m : Move) : Prop where
  calm : s.Calm m
  onClock : s.OnClock m

instance (s : Site) (m : Move) : Decidable (s.Smooth m) :=
  decidable_of_iff (s.Calm m ∧ s.OnClock m) ⟨fun h => ⟨h.1, h.2⟩, fun h => ⟨h.calm, h.onClock⟩⟩

/-- The deeds that a move does. -/
def May (s : Site) : Move → Deed → Prop
  | .task t, d => s.Own t d
  | .start, d => d = .started
  | .beginStop, d => d = .stopBegan
  | .beginRelease, d => d = .releaseBegan
  | _, _ => False

/-- What a move does to a pool: the deeds `ds`, which are those recorded. -/
structure Does (s : Site) (m : Move) (ds : List Deed) (s' : Site) : Prop where
  changes : Changes s.pool ds s'.pool
  may : ∀ d ∈ ds, s.May m d
  taken : Deed.takenIn ds = s.takenBy m
  told : ∀ i, m = .task (.loop i) → Deed.toldIn ds = (s.publishes (.loop i)).toList
  finished : Deed.finishedIn ds = s.finishedBy m
  lost : Deed.lostIn ds = s.lostBy m
  clocked : ∀ i job onClock, .took i job onClock ∈ ds → onClock = s.onClock job
  calm : s.Calm m → Deed.Uncut ds

theorem Does.reckoned {s s' : Site} {m : Move} {ds : List Deed} (h : s.Does m ds s') :
    Deed.reckonedIn ds = s.reckonedBy m := by
  rw [Deed.reckonedIn_eq h.clocked, h.taken, reckonedBy]

/-- Only a step of the loop takes a job for it. -/
theorem Does.strays {s s' : Site} {m : Move} {ds : List Deed} (h : s.Does m ds s') {i : LoopId}
    {job : Job} (took : .took i job false ∈ ds) :
    m = .task (.loop i) ∧ s.takes (.loop i) = some job ∧ s.onClock job = false := by
  have taken : job ∈ Deed.takenIn ds := List.mem_filterMap.2 ⟨_, took, rfl⟩
  rw [h.taken] at taken
  have may := h.may _ took
  cases m with
  | task t =>
    cases t with
    | loop j =>
      obtain rfl : i = j := Option.some.inj may.1
      exact ⟨rfl, Option.mem_toList.1 taken, (h.clocked i job false took).symm⟩
    | _ => cases may
  | _ => cases may

/-- A move in which nothing panics cuts no run short. -/
theorem Does.unbroken {s s' : Site} {m : Move} {ds : List Deed} (h : s.Does m ds s')
    (smooth : s.Smooth m) : Deed.Unbroken ds := by
  refine ⟨h.calm smooth.calm, fun d hd => ?_⟩
  cases d with
  | took i job tells =>
    have taken : job ∈ Deed.takenIn ds := List.mem_filterMap.2 ⟨_, hd, rfl⟩
    rw [h.taken] at taken
    simp [Deed.isStray, h.clocked i job tells hd, smooth.onClock job taken]
  | _ => rfl

/-- A move that is not a step of a task does nothing with a job. -/
theorem does_of_changes {s s' : Site} {m : Move} {d : Option Deed}
    (h : ∃ ds, Changes s.pool ds s'.pool ∧ ∀ e ∈ ds, d = some e) (taskless : ∀ t, m ≠ .task t)
    (may : ∀ e ∈ d, s.May m e ∧ e.loop? = none) : ∃ ds, s.Does m ds s' := by
  obtain ⟨ds, changes, only⟩ := h
  have unlooped : ∀ e ∈ ds, e.loop? = none := fun e he => (may e (only e he)).2
  obtain ⟨⟨untaken, unfinished, unlost⟩, unbroken⟩ := Deed.spec_of_loopless unlooped
  refine ⟨ds, changes, fun e he => (may e (only e he)).1, untaken.trans ?_,
    fun i same => absurd same (taskless _), unfinished.trans ?_, unlost.trans ?_,
    fun i job onClock took => (nomatch unlooped _ took), fun _ => unbroken.uncut⟩
  all_goals
    cases m with
    | task t => exact absurd rfl (taskless t)
    | _ => rfl

/-- Whatever the move is, the pool only changes, and the deeds are those recorded. -/
theorem changes_of_move {s s' : Site} {m : Move} (h : s.move m = some s') :
    ∃ ds, s.Does m ds s' := by
  have silent : ∀ {pool : Pool}, Changes s.pool [] pool →
      ∃ ds, Changes s.pool ds pool ∧ ∀ e ∈ ds, none = some e :=
    fun h => ⟨[], h, List.forall_mem_nil _⟩
  cases m with
  | task t =>
    obtain ⟨ds, stepped⟩ := stepped_of_step h
    refine ⟨ds, stepped.changes, stepped.own, stepped.taken, fun i same => ?_, stepped.finished,
      stepped.lost, stepped.clocked, fun calm => stepped.calm (calm t rfl)⟩
    cases same
    exact stepped.told i rfl
  | start =>
    cases h
    exact does_of_changes s.quiet_start.changes nofun (by simp [May, Deed.loop?])
  | beginStop =>
    cases h
    exact does_of_changes s.quiet_beginStop.changes nofun (by simp [May, Deed.loop?])
  | beginRelease =>
    cases h
    exact does_of_changes s.quiet_beginRelease.changes nofun (by simp [May, Deed.loop?])
  | spawnWorkers =>
    cases h
    exact does_of_changes (d := none) s.quiet_spawnWorkers.changes nofun (by simp)
  | dispatch job =>
    cases h
    exact does_of_changes (silent (s.changes_dispatch job)) nofun (by simp)
  | stopWorker w =>
    cases h
    exact does_of_changes (silent (.silent (.stop s.wall w))) nofun (by simp)
  | abandon => cases h; exact does_of_changes s.quiet_abandon.changes nofun (by simp)
  | clear => cases h; exact does_of_changes (silent (.refl s.pool)) nofun (by simp)
  | enqueue job => cases h; exact does_of_changes (silent (.refl s.pool)) nofun (by simp)
  | take => cases h; exact does_of_changes (silent (.refl s.pool)) nofun (by simp)
  | complete success =>
    cases h
    exact does_of_changes (silent (.refl s.pool)) nofun (by simp)
  | bus op => cases h; exact does_of_changes (silent (.refl s.pool)) nofun (by simp)
  | pass time wall => cases h; exact does_of_changes (silent (.refl s.pool)) nofun (by simp)

end Site

/-! ## §6 Records and paths -/

/-- A run of a pool is a row of changes, and its record has the deeds. No run is cut short
among them if the pool was calm and all deadlines were on the clock. -/
theorem deeds_of_reached {start s : Site} {allowed : Site → Move → Prop} {r : Record}
    (h : Reached start allowed s r) :
    ∃ ds, Changes start.pool ds s.pool ∧ Deed.takenIn ds = r.taken ∧
      Deed.finishedIn ds = r.finished ∧
      ((∀ s m, allowed s m → s.Smooth m) → Deed.Unbroken ds) := by
  induction h with
  | here => exact ⟨[], .refl start.pool, rfl, rfl, fun _ => Deed.unbroken_nil⟩
  | step m _ isAllowed moved ih =>
    obtain ⟨ds, changes, taken, finished, unbroken⟩ := ih
    obtain ⟨es, does⟩ := Site.changes_of_move moved
    refine ⟨ds ++ es, changes.trans does.changes, ?_, ?_, fun allow => ?_⟩
    · rw [Site.taken_record, Deed.takenIn, List.filterMap_append, ← taken, ← does.taken]
      rfl
    · rw [Site.finished_record, Deed.finishedIn, List.filterMap_append, ← finished, ← does.finished]
      rfl
    · exact (unbroken allow).append (does.unbroken (allow _ _ isAllowed))

theorem changes_of_reached {start s : Site} {allowed : Site → Move → Prop} {r : Record}
    (h : Reached start allowed s r) :
    ∃ ds, Changes start.pool ds s.pool ∧ Deed.takenIn ds = r.taken ∧
      Deed.finishedIn ds = r.finished := by
  obtain ⟨ds, changes, taken, finished, -⟩ := deeds_of_reached h
  exact ⟨ds, changes, taken, finished⟩

namespace Path

/-- What moves from `start` to `s` do to a pool: the deeds `ds`, and those of each loop are
what it takes, tells and records on the way. -/
structure Does (start : Site) (ms : List (Site × Move)) (ds : List Deed) (s : Site) : Prop where
  changes : Changes start.pool ds s.pool
  may : ∀ d ∈ ds, ∃ x ∈ ms, x.1.May x.2 d
  reckoned : ∀ i, Deed.reckonedIn (Deed.doneBy i ds) = reckonedBy i ms
  strayed : ∀ i job, .took i job false ∈ ds → job ∈ strayedBy i ms
  told : ∀ i, Deed.toldIn (Deed.doneBy i ds) = toldBy i ms
  finished : ∀ i, Deed.finishedIn (Deed.doneBy i ds) = finishedBy i ms
  uncut : (∀ x ∈ ms, x.1.Calm x.2) → Deed.Uncut ds

theorem isStepOf_iff {i : LoopId} {m : Move} : m.isStepOf i = true ↔ m = .task (.loop i) := by
  cases m with
  | task t =>
    cases t with
    | loop j =>
      simp only [Move.isStepOf, beq_iff_eq, Move.task.injEq, PoolTask.loop.injEq]
      exact eq_comm
    | _ => simp [Move.isStepOf]
  | _ => simp [Move.isStepOf]

theorem filterMap_stepsOf_concat {β : Type} (i : LoopId) (ms : List (Site × Move)) (s : Site)
    (m : Move) (f : Site × Move → Option β) :
    (stepsOf i (ms ++ [(s, m)])).filterMap f =
      (stepsOf i ms).filterMap f ++ if m.isStepOf i then (f (s, m)).toList else [] := by
  rw [stepsOf, List.filter_append, List.filterMap_append]
  cases step : m.isStepOf i with
  | false => simp [stepsOf, step]
  | true => cases value : f (s, m) <;> simp [stepsOf, step, value]

/-- Only steps of a loop do deeds of the loop, and they do no others. -/
theorem doneBy_of_does {s s' : Site} {m : Move} {ds : List Deed} (h : s.Does m ds s') (i : LoopId) :
    Deed.doneBy i ds = if m.isStepOf i then ds else [] := by
  cases step : m.isStepOf i with
  | true =>
    obtain rfl := isStepOf_iff.1 step
    refine List.filter_eq_self.2 fun d hd => ?_
    have own : d.loop? = some i := (h.may d hd).1
    simp [own]
  | false =>
    refine List.filter_eq_nil_iff.2 fun d hd own => ?_
    have own : d.loop? = some i := by simpa using own
    have may := h.may d hd
    cases m with
    | task t =>
      cases t with
      | loop j =>
        obtain rfl : i = j := Option.some.inj (own.symm.trans may.1)
        simp [Move.isStepOf] at step
      | call c =>
        rw [show d = .called c from may] at own
        cases own
      | watcher u => exact may
      | check u w => exact may
      | forwarder u => exact may
    | start =>
      rw [show d = .started from may] at own
      cases own
    | beginStop =>
      rw [show d = .stopBegan from may] at own
      cases own
    | beginRelease =>
      rw [show d = .releaseBegan from may] at own
      cases own
    | _ => exact may

theorem does {start s : Site} {ms : List (Site × Move)} (path : Path start ms s) :
    ∃ ds, Does start ms ds s := by
  induction path with
  | here =>
    exact ⟨[], .refl start.pool, List.forall_mem_nil _, fun _ => rfl, nofun, fun _ => rfl,
      fun _ => rfl, fun _ => List.forall_mem_nil _⟩
  | @step s s' ms m _ moved ih =>
    obtain ⟨ds, went⟩ := ih
    obtain ⟨es, does⟩ := Site.changes_of_move moved
    have split : ∀ i, Deed.doneBy i (ds ++ es) =
        Deed.doneBy i ds ++ if m.isStepOf i then es else [] := by
      intro i
      rw [Deed.doneBy, List.filter_append, ← doneBy_of_does does]
      rfl
    refine ⟨ds ++ es, went.changes.trans does.changes, fun d hd => ?_, ?_, fun i job took => ?_, ?_,
      ?_, fun calm => ?_⟩
    · rcases List.mem_append.1 hd with hd | hd
      · obtain ⟨x, hx, may⟩ := went.may d hd
        exact ⟨x, List.mem_append_left _ hx, may⟩
      · exact ⟨(s, m), by simp, does.may d hd⟩
    · intro i
      refine .trans ?_ (filterMap_stepsOf_concat i ms s m _).symm
      rw [split, Deed.reckonedIn_append, went.reckoned i]
      refine congrArg (reckonedBy i ms ++ ·) ?_
      split
      · rename_i step
        obtain rfl := isStepOf_iff.1 step
        rw [does.reckoned, Site.reckonedBy, Site.takenBy]
        cases s.takes (.loop i) with
        | none => rfl
        | some job => cases onClock : s.onClock job <;> simp [Option.filter, onClock]
      · rfl
    · rw [strayedBy, filterMap_stepsOf_concat]
      refine List.mem_append.2 ((List.mem_append.1 took).imp (went.strayed i job) fun took => ?_)
      obtain ⟨own, taken, offClock⟩ := does.strays took
      subst own
      simp [Move.isStepOf, taken, offClock]
    · intro i
      refine .trans ?_ (filterMap_stepsOf_concat i ms s m _).symm
      rw [split, Deed.toldIn_append, went.told i]
      refine congrArg (toldBy i ms ++ ·) ?_
      split
      · rename_i step
        exact does.told i (isStepOf_iff.1 step)
      · rfl
    · intro i
      refine .trans ?_ (filterMap_stepsOf_concat i ms s m _).symm
      rw [split, Deed.finishedIn_append, went.finished i]
      refine congrArg (finishedBy i ms ++ ·) ?_
      split
      · rename_i step
        obtain rfl := isStepOf_iff.1 step
        exact does.finished
      · rfl
    · exact List.forall_mem_append.2 ⟨went.uncut fun x hx => calm x (List.mem_append_left _ hx),
        does.calm (calm (s, m) (by simp))⟩

end Path
end JobPool
