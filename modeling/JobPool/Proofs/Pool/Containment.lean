/-
JobPool.Proofs.Pool.Containment — which panics of listeners a dispatch contains.

A link may panic while it handles an event, and the dispatch goes on. A panic while a
listener is made is not contained: it comes out of the dispatch, and if a run published
the event, the loop of the worker crashes with the job in its hands. But for a deadline
that is not on the clock that is the only way in which a loop crashes
(`unharmed_of_reached`): without either every job that is taken is held until its one
outcome is recorded, and then the worker is free.
-/
import JobPool.Proofs.Bus.Passage
import JobPool.Proofs.Pool.Conservation

namespace JobPool

open Pool (Changes Deed)

/-! ## Pools whose listeners can be made -/

namespace Site

/-- Where nothing panics no run is cut short, and each job taken is held or done. -/
theorem smooth_of_reached {start s : Site} {r : Record}
    (steady : start.pool.Steady fun _ _ => False) (idle : start.held = [])
    (reached : Reached start Smooth s r) :
    (s.pool.Steady fun _ _ => False) ∧ r.taken.Perm (s.held ++ r.finished.map Prod.fst) := by
  obtain ⟨ds, changes, taken, finished, unbroken⟩ := deeds_of_reached reached
  have steadily := steady.of_unbroken changes (unbroken fun _ _ smooth => smooth)
  have held := held_of_changes changes
  have unlost : ∀ job, job ∉ Deed.lostIn ds := fun job hj => (steadily.lost job hj).elim fun _ => id
  rw [taken, finished, List.eq_nil_iff_forall_not_mem.2 unlost, idle] at held
  refine ⟨steadily.steady, Multiset.coe_eq_coe.1 ?_⟩
  rw [← Multiset.coe_add]
  exact ((zero_add _).symm.trans held).trans (add_zero _)

/-- Where the run of a loop has ended, the next step of the loop records its outcome and
frees the worker. -/
theorem step_of_finished {s : Site} (sound : s.pool.Sound) {i : LoopId} {l : Loop} {run : Run}
    {success : Bool} (found : s.pool.loops[i]? = some l) (running : l.phase = .running run)
    (done : run.phase = .finished success) :
    ∃ s' l' k, s.step (.loop i) = some s' ∧ s'.driver = s.driver.complete success ∧
      s'.pool.loops[i]? = some l' ∧ l'.isBusy = false ∧
      s'.pool.workers[l.worker]? = some k ∧ k.isWorking = false := by
  obtain ⟨k, carrier, fits⟩ := sound.fitting found
  have current := fits.current_of_busy (Loop.busy_of_running running)
  have checked : s.pool.check (·.generation == l.generation) l.worker = true := by
    simp [Pool.check, carrier, current]
  have stepped : s.step (.loop i) = some (s.finishJob i l success) := by
    simp [Site.step, stepLoop, found, running, done]
  cases cancelled : s.pool.tokens.isCancelled l.token with
  | false =>
    refine ⟨_, { l with phase := .looking }, k.finish false s.wall, stepped, ?_⟩
    simp [finishJob, checked, cancelled, withPool, Pool.setPhase, Pool.modifyWorker, found, carrier,
      Loop.isBusy, Worker.finish, Worker.isWorking]
  | true =>
    refine ⟨_, { l with phase := .ended }, k.finish true s.wall, stepped, ?_⟩
    simp [finishJob, checked, cancelled, endLoop, withPool, Pool.setPhase, Pool.modifyWorker, found,
      carrier, Loop.isBusy, Worker.finish, Worker.markStopped, Worker.isWorking, Worker.isStopped]

/-- No loop of the pool came to harm: none crashed and none is about to, each job that was
taken is held or done, and outcomes are recorded once, where runs end. -/
structure Unharmed (s : Site) (r : Record) : Prop where
  standing : ∀ l ∈ s.pool.loops, l.phase ≠ .crashed
  whole : ∀ l ∈ s.pool.loops, ∀ run, l.phase = .running run → run.phase ≠ .unwound
  taken : r.taken.Perm (s.held ++ r.finished.map Prod.fst)
  /-- Where the run of a loop has ended, the next step of the loop records its outcome and
  leaves the worker free. -/
  completes : ∀ i l run success, s.pool.loops[i]? = some l → l.phase = .running run →
    run.phase = .finished success → s.finishes (.loop i) = some (run.job, success) ∧
      ∃ s' l' k, s.step (.loop i) = some s' ∧ s'.driver = s.driver.complete success ∧
        s'.pool.loops[i]? = some l' ∧ l'.isBusy = false ∧
        s'.pool.workers[l.worker]? = some k ∧ k.isWorking = false
  /-- No other step records an outcome. -/
  alone : ∀ t s', s.step t = some s' → s.finishes t = none →
    s'.driver = s.driver ∨ s'.driver = s.driver.dequeue.2

theorem unharmed_of_reached {name : String} {settings : Settings} {driver : Driver Job} {hub : Hub}
    {wall : Nat} {picks : Picks} {s : Site} {r : Record}
    (reached : Reached (.create name settings driver hub wall picks) Smooth s r) :
    s.Unharmed r := by
  have fresh : (Pool.create name settings).Steady fun _ _ => False := Pool.steady_of_fresh rfl
  obtain ⟨steady, taken⟩ := smooth_of_reached fresh rfl reached
  obtain ⟨ds, changes, -, -⟩ := changes_of_reached reached
  have sound := (Pool.sound_create name settings).of_changes changes
  refine ⟨?_, ?_, taken, ?_, ?_⟩
  · intro l hl crashed
    obtain ⟨i, found⟩ := List.mem_iff_getElem?.1 hl
    have stands := steady i l found
    simp only [Loop.Steady, crashed, exists_false] at stands
  · intro l hl run running
    obtain ⟨i, found⟩ := List.mem_iff_getElem?.1 hl
    exact fun cut => steady.stray found running cut
  · intro i l run success found running done
    exact ⟨by simp [finishes, found, running, done], step_of_finished sound found running done⟩
  · intro t s' moved unfinished
    obtain ⟨ds, stepped⟩ := stepped_of_step moved
    cases stepped.driver with
    | untouched _ _ same => exact .inl same
    | asked _ _ _ _ after => exact .inr after
    | told _ finishes _ =>
      rw [unfinished] at finishes
      cases finishes

end Site

/-! ## Containment -/

/-- On a registered topic a dispatch is delivered just if every listener of the chain can
be made: panics of links that handle the event are contained, and the links that the rule
names run. Else it ends with the panic of the first listener that cannot be made, and no link
runs. A pool on any driver, used in any way, comes to no harm as long as the listeners that
are attached to the topics of its events do not panic while they are made and the clock can tell
the deadlines of the jobs that are taken; listeners may panic while they handle events. -/
theorem handling_panics_contained {σ L I C : Type} (k : Conduct σ L I C) :
    (∀ (bus : Bus L C) (ev : Event) (init : Option Init) (s : σ) (chain : Chain L C),
      bus.chain? ev.topic = some chain →
      (k.MakesAll init chain.listeners s ∧ ∃ is outs s',
        k.dispatch bus ev init s = (.delivered, s') ∧ k.Serves ev init chain is outs s s') ∨
      (¬ k.MakesAll init chain.listeners s ∧ ∃ p s',
        k.dispatch bus ev init s = (.unwound p, s') ∧ k.Breaks ev init chain p s s')) ∧
    ∀ {name : String} {settings : Settings} {driver : Driver Job} {hub : Hub} {wall : Nat}
      {picks : Picks} {s : Site} {r : Record},
      Reached (.create name settings driver hub wall picks) Site.Smooth s r → s.Unharmed r := by
  refine ⟨fun bus ev init s chain found => ?_, Site.unharmed_of_reached⟩
  rw [Conduct.dispatch_of_chain found]
  by_cases made : k.MakesAll init chain.listeners s
  · exact .inl ⟨made, Conduct.deliver_serves ev made⟩
  · exact .inr ⟨made, Conduct.deliver_breaks ev made⟩

namespace Sample

/-- A link that can be made, and panics whenever it handles an event. -/
def panickingLink : Action := .mk "grumbling" true (some (.said "not again")) [] none []

/-- A hub on which a listener and a clause panic whenever a job has succeeded. -/
def panickingHub : Hub :=
  let bus := (Bus.empty.ensureLifecycle.listen Topic.afterHandle panickingLink).2
  { bus := (bus.onTopic Topic.afterHandle (.script panickingLink)).2 }

/-- A pool that publishes to it. -/
def panickingHubPool : Site := .create "panicking hub" {} (.memory {}) panickingHub 0 .least

end Sample

open Sample

/-- Both panicked, and the run of the job has ended all the same. -/
theorem reached_panickingHubPool : ∃ s r l run, Reached panickingHubPool Site.Smooth s r ∧
    s.hub.called = ["made grumbling", "grumbling", "grumbling"] ∧
    s.pool.loops[0]? = some l ∧ l.worker = 0 ∧ l.phase = .running run ∧
    run.phase = .finished true := by
  have accepted : Reached panickingHubPool Site.Smooth _ _ :=
    .step (.dispatch quickJob) .here (by decide) rfl
  have started := Reached.step .start accepted (by decide) rfl
  have taken := Reached.step (.task (.loop 0)) started (by decide) rfl
  have ended := Reached.step (.task (.loop 0)) taken (by decide) rfl
  exact ⟨_, _, _, _, ended, rfl, rfl, rfl, rfl, rfl⟩

theorem handling_panics_contained_grumbling :
    (∃ s', Script.links.dispatch panickingHub.bus (.after quickJob) none panickingHub =
      (.delivered, s')) ∧
    ∃ s r s' k, Reached panickingHubPool Site.Smooth s r ∧
      s.hub.called = ["made grumbling", "grumbling", "grumbling"] ∧
      s.step (.loop 0) = some s' ∧ s'.driver = s.driver.complete true ∧
      s'.pool.workers[0]? = some k ∧ k.isWorking = false := by
  obtain ⟨bus, pool⟩ := handling_panics_contained Script.links
  constructor
  · rcases bus panickingHub.bus (.after quickJob) none panickingHub _ rfl with
      ⟨-, -, -, s', delivered, -⟩ | ⟨broken, -⟩
    · exact ⟨s', delivered⟩
    · exact absurd ⟨_, _, rfl, trivial⟩ broken
  · obtain ⟨s, r, l, run, reached, called, found, first, running, done⟩ := reached_panickingHubPool
    obtain ⟨-, s', -, k, stepped, told, -, -, carrier, free⟩ :=
      (pool reached).completes 0 l run true found running done
    rw [first] at carrier
    exact ⟨s, r, s', k, reached, called, stepped, told, carrier, free⟩

namespace Sample

/-- A hub on which a listener for jobs that succeeded panics while it is made. -/
def panicOnMakeHub : Hub :=
  let listener : Action := .mk "spoiler" true none [] (some (.said "bad init")) []
  let bus := (Bus.empty.ensureLifecycle.listen Topic.afterHandle listener).2
  { bus := (bus.onTopic Topic.afterHandle (.script panickingLink)).2 }

end Sample

/-- The panic comes out of the dispatch, and the clause behind is not called. In a pool it
takes the loop of a worker with it: the job stays executing for good, the worker working. -/
theorem making_panic_uncontained :
    ((Script.links.dispatch panicOnMakeHub.bus (.after quickJob) none panicOnMakeHub).1 =
      .unwound (.said "bad init") ∧
      (Script.links.dispatch panicOnMakeHub.bus (.after quickJob) none panicOnMakeHub).2.called =
        ["made spoiler"]) ∧
    ∃ s r,
      Reached (.create "spoiled" {} (.memory {}) panicOnMakeHub 0 .least) (fun _ _ => True) s r ∧
      r.taken.length = 1 ∧ r.finished = [] ∧ s.driver.executing = 1 ∧
      (s.pool.workers[0]?).any Worker.isWorking = true ∧ s.step (.loop 0) = none := by
  refine ⟨⟨rfl, rfl⟩, ?_⟩
  have accepted : Reached (.create "spoiled" {} (.memory {}) panicOnMakeHub 0 .least)
      (fun _ _ => True) _ _ := .step (.dispatch quickJob) .here trivial rfl
  have started := Reached.step .start accepted trivial rfl
  have taken := Reached.step (.task (.loop 0)) started trivial rfl
  have unwound := Reached.step (.task (.loop 0)) taken trivial rfl
  have crashed := Reached.step (.task (.loop 0)) unwound trivial rfl
  exact ⟨_, _, crashed, rfl, rfl, rfl, rfl, rfl⟩

end JobPool
