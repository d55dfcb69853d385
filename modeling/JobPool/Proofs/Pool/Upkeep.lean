/-
JobPool.Proofs.Pool.Upkeep — what a move does beside the workers.

Few moves touch the frame of a pool: a step of upkeep changes one watcher or one forwarder,
a call goes on when what it waits for is over, and a start, a stop or a release takes
effect. `Site.Tends` lists them with all that is true when they happen; what is proved
about upkeep, calls and the status is proved from that list. An upkeep whose token is
cancelled comes to its end: `Upkeep.stepsLeft` bounds the steps that watcher, forwarder and
checks still take, and the only thing that a watcher waits for is the end of a loop.

  §1 Steps of an upkeep
  §2 What a move does to the frame
  §3 Upkeep that is to end
  §4 Cancellation and news at once
-/
import JobPool.Pool.Phases
import JobPool.Proofs.Pool.Frame

namespace JobPool

open Pool (Changes Deed)

/-! ## §1 Steps of an upkeep -/

/-- At most so many steps does a watcher still take with its token cancelled, and checks for it. -/
def Watcher.stepsLeft : Watcher → Nat
  | .ended => 0
  | .ticking _ => 1
  | .fresh => 2
  | .reaping _ unchecked verdicts => 2 + 3 * unchecked.length + 2 * verdicts.length
  | .releasing _ _ unchecked verdicts => 3 + 3 * unchecked.length + 2 * verdicts.length

/-- At most so many steps does a forwarder still take with its token cancelled. -/
def Forwarder.stepsLeft : Forwarder → Nat
  | .ended | .crashed => 0
  | .watching _ | .polling _ _ => 1
  | .fresh => 2

def Upkeep.stepsLeft (k : Upkeep) : Nat := k.watcher.stepsLeft + k.forwarder.stepsLeft

theorem Watcher.stepsLeft_eq_zero {w : Watcher} : w.stepsLeft = 0 ↔ w = .ended := by
  cases w <;> simp [stepsLeft]

theorem Forwarder.stepsLeft_eq_zero {f : Forwarder} :
    f.stepsLeft = 0 ↔ f = .ended ∨ f = .crashed := by
  cases f <;> simp [stepsLeft]

theorem Upkeep.isOver_iff {k : Upkeep} : k.isOver = true ↔ k.stepsLeft = 0 := by
  simp [isOver, stepsLeft, Watcher.stepsLeft_eq_zero, Forwarder.stepsLeft_eq_zero]

/-- The task that a watcher of upkeep `u` waits for: a check, if there is nothing else to do. -/
def Watcher.nextTask (u : UpkeepId) : Watcher → PoolTask
  | .reaping _ (w :: _) [] => .check u w
  | _ => .watcher u

/-- A task of upkeep `u` whose turn it is. -/
def Upkeep.nextTask (u : UpkeepId) (k : Upkeep) : PoolTask :=
  match k.forwarder with
  | .ended | .crashed => k.watcher.nextTask u
  | _ => .forwarder u

/-- The loop that a watcher waits for, if any. -/
def Watcher.loop? : Watcher → Option LoopId
  | .releasing _ i _ _ => some i
  | _ => none

/-- True of a step of the watcher or the forwarder of an upkeep, and of its checks. -/
def Move.isUpkeepOf (u : UpkeepId) : Move → Bool
  | task (.watcher v) | task (.check v _) | task (.forwarder v) => u == v
  | _ => false

theorem Upkeep.isUpkeepOf_nextTask (u : UpkeepId) (k : Upkeep) :
    (Move.task (k.nextTask u)).isUpkeepOf u = true := by
  unfold nextTask
  split
  · unfold Watcher.nextTask
    split <;> exact beq_self_eq_true u
  · unfold Watcher.nextTask
    split <;> exact beq_self_eq_true u
  · exact beq_self_eq_true u

/-! ## §2 What a move does to the frame -/

/-- What a call waits for is over, and it goes on. -/
inductive Call.Goes (p : Pool) : Call → Call → Prop where
  | halts {u : Option UpkeepId} (ended : p.upkeepIsOver u = true) : Goes p (.stopping u) .returned
  | drains {u : Option UpkeepId} (loops : List LoopId) (ended : p.upkeepIsOver u = true) :
      Goes p (.releasing u) (.draining loops)
  | returns {loops : List LoopId} (ended : loops.all p.loopIsOver = true) :
      Goes p (.draining loops) .returned

/-- The pool once a start has taken effect; no worker is started yet. -/
def Pool.started (p : Pool) (wall : Nat) : Pool :=
  { p with
    status := .running
    startedAt := some wall
    tokens := p.tokens.child.2
    upkeeps := p.upkeeps ++ [{ token := p.tokens.child.1 }]
    current := some p.upkeeps.length }

namespace Site

variable {s s' : Site} {m : Move} {u : UpkeepId} {k : Upkeep}

/-- What a step makes of the watcher of upkeep `k`. It ends only if it is told to or nobody can
reach the pool, and it comes to wait only for the loop of a worker that has stopped. -/
structure Watches (s : Site) (k : Upkeep) (watcher : Watcher) : Prop where
  lively : k.watcher ≠ .ended
  ends : watcher = .ended → s.pool.tokens.isCancelled k.token = true ∨ s.pool.held = false
  less : s.pool.tokens.isCancelled k.token = true → watcher.stepsLeft < k.watcher.stepsLeft
  waits : ∀ i, watcher.loop? = some i → k.watcher.loop? = some i ∨
    ∃ w ∈ s.pool.registry, ∃ k', s.pool.workers[w]? = some k' ∧ k'.isStopped = true ∧
      k'.loop = some i

/-- What a step makes of the forwarder of upkeep `k`, which is number `u`. It ends only if it is
told to, and crashes only if a listener panics while it is made. -/
structure Forwards (s : Site) (u : UpkeepId) (k : Upkeep) (forwarder : Forwarder) : Prop where
  lively : k.forwarder.stepsLeft ≠ 0
  ends : forwarder = .ended → s.pool.tokens.isCancelled k.token = true
  crashes : forwarder = .crashed → ¬ s.Calm (.task (.forwarder u))
  less : s.pool.tokens.isCancelled k.token = true → forwarder.stepsLeft < k.forwarder.stepsLeft

/-- What a move does to the frame of a pool. -/
inductive Tends (s : Site) : Move → Site → Prop where
  | spares {m : Move} {s' : Site} (free : m.sparesFrame = true)
      (frame : s'.pool.frame = s.pool.frame) : Tends s m s'
  /-- A start, a stop or a release that comes to nothing. -/
  | refuses {m : Move} (call : m = .start ∨ m = .beginStop ∨ m = .beginRelease)
      (rests : s.pool.status.after m = s.pool.status) : Tends s m s
  | watches {t : PoolTask} {s' : Site} {u : UpkeepId} {k : Upkeep} {watcher : Watcher}
      (own : ∀ v, (Move.task t).isUpkeepOf v = (v == u)) (found : s.pool.upkeeps[u]? = some k)
      (watches : s.Watches k watcher)
      (frame : s'.pool.frame = (s.pool.modifyUpkeep u fun k => { k with watcher }).frame) :
      Tends s (.task t) s'
  | forwards {s' : Site} {u : UpkeepId} {k : Upkeep} {forwarder : Forwarder}
      (found : s.pool.upkeeps[u]? = some k) (forwards : s.Forwards u k forwarder)
      (frame : s'.pool.frame = (s.pool.modifyUpkeep u fun k => { k with forwarder }).frame) :
      Tends s (.task (.forwarder u)) s'
  | goesOn {s' : Site} {c : CallId} {call call' : Call} (found : s.pool.calls[c]? = some call)
      (goes : Call.Goes s.pool call call')
      (frame : s'.pool.frame = (s.pool.setCall c call').frame) : Tends s (.task (.call c)) s'
  /-- The pool starts, and workers are started. -/
  | starts {s' : Site} (ready : s.pool.status = .pending ∨ s.pool.status = .stopped)
      (frame : s'.pool.frame = (s.pool.started s.wall).frame)
      (grows : Changes (s.pool.started s.wall) [] s'.pool) : Tends s .start s'
  | stops {s' : Site} (running : s.pool.status = .running)
      (frame : s'.pool.frame = ({ s.pool with
        status := .stopped, stoppedAt := some s.wall, current := none
        calls := s.pool.calls ++ [.stopping s.pool.current] } : Pool).frame) :
      Tends s .beginStop s'
  | releases {s' : Site} (unreleased : s.pool.status ≠ .released)
      (frame : s'.pool.frame = ({ s.pool with
        status := .released
        stoppedAt := if s.pool.status = .running then some s.wall else s.pool.stoppedAt
        tokens := s.pool.tokens.cancelRoot, current := none
        calls := s.pool.calls ++ [.releasing s.pool.current] } : Pool).frame) :
      Tends s .beginRelease s'
  | abandons {s' : Site}
      (frame : s'.pool.frame = ({ s.pool with
        held := false, tokens := s.pool.tokens.cancelRoot } : Pool).frame) : Tends s .abandon s'

/-- Whatever else a step of a watcher or a check did, it did to workers. -/
theorem tends_setWatcher {s₁ : Site} {t : PoolTask} {watcher : Watcher}
    (own : ∀ v, (Move.task t).isUpkeepOf v = (v == u)) (found : s.pool.upkeeps[u]? = some k)
    (same : s₁.pool.frame = s.pool.frame) (watches : s.Watches k watcher) :
    s.Tends (.task t) (s₁.setWatcher u watcher) := by
  refine .watches own found watches ?_
  have upkeeps : s₁.pool.upkeeps = s.pool.upkeeps := (congrArg Pool.upkeeps same :)
  show ({ s₁.pool.frame with upkeeps := s₁.pool.upkeeps.modify u _ } : Pool) = _
  rw [same, upkeeps]
  rfl

/-- The watcher goes on, has fewer steps left, and waits for no loop. -/
theorem Watches.of_less {watcher : Watcher} (less : watcher.stepsLeft < k.watcher.stepsLeft)
    (goes : watcher ≠ .ended) (free : watcher.loop? = none) : s.Watches k watcher where
  lively ended := by simp [ended, Watcher.stepsLeft] at less
  ends ended := absurd ended goes
  less _ := less
  waits i waits := by simp [free] at waits

/-- The watcher was told to end, or finds that nobody can reach the pool. -/
theorem Watches.of_ended {ticker : Ticker} (ticking : k.watcher = .ticking ticker)
    (told : s.pool.tokens.isCancelled k.token = true ∨ s.pool.held = false) :
    s.Watches k .ended where
  lively := by simp [ticking]
  ends _ := told
  less _ := by simp [ticking, Watcher.stepsLeft]
  waits i waits := by simp [Watcher.loop?] at waits

/-- A loop is handed over only by a registered worker that has stopped. -/
theorem stopped_of_releaseStopped {w : WorkerId} {i : LoopId}
    (reply : s.releaseStopped w = (some i, s')) :
    w ∈ s.pool.registry ∧ ∃ k', s.pool.workers[w]? = some k' ∧ k'.isStopped = true ∧
      k'.loop = some i := by
  unfold releaseStopped at reply
  split at reply
  · rename_i stopped
    simp only [Pool.releaseWorker_eq] at reply
    obtain ⟨k', worker, handle⟩ := Option.bind_eq_some_iff.1 (congrArg Prod.fst reply)
    have stops := stopped.2
    rw [Pool.check, worker] at stops
    exact ⟨stopped.1, k', worker, stops, handle⟩
  · cases reply

theorem tends_stepWatcher (h : s.stepWatcher u = some s') :
    s.Tends (.task (.watcher u)) s' := by
  have own : ∀ v, (Move.task (.watcher u)).isUpkeepOf v = (v == u) := fun _ => rfl
  obtain ⟨k, watcher, s₁, found, patrols, rfl⟩ := patrols_of_stepWatcher h
  cases patrols with
  | begins fresh =>
    refine tends_setWatcher own found rfl (.of_less ?_ (by simp) rfl)
    simp [fresh, Watcher.stepsLeft]
  | ends ticking told => exact tends_setWatcher own found rfl (.of_ended ticking told)
  | ticks ticking live =>
    refine tends_setWatcher own found rfl ⟨by simp [ticking], by simp, fun cancelled => ?_, ?_⟩
    · rw [live] at cancelled
      cases cancelled
    · simp [Watcher.loop?]
  | keeps reaping =>
    refine tends_setWatcher own found rfl (.of_less ?_ (by simp) rfl)
    simp only [reaping, Watcher.stepsLeft, List.length_cons]
    omega
  | @dismisses _ _ w _ loop _ reaping reply =>
    have same := s.frame_releaseStopped w
    rw [reply] at same
    refine tends_setWatcher own found same ⟨by simp [reaping], by simp, fun _ => ?_, ?_⟩
    · simp only [reaping, Watcher.stepsLeft, List.length_cons]
      omega
    · intro i waits
      obtain rfl : loop = i := Option.some.inj waits
      exact .inr ⟨w, stopped_of_releaseStopped reply⟩
  | @spares _ _ w _ _ reaping reply =>
    have same := s.frame_releaseStopped w
    rw [reply] at same
    refine tends_setWatcher own found same (.of_less ?_ (by simp) rfl)
    simp only [reaping, Watcher.stepsLeft, List.length_cons]
    omega
  | grows reaping =>
    refine tends_setWatcher own found ?_ (.of_less ?_ (by simp) rfl)
    · split
      · exact s.frame_spawnWorkers
      · rfl
    · simp [reaping, Watcher.stepsLeft]
  | goesOn releasing =>
    refine tends_setWatcher own found rfl (.of_less ?_ (by simp) rfl)
    simp [releasing, Watcher.stepsLeft]

theorem tends_stepCheck {w : WorkerId} (h : s.stepCheck u w = some s') :
    s.Tends (.task (.check u w)) s' := by
  have own : ∀ v, (Move.task (.check u w)).isUpkeepOf v = (v == u) := fun _ => rfl
  have same := s.frame_checkWorker w
  have shrinks : ∀ {unchecked : List WorkerId}, w ∈ unchecked →
      (unchecked.erase w).length + 1 = unchecked.length := by
    intro unchecked mem
    have length := List.length_erase_of_mem mem
    have some_left := List.length_pos_of_mem mem
    omega
  obtain ⟨k, watcher, found, inspects, rfl⟩ := inspects_of_stepCheck h
  cases inspects with
  | reaping reaping mem =>
    refine tends_setWatcher own found same (.of_less ?_ (by simp) rfl)
    simp only [reaping, Watcher.stepsLeft, List.length_append, List.length_singleton,
      ← shrinks mem]
    omega
  | releasing releasing mem =>
    refine tends_setWatcher own found same ⟨by simp [releasing], by simp, fun _ => ?_, ?_⟩
    · simp only [releasing, Watcher.stepsLeft, List.length_append, List.length_singleton,
        ← shrinks mem]
      omega
    · intro i waits
      rw [releasing]
      exact .inl waits

/-- Whatever else a step of a forwarder did, it did to the bus. -/
theorem tends_setForwarder {s₁ : Site} {forwarder : Forwarder}
    (found : s.pool.upkeeps[u]? = some k) (same : s₁.pool = s.pool)
    (forwards : s.Forwards u k forwarder) :
    s.Tends (.task (.forwarder u)) (s₁.setForwarder u forwarder) := by
  refine .forwards found forwards ?_
  rw [setForwarder, withPool, same]

/-- The forwarder goes on with a live token. -/
theorem Forwards.of_live {forwarder : Forwarder} (lively : k.forwarder.stepsLeft ≠ 0)
    (live : s.pool.tokens.isCancelled k.token = false) (goes : forwarder.stepsLeft ≠ 0) :
    s.Forwards u k forwarder where
  lively := lively
  ends ended := by simp [ended, Forwarder.stepsLeft] at goes
  crashes crashed := by simp [crashed, Forwarder.stepsLeft] at goes
  less cancelled := by
    rw [live] at cancelled
    cases cancelled

/-- A fresh forwarder goes on, told to end or not. -/
theorem Forwards.of_fresh {forwarder : Forwarder} (fresh : k.forwarder = .fresh)
    (goes : forwarder.stepsLeft = 1) : s.Forwards u k forwarder where
  lively := by simp [fresh, Forwarder.stepsLeft]
  ends ended := by simp [ended, Forwarder.stepsLeft] at goes
  crashes crashed := by simp [crashed, Forwarder.stepsLeft] at goes
  less _ := by
    rw [goes, fresh]
    exact Nat.one_lt_two

/-- A forwarder that publishes counts goes on, unless a listener panics while it is made. -/
theorem tends_publishProgress {p : Progress} {next : Forwarder}
    (found : s.pool.upkeeps[u]? = some k)
    (lively : k.forwarder.stepsLeft ≠ 0) (live : s.pool.tokens.isCancelled k.token = false)
    (goes : next.stepsLeft ≠ 0)
    (publishes : s.publishes (.forwarder u) = some (.progress p)) :
    s.Tends (.task (.forwarder u)) (s.publishProgress u p next) := by
  unfold publishProgress
  split
  · exact tends_setForwarder found rfl (.of_live lively live goes)
  · rename_i hub published
    refine tends_setForwarder found rfl ⟨lively, by simp, fun _ calm => ?_, fun cancelled => ?_⟩
    · have heard := Hub.publish_of_isCalm (calm _ rfl _ publishes)
      rw [published] at heard
      cases heard
    · rw [live] at cancelled
      cases cancelled

theorem tends_stepForwarder (h : s.stepForwarder u = some s') :
    s.Tends (.task (.forwarder u)) s' := by
  obtain ⟨k, found, reports⟩ := reports_of_stepForwarder h
  cases reports with
  | subscribes fresh => exact tends_setForwarder found rfl (.of_fresh fresh rfl)
  | polls fresh => exact tends_setForwarder found rfl (.of_fresh fresh rfl)
  | ends begun told =>
    have left : k.forwarder.stepsLeft = 1 := by
      rcases begun with ⟨r, stage⟩ | ⟨last, ticker, stage⟩ <;> simp [stage, Forwarder.stepsLeft]
    refine tends_setForwarder found rfl ⟨by simp [left], fun _ => told, by simp, fun _ => ?_⟩
    rw [left]
    exact Nat.one_pos
  | tells watching live _ publishes =>
    exact tends_publishProgress found (by simp [watching, Forwarder.stepsLeft]) live
      (by simp [Forwarder.stepsLeft]) publishes
  | looks polling live =>
    exact tends_setForwarder found rfl
      (.of_live (by simp [polling, Forwarder.stepsLeft]) live (by simp [Forwarder.stepsLeft]))
  | finds polling live _ publishes =>
    exact tends_publishProgress found (by simp [polling, Forwarder.stepsLeft]) live
      (by simp [Forwarder.stepsLeft]) publishes

theorem goes_of_stepCall {c : CallId} (h : s.stepCall c = some s') :
    ∃ call call', s.pool.calls[c]? = some call ∧ Call.Goes s.pool call call' ∧
      s'.pool.frame = (s.pool.setCall c call').frame := by
  have set : ∀ {s₁ : Site} (call' : Call), s₁.pool.frame = s.pool.frame →
      (s₁.withPool (s₁.pool.setCall c call')).pool.frame = (s.pool.setCall c call').frame := by
    intro s₁ call' same
    have calls : s₁.pool.calls = s.pool.calls := (congrArg Pool.calls same :)
    show ({ s₁.pool.frame with calls := s₁.pool.calls.set c call' } : Pool) = _
    rw [same, calls]
    rfl
  obtain ⟨call, call', s₁, found, proceeds, rfl⟩ := proceeds_of_stepCall h
  cases proceeds with
  | halts ended => exact ⟨_, _, found, .halts ended, set _ (s.frame_stopWorkers _)⟩
  | drains ended => exact ⟨_, _, found, .drains _ ended, set _ s.frame_drainRegistry⟩
  | returns ended => exact ⟨_, _, found, .returns ended, rfl⟩

theorem start_of_ready (ready : s.pool.status = .pending ∨ s.pool.status = .stopped) :
    s.start = (true, (s.withPool (s.pool.started s.wall)).spawnWorkers.2) := by
  rcases ready with status | status <;> simp only [start, status, Pool.started]

theorem tends_of_move (h : s.move m = some s') : s.Tends m s' := by
  cases m with
  | task t =>
    cases t with
    | loop i => exact .spares rfl (frame_stepLoop h)
    | watcher u => exact tends_stepWatcher h
    | check u w => exact tends_stepCheck h
    | forwarder u => exact tends_stepForwarder h
    | call c =>
      obtain ⟨call, call', found, goes, frame⟩ := goes_of_stepCall h
      exact .goesOn found goes frame
  | start =>
    cases h
    by_cases ready : s.pool.status = .pending ∨ s.pool.status = .stopped
    · rw [start_of_ready ready]
      obtain ⟨ds, grows, only⟩ :=
        ((s.withPool (s.pool.started s.wall)).quiet_spawnWorkers (d := none)).changes
      obtain rfl := List.eq_nil_iff_forall_not_mem.2 fun e he => by simpa using only e he
      exact .starts ready (frame_spawnWorkers _) grows
    · have unmoved : s.start.2 = s ∧ s.pool.status.after .start = s.pool.status := by
        cases status : s.pool.status <;> simp [status] at ready <;>
          simp [start, status, Pool.Status.after]
      rw [unmoved.1]
      exact .refuses (.inl rfl) unmoved.2
  | beginStop =>
    cases h
    unfold beginStop
    split
    · rename_i running
      exact .stops running (frame_endUpkeep _ _)
    · rename_i rests
      refine .refuses (.inr (.inl rfl)) ?_
      cases status : s.pool.status <;> simp [status] at rests <;> rfl
  | beginRelease =>
    cases h
    unfold beginRelease
    split
    · rename_i released
      exact .refuses (.inr (.inr rfl)) (by rw [released]; rfl)
    · rename_i unreleased
      exact .releases unreleased rfl
  | spawnWorkers =>
    cases h
    exact .spares rfl s.frame_spawnWorkers
  | dispatch job =>
    cases h
    exact .spares rfl (s.frame_dispatch job)
  | stopWorker w =>
    cases h
    exact .spares rfl (s.pool.frame_stopWorker s.wall w)
  | abandon =>
    cases h
    exact .abandons rfl
  | _ =>
    cases h
    exact .spares rfl rfl

/-! ## §3 Upkeep that is to end -/

/-- With its token cancelled, an upkeep stays as it is until one of its tasks takes one of the
steps that it has left. -/
theorem Tends.upkeep (h : s.Tends m s') (found : s.pool.upkeeps[u]? = some k)
    (cancelled : s.pool.tokens.isCancelled k.token = true) :
    (s'.pool.upkeeps[u]? = some k ∧ m.isUpkeepOf u = false) ∨
      ∃ k', s'.pool.upkeeps[u]? = some k' ∧ k'.stepsLeft < k.stepsLeft := by
  have same : ∀ {p : Pool}, s'.pool.frame = p.frame → p.upkeeps[u]? = some k →
      s'.pool.upkeeps[u]? = some k := by
    intro p frame found
    rw [← found]
    exact (congrArg (fun p : Pool => p.upkeeps[u]?) frame :)
  have stays : ∀ {v : UpkeepId} {f : Upkeep → Upkeep},
      s'.pool.frame = (s.pool.modifyUpkeep v f).frame → v ≠ u → s'.pool.upkeeps[u]? = some k := by
    intro v f frame other
    exact same frame ((List.getElem?_modify_ne _ _ other).trans found)
  have goes : ∀ {f : Upkeep → Upkeep}, s'.pool.frame = (s.pool.modifyUpkeep u f).frame →
      s'.pool.upkeeps[u]? = some (f k) := by
    intro f frame
    have modified : (s.pool.modifyUpkeep u f).upkeeps[u]? = some (f k) := by
      rw [Pool.modifyUpkeep, List.getElem?_modify_eq, found]
      rfl
    rw [← modified]
    exact (congrArg (fun p : Pool => p.upkeeps[u]?) frame :)
  cases h with
  | spares free frame =>
    refine .inl ⟨same frame found, ?_⟩
    cases m with
    | task t =>
      cases t with
      | loop i => rfl
      | _ => cases free
    | _ => rfl
  | refuses call _ =>
    refine .inl ⟨found, ?_⟩
    rcases call with rfl | rfl | rfl <;> rfl
  | @watches t s' v k₀ watcher own found₀ watches frame =>
    by_cases differ : v = u
    · subst differ
      obtain rfl := Option.some.inj (found.symm.trans found₀)
      exact .inr ⟨_, goes frame, Nat.add_lt_add_right (watches.less cancelled) _⟩
    · refine .inl ⟨stays frame differ, ?_⟩
      rw [own u]
      exact beq_false_of_ne (Ne.symm differ)
  | @forwards s' v k₀ forwarder found₀ forwards frame =>
    by_cases differ : v = u
    · subst differ
      obtain rfl := Option.some.inj (found.symm.trans found₀)
      exact .inr ⟨_, goes frame, Nat.add_lt_add_left (forwards.less cancelled) _⟩
    · exact .inl ⟨stays frame differ, beq_false_of_ne (Ne.symm differ)⟩
  | goesOn _ _ frame => exact .inl ⟨same frame found, rfl⟩
  | starts _ frame _ =>
    have inRange := (List.getElem?_eq_some_iff.1 found).1
    exact .inl ⟨same frame ((List.getElem?_append_left inRange).trans found), rfl⟩
  | stops _ frame => exact .inl ⟨same frame found, rfl⟩
  | releases _ frame => exact .inl ⟨same frame found, rfl⟩
  | abandons frame => exact .inl ⟨same frame found, rfl⟩

theorem stepWatcher_nextTask (found : s.pool.upkeeps[u]? = some k)
    (cancelled : s.pool.tokens.isCancelled k.token = true) (left : k.watcher.stepsLeft ≠ 0)
    (ended : ∀ i, k.watcher.loop? = some i → s.pool.loopIsOver i = true) :
    (s.step (k.watcher.nextTask u)).isSome = true := by
  cases watcher : k.watcher with
  | fresh => simp [Watcher.nextTask, step, stepWatcher, found, watcher]
  | ticking ticker => simp [Watcher.nextTask, step, stepWatcher, found, watcher, cancelled]
  | reaping ticker unchecked verdicts =>
    cases verdicts with
    | nil =>
      cases unchecked with
      | nil => simp [Watcher.nextTask, step, stepWatcher, found, watcher]
      | cons w unchecked => simp [Watcher.nextTask, step, stepCheck, found, watcher]
    | cons verdict verdicts =>
      obtain ⟨w, release⟩ := verdict
      simp only [Watcher.nextTask, step, stepWatcher, found, watcher, Option.bind_eq_bind,
        Option.bind_some]
      split
      · split <;> rfl
      · rfl
  | releasing ticker loop unchecked verdicts =>
    have done := ended loop (by rw [watcher]; rfl)
    simp [Watcher.nextTask, step, stepWatcher, found, watcher, done]
  | ended => exact absurd (by rw [watcher]; rfl) left

/-- The task whose turn it is can take its step, unless the watcher waits for a loop. -/
theorem step_nextTask (found : s.pool.upkeeps[u]? = some k)
    (cancelled : s.pool.tokens.isCancelled k.token = true) (left : k.stepsLeft ≠ 0)
    (ended : ∀ i, k.watcher.loop? = some i → s.pool.loopIsOver i = true) :
    (s.step (k.nextTask u)).isSome = true := by
  have watcher := stepWatcher_nextTask found cancelled
  cases forwarder : k.forwarder with
  | fresh =>
    simp only [Upkeep.nextTask, forwarder, step, stepForwarder, found, Option.bind_eq_bind,
      Option.bind_some]
    split <;> rfl
  | watching receiver => simp [Upkeep.nextTask, forwarder, step, stepForwarder, found, cancelled]
  | polling last ticker => simp [Upkeep.nextTask, forwarder, step, stepForwarder, found, cancelled]
  | ended =>
    simp only [Upkeep.stepsLeft, forwarder, Forwarder.stepsLeft, Nat.add_zero] at left
    simpa only [Upkeep.nextTask, forwarder] using watcher left ended
  | crashed =>
    simp only [Upkeep.stepsLeft, forwarder, Forwarder.stepsLeft, Nat.add_zero] at left
    simpa only [Upkeep.nextTask, forwarder] using watcher left ended

/-! ## §4 Cancellation and news at once

A watcher and a forwarder look at their token first. Where a tick or news came in the same instant
as the cancellation either may be taken, and what is taken just after the cancellation might as
well have been taken just before: the order of moves in which it is comes to the same. -/

theorem endUpkeep_modifyUpkeep {f : Upkeep → Upkeep} (keeps : ∀ k, (f k).token = k.token)
    (p : Pool) (u : UpkeepId) :
    endUpkeep (p.modifyUpkeep u f) = ((endUpkeep p).1, (endUpkeep p).2.modifyUpkeep u f) := by
  have token (v : UpkeepId) : ((p.modifyUpkeep u f).upkeeps[v]?).map (·.token) =
      (p.upkeeps[v]?).map (·.token) := by
    rw [Pool.modifyUpkeep, List.getElem?_modify, Option.map_eq_map, Option.map_map]
    refine congrArg (Option.map · _) (funext fun k => ?_)
    by_cases own : u = v <;> simp [own, keeps]
  have tokens (p : Pool) : (endUpkeep p).2.tokens =
      (((p.current.bind fun v => (p.upkeeps[v]?).map (·.token)).map p.tokens.cancel).getD
        p.tokens) := by
    unfold endUpkeep
    cases p.current with
    | none => rfl
    | some v => cases found : p.upkeeps[v]? <;> simp [found]
  have same : (endUpkeep (p.modifyUpkeep u f)).2.tokens = (endUpkeep p).2.tokens := by
    rw [tokens, tokens]
    show ((p.current.bind fun v => ((p.modifyUpkeep u f).upkeeps[v]?).map (·.token)).map
      p.tokens.cancel).getD p.tokens = _
    simp only [token]
  exact congrArg
    (fun t => (p.current, { p.modifyUpkeep u f with tokens := t, current := none })) same

/-- A stop and a release look at the tokens of upkeeps and at nothing else of them. -/
theorem move_modifyUpkeep {f : Upkeep → Upkeep} (keeps : ∀ k, (f k).token = k.token)
    (cancels : m = .beginStop ∨ m = .beginRelease) (s : Site) (u : UpkeepId) :
    (s.withPool (s.pool.modifyUpkeep u f)).move m =
      (s.move m).map fun s' => s'.withPool (s'.pool.modifyUpkeep u f) := by
  let s₁ : Site := s.withPool (s.pool.modifyUpkeep u f)
  have status : s₁.pool.status = s.pool.status := rfl
  rcases cancels with rfl | rfl
  · show some s₁.beginStop.2 = some _
    unfold beginStop
    by_cases running : s.pool.status = .running
    · rw [if_pos running, if_pos (status.trans running)]
      exact congrArg (fun e : Option UpkeepId × Pool => some (s₁.withPool
          { e.2 with calls := e.2.calls ++ [.stopping e.1] }))
        (endUpkeep_modifyUpkeep keeps
          { s.pool with status := .stopped, stoppedAt := some s.wall } u)
    · rw [if_neg running, if_neg (status ▸ running)]
  · show some s₁.beginRelease.2 = some _
    unfold beginRelease
    by_cases released : s.pool.status = .released
    · rw [if_pos released, if_pos (status.trans released)]
    · rw [if_neg released, if_neg (status ▸ released)]
      exact congrArg (fun e : Option UpkeepId × Pool => some (s₁.withPool
          { e.2 with tokens := e.2.tokens.cancelRoot, calls := e.2.calls ++ [.releasing e.1] }))
        (endUpkeep_modifyUpkeep keeps { s.pool with
          status := .released
          stoppedAt := if s.pool.status = .running then some s.wall else s.pool.stoppedAt } u)

theorem move_setWatcher (cancels : m = .beginStop ∨ m = .beginRelease) (s : Site) (u : UpkeepId)
    (watcher : Watcher) :
    (s.setWatcher u watcher).move m = (s.move m).map fun s' => s'.setWatcher u watcher :=
  move_modifyUpkeep (f := fun k => { k with watcher }) (fun _ => rfl) cancels s u

theorem move_setForwarder (cancels : m = .beginStop ∨ m = .beginRelease) (s : Site) (hub : Hub)
    (u : UpkeepId) (forwarder : Forwarder) :
    ({ s with hub }.setForwarder u forwarder).move m =
      (s.move m).map fun s' => { s' with hub }.setForwarder u forwarder := by
  refine (move_modifyUpkeep (f := fun k => { k with forwarder }) (fun _ => rfl) cancels
    { s with hub } u).trans ?_
  have apart : ({ s with hub } : Site).move m = (s.move m).map fun s' => { s' with hub } := by
    rcases cancels with rfl | rfl
    · simp only [move, beginStop, Option.map_some]; split <;> rfl
    · simp only [move, beginRelease, Option.map_some]; split <;> rfl
  rw [apart, Option.map_map]
  rfl

theorem same_of_cancel (cancels : m = .beginStop ∨ m = .beginRelease)
    (moved : s.move m = some s') :
    s'.hub = s.hub ∧ s'.driver = s.driver ∧ s'.pool.registry = s.pool.registry := by
  rcases cancels with rfl | rfl <;> cases moved
  · unfold beginStop; split <;> exact ⟨rfl, rfl, rfl⟩
  · unfold beginRelease; split <;> exact ⟨rfl, rfl, rfl⟩

theorem move_publishProgress (cancels : m = .beginStop ∨ m = .beginRelease) (s : Site)
    (u : UpkeepId) (p : Progress) (next : Forwarder) :
    (s.publishProgress u p next).move m =
      (s.move m).map fun s' => s'.publishProgress u p next := by
  have after {s' : Site} (moved : s.move m = some s') := (same_of_cancel cancels moved).1
  unfold publishProgress
  cases published : s.hub.publish (.progress p) with
  | mk whole hub =>
    cases whole <;>
    · dsimp only
      rw [move_setForwarder cancels]
      cases moved : s.move m with
      | none => rfl
      | some s' => simp only [Option.map_some, after moved, published]

/-- A pass that a watcher begins although its token was just cancelled it begins just before. -/
theorem pass_before_cancel {ticker : Ticker} (cancels : m = .beginStop ∨ m = .beginRelease)
    (found : s.pool.upkeeps[u]? = some k) (ticking : k.watcher = .ticking ticker)
    (live : s.pool.tokens.isCancelled k.token = false) (due : ticker.isDue s.now = true)
    (held : s.pool.held = true) :
    (s.step (.watcher u)).bind (·.move m) = (s.move m).map fun s' =>
      s'.setWatcher u (.reaping (ticker.advance s'.now) s'.pool.registry []) := by
  have begins : s.step (.watcher u) =
      some (s.setWatcher u (.reaping (ticker.advance s.now) s.pool.registry [])) := by
    simp [step, stepWatcher, found, ticking, live, due, held]
  rw [begins, Option.bind_some, move_setWatcher cancels]
  cases moved : s.move m with
  | none => rw [Option.map_none, Option.map_none]
  | some s' =>
    obtain ⟨hub, -, registry⟩ := same_of_cancel cancels moved
    have now : s'.now = s.now := congrArg Hub.now hub
    rw [Option.map_some, Option.map_some, now, registry]

/-- News that a forwarder tells although its token was just cancelled it tells just before. -/
theorem news_before_cancel {receiver : Receiver} {channel : Channel Progress}
    (cancels : m = .beginStop ∨ m = .beginRelease) (found : s.pool.upkeeps[u]? = some k)
    (watching : k.forwarder = .watching receiver)
    (live : s.pool.tokens.isCancelled k.token = false) (watched : s.driver.channel? = some channel)
    (news : channel.hasChanged receiver = true) :
    (s.step (.forwarder u)).bind (·.move m) = (s.move m).map fun s' =>
      s'.publishProgress u (channel.update receiver).1 (.watching (channel.update receiver).2) := by
  have tells : s.step (.forwarder u) = some (s.publishProgress u (channel.update receiver).1
      (.watching (channel.update receiver).2)) := by
    simp [step, stepForwarder, found, watching, live, watched, news]
  rw [tells, Option.bind_some, move_publishProgress cancels]

/-- A look at the counts after a cancellation is one just before it. -/
theorem look_before_cancel {last : Progress} {ticker : Ticker}
    (cancels : m = .beginStop ∨ m = .beginRelease) (found : s.pool.upkeeps[u]? = some k)
    (polling : k.forwarder = .polling last ticker)
    (live : s.pool.tokens.isCancelled k.token = false) (due : ticker.isDue s.now = true) :
    (s.step (.forwarder u)).bind (·.move m) = (s.move m).map fun s' =>
      if s'.driver.progress = last then
        s'.setForwarder u (.polling last (ticker.advance s'.now))
      else
        s'.publishProgress u s'.driver.progress
          (.polling s'.driver.progress (ticker.advance s'.now)) := by
  have after {s' : Site} (moved : s.move m = some s') :
      s'.now = s.now ∧ s'.driver = s.driver := by
    obtain ⟨hub, driver, -⟩ := same_of_cancel cancels moved
    exact ⟨congrArg Hub.now hub, driver⟩
  by_cases same : s.driver.progress = last
  · have looks : s.step (.forwarder u) =
        some (s.setForwarder u (.polling last (ticker.advance s.now))) := by
      simp [step, stepForwarder, found, polling, live, due, same]
    rw [looks, Option.bind_some]
    refine (move_modifyUpkeep (f := fun k =>
      { k with forwarder := .polling last (ticker.advance s.now) }) (fun _ => rfl) cancels s
      u).trans ?_
    cases moved : s.move m with
    | none => rw [Option.map_none, Option.map_none]
    | some s' =>
      obtain ⟨now, driver⟩ := after moved
      rw [Option.map_some, Option.map_some, now, driver, if_pos same]
      rfl
  · have looks : s.step (.forwarder u) = some (s.publishProgress u s.driver.progress
        (.polling s.driver.progress (ticker.advance s.now))) := by
      simp [step, stepForwarder, found, polling, live, due, same]
    rw [looks, Option.bind_some, move_publishProgress cancels]
    cases moved : s.move m with
    | none => rw [Option.map_none, Option.map_none]
    | some s' =>
      obtain ⟨now, driver⟩ := after moved
      rw [Option.map_some, Option.map_some, now, driver, if_neg same]

end Site
end JobPool
