/-
JobPool.Proofs.Pool.Service — the state machine of a worker.

Several loops of one worker can be there at once, each with a token and a generation of its own.
What keeps them from each other's way is that no two have the same generation, that a loop with a
job is always the current one (`Pool.Matched`), and that no token has two uses (`Pool.Staffed`). So
a step of a loop is a switch of its worker only if the loop is the current one, and a token is
cancelled only by what asks its own worker to stop.

  §1 Steps of a loop
  §2 The invariant
  §3 Tokens
  §4 Switches
  §5 All operations
-/
import JobPool.Pool.Service
import JobPool.Proofs.Pool.Staff
import JobPool.Proofs.Pool.Tokens

namespace JobPool

open Pool (Change Matched)

/-! ## §1 Steps of a loop -/

namespace Site

/-- What a step of loop `i`, which is `l`, does to its worker, to its phase and to the tokens. -/
inductive LoopStep (s : Site) (i : LoopId) (l : Loop) :
    (Worker → Worker) → Loop.Phase → Tokens → Prop where
  | ends (free : l.isBusy = false) (barred : s.pool.mayTake l = false)
      (untaken : s.takes (.loop i) = none) (undone : s.finishes (.loop i) = none) :
      LoopStep s i l (·.markStopped l.generation s.wall) .ended s.pool.tokens
  /-- It parks, or goes on to look. -/
  | rests {phase : Loop.Phase} (free : l.isBusy = false)
      (stays : ({ l with phase } : Loop).isBusy = false)
      (untaken : s.takes (.loop i) = none) (undone : s.finishes (.loop i) = none) :
      LoopStep s i l id phase s.pool.tokens
  | takes {job : Job} {run : Run} (free : l.isBusy = false) (mayTake : s.pool.mayTake l = true)
      (taken : s.takes (.loop i) = some job) (own : run.job = job)
      (none_made : run.underway? = none) :
      LoopStep s i l (·.take) (.running run) s.pool.tokens
  | turns {r run : Run} {t : Run.Turn} (running : l.phase = .running r)
      (spares : t.Spares r s.pool.tokens) (own : run.job = r.job)
      (made : ∀ a ∈ run.underway?, a ∈ t.next.underway?)
      (untaken : s.takes (.loop i) = none) (undone : s.finishes (.loop i) = none) :
      LoopStep s i l id (.running run) t.tokens
  | crashes {r : Run} (running : l.phase = .running r)
      (untaken : s.takes (.loop i) = none) (undone : s.finishes (.loop i) = none) :
      LoopStep s i l id .crashed s.pool.tokens
  | finishes {r : Run} {success : Bool} (running : l.phase = .running r)
      (done : s.finishes (.loop i) = some (r.job, success))
      (current : s.pool.check (·.generation == l.generation) l.worker = true) :
      LoopStep s i l (·.finish (s.pool.tokens.isCancelled l.token) s.wall)
        (if s.pool.tokens.isCancelled l.token then .ended else .looking) s.pool.tokens
  | finishesLate {r : Run} (running : l.phase = .running r)
      (outdated : s.pool.check (·.generation == l.generation) l.worker = false) :
      LoopStep s i l (·.markStopped l.generation s.wall) .ended s.pool.tokens

/-- A step of loop `i` comes to one of these. -/
structure StepsLoop (s : Site) (i : LoopId) (l : Loop) (f : Worker → Worker) (phase : Loop.Phase)
    (s' : Site) : Prop where
  found : s.pool.loops[i]? = some l
  step : s.LoopStep i l f phase s'.pool.tokens
  workers : s'.pool.workers = (s.pool.modifyWorker l.worker f).workers
  loops : s'.pool.loops = (s.pool.setPhase i phase).loops

variable {s s' : Site} {i : LoopId} {l : Loop}

/-- The run of a loop takes its turn; a panic may cut it short. -/
theorem afterTurn_of_stepRun {run : Run} (h : s.stepRun i run = some s') :
    ∃ t run', run.turn s.picks s.now s.pool.tokens = some t ∧
      s'.pool = s.pool.afterTurn i t run' ∧ run'.job = t.next.job ∧
      ∀ a ∈ run'.underway?, a ∈ t.next.underway? := by
  obtain ⟨-, t, run', turn, pool, goes, -⟩ := turn_of_stepRun h
  refine ⟨t, run', turn, pool, ?_⟩
  rcases goes with rfl | rfl
  · exact ⟨rfl, fun _ => id⟩
  · exact ⟨rfl, by rintro _ ⟨⟩⟩

theorem stepsLoop_of_step (h : s.stepLoop i = some s') :
    ∃ l f phase, s.StepsLoop i l f phase s' := by
  obtain ⟨l, found, cycles⟩ := cycles_of_stepLoop h
  have unmoved : s.pool.workers = (s.pool.modifyWorker l.worker id).workers := by
    simp [Pool.modifyWorker, List.modify_id]
  refine ⟨l, ?_⟩
  cases cycles with
  | ends free barred =>
    exact ⟨_, _, found, .ends free barred (takes_of_barred found barred)
      (finishes_of_free found free), rfl, rfl⟩
  | parks looking mayTake empty =>
    have free := Loop.free_of_looking looking
    have untaken : s.takes (.loop i) = none := by
      rw [takes_of_looking found looking mayTake, empty]
    exact ⟨_, _, found, .rests free rfl untaken (finishes_of_free found free), unmoved, rfl⟩
  | wakes parked =>
    have free := Loop.free_of_parked parked
    exact ⟨_, _, found, .rests free rfl (takes_of_ne_looking found (by simp [parked]))
      (finishes_of_free found free), unmoved, rfl⟩
  | @strays job _ looking mayTake oldest offClock =>
    have taken : s.takes (.loop i) = some job := by
      rw [takes_of_looking found looking mayTake, oldest]
    refine ⟨(·.take), .running (.start job s.pool.settings.job s.now), found,
      .takes (Loop.free_of_looking looking) mayTake taken rfl ?_, rfl, rfl⟩
    refine Option.eq_none_iff_forall_ne_some.2 fun a made => ?_
    exact Run.phase_start_ne_attempting job _ _ a (Run.underway?_eq_some.1 made)
  | @begins job driver _ looking mayTake oldest onClock announces =>
    have taken : s.takes (.loop i) = some job := by
      rw [takes_of_looking found looking mayTake, oldest]
    obtain ⟨t, run', turn, pool, own, made⟩ := afterTurn_of_stepRun announces
    simp only [Run.turn, Run.phase_start_of_onClock onClock] at turn
    obtain rfl := Option.some.inj turn
    refine ⟨(·.take), .running run', found, ?_, ?_, ?_⟩
    · rw [pool]
      refine .takes (Loop.free_of_looking looking) mayTake taken own ?_
      exact Option.eq_none_iff_forall_ne_some.2 fun a ha => by cases made a ha
    · rw [pool]
      rfl
    · rw [pool]
      simp [inHand, Pool.afterTurn, Pool.setPhase, Pool.modifyWorker, List.modify_modify_eq,
        Function.comp_def]
  | runs running goes =>
    obtain ⟨t, run', turn, pool, own, made⟩ := afterTurn_of_stepRun goes
    have turned := Run.turned_of_turn turn
    have step := LoopStep.turns running turned.spares (own.trans turned.next.1) made
      (takes_of_ne_looking found (by simp [running]))
      (finishes_and_loses_of_turn found running turn).1
    refine ⟨id, .running run', found, ?_, ?_, ?_⟩
    · rw [pool]
      exact step
    · rw [pool]
      exact unmoved
    · rw [pool]
      rfl
  | crashes running unwound =>
    have undone : s.finishes (.loop i) = none := by simp [Site.finishes, found, running, unwound]
    exact ⟨_, _, found, .crashes running (takes_of_ne_looking found (by simp [running])) undone,
      unmoved, rfl⟩
  | @finishes run success running done current =>
    have recorded : s.finishes (.loop i) = some (run.job, success) := by
      simp [Site.finishes, found, running, done]
    exact ⟨_, _, found, .finishes running recorded current, rfl, rfl⟩
  | finishesLate running done outdated =>
    exact ⟨_, _, found, .finishesLate running outdated, rfl, rfl⟩

end Site

/-! ## §2 The invariant -/

/-- The times and the token of a worker fit its status. -/
structure Worker.Proper (t : Tokens) (k : Worker) : Prop where
  handedOut : k.token < t.children.length
  dated : k.stoppedAt.isSome = k.isStopped
  cancelled : k.isStopped = true → t.isCancelled k.token = true
  live : k.isIdle = true → t.root = false → t.isCancelled k.token = false

namespace Pool

/-- The invariant of workers. -/
structure Staffed (p : Pool) : Prop where
  matched : p.Matched
  proper : ∀ (w : WorkerId) (k : Worker), p.workers[w]? = some k → k.Proper p.tokens
  distinct : ∀ (v w : WorkerId) (j k : Worker), p.workers[v]? = some j → p.workers[w]? = some k →
    j.token = k.token → v = w
  offAttempts : ∀ i a, p.attemptAt i = some a → a.token < p.tokens.children.length ∧
    ∀ (w : WorkerId) (k : Worker), p.workers[w]? = some k → a.token ≠ k.token

theorem staffed_create (name : String) (settings : Settings) :
    (create name settings).Staffed where
  matched := ⟨List.forall_mem_nil _, List.Pairwise.nil⟩
  proper := by simp [create]
  distinct := by simp [create]
  offAttempts i a made := by
    have none_made : (create name settings).attemptAt i = none := rfl
    rw [none_made] at made
    cases made

/-- The current loop of a worker has its token, and is busy just as the worker works. -/
theorem Staffed.current {s : Site} (h : s.pool.Staffed) {i : LoopId} {l : Loop} {k : Worker}
    (found : s.pool.loops[i]? = some l) (carrier : s.pool.workers[l.worker]? = some k)
    (current : s.IsCurrent i l.worker k) :
    l.generation = k.generation ∧ l.token = k.token ∧ k.isWorking = l.isBusy := by
  obtain ⟨l', found', -, generation⟩ := current
  obtain rfl := Option.some.inj (found.symm.trans found')
  obtain ⟨k', carrier', fits⟩ := h.matched.fitting found
  obtain rfl := Option.some.inj (carrier.symm.trans carrier')
  exact ⟨generation, fits.token_eq generation, fits.working_eq generation⟩

/-- A loop with a job is the current one. -/
theorem Matched.current_of_busy {p : Pool} (h : p.Matched) {i : LoopId} {l : Loop}
    (found : p.loops[i]? = some l) (busy : l.isBusy = true) :
    p.check (·.generation == l.generation) l.worker = true := by
  obtain ⟨k, carrier, fits⟩ := h.fitting found
  simp [check, carrier, fits.current_of_busy busy]

end Pool

/-! ## §3 Tokens -/

namespace Site

/-- An operation cancels the tokens of those workers that it asks to stop, and no other
worker's. -/
structure Cancels (s : Site) (op : WorkerOp) (s' : Site) : Prop where
  length_le : s.pool.tokens.children.length ≤ s'.pool.tokens.children.length
  root : s'.pool.tokens.root = s.pool.tokens.root ∨
    op = .cancelRoot ∧ s'.pool.tokens.root = true
  asked : ∀ (w : WorkerId) (k : Worker), s.pool.workers[w]? = some k →
    s'.pool.tokens.isCancelled k.token = (s.pool.tokens.isCancelled k.token || op.stops w)

variable {s s' : Site} {op : WorkerOp}

/-- The tokens stay, and nobody is asked to stop. -/
theorem Cancels.of_same (tokens : s'.pool.tokens = s.pool.tokens)
    (unasked : ∀ (w : WorkerId) (k : Worker), s.pool.workers[w]? = some k → op.stops w = false) :
    s.Cancels op s' := by
  refine ⟨Nat.le_of_eq (by rw [tokens]), .inl (by rw [tokens]), fun w k found => ?_⟩
  rw [tokens, unasked w k found, Bool.or_false]

/-- A token is handed out. -/
theorem Cancels.of_child (h : s.pool.Staffed) (tokens : s'.pool.tokens = s.pool.tokens.child.2)
    (unasked : ∀ w, op.stops w = false) : s.Cancels op s' := by
  refine ⟨?_, .inl (by rw [tokens]; rfl), fun w k found => ?_⟩
  · rw [tokens, Tokens.length_child]
    exact Nat.le_succ _
  · rw [tokens, unasked, Bool.or_false]
    exact s.pool.tokens.isCancelled_child_of_lt (h.proper w k found).handedOut

/-- One worker is asked to stop or to end. -/
theorem Cancels.of_ask (h : s.pool.Staffed) {f : Worker → Worker} {v : WorkerId}
    (asks : ∀ w, op.stops w = (w == v)) : s.Cancels op (s.withPool (s.pool.ask f v)) := by
  cases found₀ : s.pool.workers[v]? with
  | none =>
    have same : s.pool.ask f v = s.pool := by simp only [Pool.ask, found₀]
    refine .of_same (congrArg Pool.tokens same :) fun w k found => ?_
    rw [asks, beq_eq_false_iff_ne]
    rintro rfl
    rw [found₀] at found
    cases found
  | some k₀ =>
    have tokens : (s.pool.ask f v).tokens = s.pool.tokens.cancel k₀.token := by
      simp only [Pool.ask, found₀]
    refine ⟨?_, .inl ?_, fun w k found => ?_⟩
    · show _ ≤ (s.pool.ask f v).tokens.children.length
      rw [tokens, Tokens.length_cancel]
    · show (s.pool.ask f v).tokens.root = _
      rw [tokens]
      rfl
    · show (s.pool.ask f v).tokens.isCancelled k.token = _
      rw [tokens, asks]
      by_cases same : w = v
      · subst same
        obtain rfl := Option.some.inj (found₀.symm.trans found)
        rw [s.pool.tokens.isCancelled_cancel (h.proper w k₀ found₀).handedOut, beq_self_eq_true,
          Bool.or_true]
      · have apart : k₀.token ≠ k.token := fun equal =>
          same (h.distinct v w k₀ k found₀ found equal).symm
        rw [s.pool.tokens.isCancelled_cancel_of_ne apart, beq_eq_false_iff_ne.2 same,
          Bool.or_false]

theorem Cancels.of_loopStep (h : s.pool.Staffed) {i : LoopId} (stepped : s.stepLoop i = some s') :
    s.Cancels (.step i) s' := by
  obtain ⟨l, f, phase, found, step, -, -⟩ := stepsLoop_of_step stepped
  generalize tokens : s'.pool.tokens = t at step
  cases step with
  | @turns r run t running spares own made untaken undone =>
    have handed : s.pool.tokens.children.length ≤ t.tokens.children.length := by
      rcases spares.begun with ⟨-, same⟩ | ⟨b, -, -, more⟩
      · rw [same]
      · rw [more]
        exact Nat.le_succ _
    have makes : s.pool.attemptAt i = r.underway? := by
      rw [Pool.attemptAt, Pool.runAt_eq_some.2 ⟨l, found, running⟩, Option.bind_some]
    refine ⟨tokens ▸ handed, .inl (tokens ▸ spares.root), fun w k carrier => ?_⟩
    rw [tokens]
    refine (spares.others _ (h.proper w k carrier).handedOut fun a ha => ?_).trans
      (Bool.or_false _).symm
    exact (h.offAttempts i a (makes.trans ha)).2 w k carrier
  | _ => exact .of_same tokens fun _ _ _ => rfl

theorem cancels_of_performs (h : s.pool.Staffed) (performed : s.Performs op s') :
    s.Cancels op s' := by
  cases performed with
  | spawn => exact .of_child h rfl fun _ => rfl
  | start w =>
    unfold Pool.restartWorker
    split
    · exact .of_same rfl fun _ _ _ => rfl
    · split
      · exact .of_same rfl fun _ _ _ => rfl
      · exact .of_child h rfl fun _ => rfl
  | stop w => exact .of_ask h fun _ => rfl
  | release w =>
    rw [Pool.releaseWorker_eq]
    exact .of_ask h fun _ => rfl
  | cancelRoot =>
    refine ⟨Nat.le_refl _, .inr ⟨rfl, rfl⟩, fun w k _ => ?_⟩
    exact (Bool.or_true _).symm
  | step stepped => exact .of_loopStep h stepped
  | notify => exact .of_same rfl fun _ _ _ => rfl
  | elsewhere apart =>
    refine ⟨apart.tokens.length_le, .inl apart.root, fun w k found => ?_⟩
    rw [apart.spared w k found]
    exact (Bool.or_false _).symm

/-! ## §4 Switches -/

/-- An operation on another worker, or none on a worker. -/
theorem Switch.apart {w : WorkerId} {k : Worker} (unasked : op ≠ .stop w ∧ op ≠ .release w)
    (unstarted : op ≠ .start w) (unstepped : ∀ i, op ≠ .step i) : s.Switch w k op k :=
  .stays rfl (fun _ => unasked) (fun _ _ => unstarted) fun i own => absurd own (unstepped i)

/-- A step of a loop that is not the current one, or neither takes nor finishes a job. -/
theorem Switch.unmoved {w : WorkerId} {k : Worker} {i : LoopId}
    (quiet : s.IsCurrent i w k → s.takes (.loop i) = none ∧ s.finishes (.loop i) = none) :
    s.Switch w k (.step i) k :=
  .stays rfl (by simp) (by simp) fun j own current => by
    obtain rfl : i = j := WorkerOp.step.inj own
    exact quiet current

theorem switch_of_asked {f : Worker → Worker} {v w : WorkerId} {k' : Worker}
    (like : ∀ k, { f k with loop := k.loop } = k.stop s.wall)
    (asks : op = .stop v ∨ op = .release v)
    (found' : (s.pool.ask f v).workers[w]? = some k') :
    ∃ k, s.pool.workers[w]? = some k ∧ s.Switch w k op k' := by
  have asked := Pool.asked_ask (f := f) s.pool v
  rw [asked.workers] at found'
  obtain ⟨k, found, rfl⟩ := Option.map_eq_some_iff.1 found'
  refine ⟨k, found, ?_⟩
  split
  · rename_i own
    obtain rfl := List.mem_singleton.1 own
    cases idle : k.isIdle with
    | true => exact .stops asks idle (like k)
    | false =>
      refine .stays ((like k).trans ?_) (fun now_idle => ?_) (fun _ _ => ?_) (fun i own => ?_)
      · simp [Worker.stop, idle]
      · rw [idle] at now_idle
        cases now_idle
      · rcases asks with rfl | rfl <;> simp
      · rcases asks with rfl | rfl <;> cases own
  · rename_i other
    have differ : v ≠ w := fun same => other (List.mem_singleton.2 same.symm)
    rcases asks with rfl | rfl
    · exact .apart (by simpa using differ) (by simp) (by simp)
    · exact .apart (by simpa using differ) (by simp) (by simp)

theorem switch_of_started {v w : WorkerId} {k' : Worker}
    (found' : (s.pool.restartWorker s.wall v).2.workers[w]? = some k') :
    ∃ k, s.pool.workers[w]? = some k ∧ s.Switch w k (.start v) k' := by
  have refused : s.pool.workers[w]? = some k' → (∀ k, s.pool.workers[v]? = some k →
      k.isStopped = true → s.pool.tokens.root = false → False) →
      ∃ k, s.pool.workers[w]? = some k ∧ s.Switch w k (.start v) k' := by
    intro found never
    refine ⟨k', found, .stays rfl (by simp) (fun stopped live own => ?_) (by simp)⟩
    obtain rfl : v = w := WorkerOp.start.inj own
    exact never k' found stopped live
  unfold Pool.restartWorker at found'
  split at found'
  · rename_i missing
    refine refused found' fun k found => ?_
    rw [missing] at found
    cases found
  · rename_i k₀ found₀
    split at found'
    · rename_i barred
      refine refused found' fun k found stopped live => ?_
      obtain rfl := Option.some.inj (found₀.symm.trans found)
      simp [stopped, live] at barred
    · rename_i ready
      obtain ⟨live, stopped⟩ : s.pool.tokens.root = false ∧ k₀.isStopped = true := by
        simpa using ready
      simp only at found'
      rw [Pool.workers_set found₀] at found'
      split at found'
      · rename_i same
        subst same
        obtain rfl := Option.some.inj found'
        exact ⟨k₀, found₀, .starts stopped live⟩
      · rename_i differ
        refine ⟨k', found', .apart (by simp) (fun own => ?_) (by simp)⟩
        exact differ (WorkerOp.start.inj own).symm

theorem switch_of_loopStep (h : s.pool.Staffed) {i : LoopId} (stepped : s.stepLoop i = some s')
    {w : WorkerId} {k' : Worker} (found' : s'.pool.workers[w]? = some k') :
    ∃ k, s.pool.workers[w]? = some k ∧ s.Switch w k (.step i) k' := by
  obtain ⟨l, f, phase, found, step, workers, -⟩ := stepsLoop_of_step stepped
  rw [workers, Pool.workers_modifyWorker] at found'
  obtain ⟨k, carrier, rfl⟩ := Option.map_eq_some_iff.1 found'
  refine ⟨k, carrier, ?_⟩
  by_cases own : l.worker = w
  · subst own
    rw [if_pos rfl]
    have proper := h.proper _ k carrier
    generalize s'.pool.tokens = t at step
    cases step with
    | ends free barred untaken undone =>
      show s.Switch l.worker k (.step i) (k.markStopped l.generation s.wall)
      by_cases current : l.generation = k.generation
      · have isCurrent : s.IsCurrent i l.worker k := ⟨l, found, rfl, current⟩
        obtain ⟨-, token, working⟩ := h.current found carrier isCurrent
        rw [free] at working
        rw [current]
        cases stopped : k.isStopped with
        | true =>
          have same : k.markStopped k.generation s.wall = k := by
            simp [Worker.markStopped, stopped]
          rw [same]
          exact .unmoved fun _ => ⟨untaken, undone⟩
        | false =>
          have idle : k.isIdle = true := by
            cases status : k.status <;>
              simp [Worker.isIdle, Worker.isWorking, Worker.isStopped, status] at working stopped ⊢
          have marked : k.markStopped k.generation s.wall = k.stop s.wall := by
            simp [Worker.markStopped, Worker.stop, stopped, idle]
          rw [marked]
          refine .ends isCurrent idle ?_
          rw [← Bool.not_eq_false]
          intro live
          have cancelled := proper.live idle live
          rw [← token] at cancelled
          simp [Pool.mayTake, Pool.check, carrier, current, cancelled] at barred
      · rw [Worker.markStopped_of_ne (Ne.symm current)]
        refine .unmoved fun isCurrent => ?_
        exact absurd (h.current found carrier isCurrent).1 current
    | rests _ _ untaken undone => exact .unmoved fun _ => ⟨untaken, undone⟩
    | turns _ _ _ _ untaken undone => exact .unmoved fun _ => ⟨untaken, undone⟩
    | crashes _ untaken undone => exact .unmoved fun _ => ⟨untaken, undone⟩
    | takes free mayTake taken _ _ =>
      obtain ⟨current, live⟩ := (Pool.mayTake_iff carrier).1 mayTake
      have isCurrent : s.IsCurrent i l.worker k := ⟨l, found, rfl, current.symm⟩
      obtain ⟨-, token, working⟩ := h.current found carrier isCurrent
      rw [free] at working
      rw [token] at live
      refine .takes isCurrent ?_ live taken
      rw [← Bool.not_eq_false]
      intro busy
      rcases Worker.isStopped_or_isWorking busy with stopped | works
      · rw [proper.cancelled stopped] at live
        cases live
      · rw [works] at working
        cases working
    | finishes running done current =>
      have generation : k.generation = l.generation := by
        simpa [Pool.check, carrier] using current
      have isCurrent : s.IsCurrent i l.worker k := ⟨l, found, rfl, generation.symm⟩
      obtain ⟨-, token, working⟩ := h.current found carrier isCurrent
      rw [token]
      exact .finishes isCurrent (working.trans (Loop.busy_of_running running)) done
    | finishesLate running outdated =>
      have current := h.matched.current_of_busy found (Loop.busy_of_running running)
      rw [outdated] at current
      cases current
  · rw [if_neg own]
    refine .unmoved fun isCurrent => ?_
    obtain ⟨l', found'', carried, -⟩ := isCurrent
    obtain rfl := Option.some.inj (found.symm.trans found'')
    exact absurd carried own

/-- Every operation makes of every worker what the state machine says, and only `spawn` makes a
new one. -/
theorem switch_of_performs (h : s.pool.Staffed) (performed : s.Performs op s') {w : WorkerId}
    {k' : Worker} (found' : s'.pool.workers[w]? = some k') :
    (∃ k, s.pool.workers[w]? = some k ∧ s.Switch w k op k') ∨
      (op = .spawn ∧ w = s.pool.workers.length ∧
        k' = .create s.wall s.pool.tokens.child.1 s.pool.loops.length) := by
  cases performed with
  | spawn =>
    have found' : (s.pool.addWorker s.wall).workers[w]? = some k' := found'
    rw [Pool.workers_addWorker] at found'
    split at found'
    · rename_i new
      exact .inr ⟨rfl, new, (Option.some.inj found').symm⟩
    · exact .inl ⟨k', found', .apart (by simp) (by simp) (by simp)⟩
  | start v => exact .inl (switch_of_started found')
  | stop v =>
    refine .inl (switch_of_asked (f := (·.stop s.wall)) (fun k => ?_) (.inl rfl) found')
    exact congrArg (fun loop => { k.stop s.wall with loop }) (k.loop_stop s.wall).symm
  | release v =>
    rw [Pool.releaseWorker_eq] at found'
    refine .inl (switch_of_asked (f := Pool.retired s.wall) (fun k => ?_) (.inr rfl) found')
    exact congrArg (fun loop => { k.stop s.wall with loop }) (k.loop_stop s.wall).symm
  | cancelRoot => exact .inl ⟨k', found', .apart (by simp) (by simp) (by simp)⟩
  | step stepped => exact .inl (switch_of_loopStep h stepped found')
  | notify => exact .inl ⟨k', found', .apart (by simp) (by simp) (by simp)⟩
  | elsewhere apart =>
    rw [apart.workers] at found'
    exact .inl ⟨k', found', .apart (by simp) (by simp) (by simp)⟩

/-! ## §5 All operations -/

/-- The token of a worker is the one that it had, or the next one to be handed out. -/
theorem Switch.token {w : WorkerId} {k k' : Worker} (switch : s.Switch w k op k') :
    k'.token = k.token ∨ op = .start w ∧ k'.token = s.pool.tokens.children.length := by
  cases switch with
  | stays same _ _ _ => exact .inl (congrArg Worker.token same :)
  | takes _ _ _ _ => exact .inl rfl
  | finishes _ _ _ =>
    left
    unfold Worker.finish
    split <;> rfl
  | stops _ _ stopped => exact .inl ((congrArg Worker.token stopped :).trans (k.token_stop _))
  | ends _ _ _ => exact .inl (k.token_stop _)
  | starts _ _ => exact .inr ⟨rfl, rfl⟩

theorem token_of_performs (h : s.pool.Staffed) (performed : s.Performs op s') {w : WorkerId}
    {k' : Worker} (found' : s'.pool.workers[w]? = some k') :
    (∃ k, s.pool.workers[w]? = some k ∧ k'.token = k.token) ∨
      k'.token = s.pool.tokens.children.length ∧
        (op = .start w ∨ op = .spawn ∧ w = s.pool.workers.length) := by
  rcases switch_of_performs h performed found' with ⟨k, found, switch⟩ | ⟨spawn, new, rfl⟩
  · rcases switch.token with same | ⟨start, token⟩
    · exact .inl ⟨k, found, same⟩
    · exact .inr ⟨token, .inl start⟩
  · exact .inr ⟨rfl, .inr ⟨spawn, new⟩⟩

/-- A worker that is started has the token that was handed out for it. -/
theorem tokens_of_started {w : WorkerId} {k : Worker} (found : s.pool.workers[w]? = some k)
    (stopped : k.isStopped = true) (live : s.pool.tokens.root = false)
    (performed : s.Performs (.start w) s') : s'.pool.tokens = s.pool.tokens.child.2 := by
  cases performed with
  | start w => simp [Pool.restartWorker, found, stopped, live, withPool]

/-- A worker with a new token is idle, and the token is live unless the root is cancelled. -/
theorem proper_of_new {t : Tokens} {k : Worker} (token : k.token = t.child.1)
    (idle : k.status = .idle) (undated : k.stoppedAt = none) : k.Proper t.child.2 where
  handedOut := by
    rw [token, Tokens.length_child]
    exact Nat.lt_succ_self _
  dated := by simp [undated, Worker.isStopped, idle]
  cancelled := by simp [Worker.isStopped, idle]
  live _ root := by
    rw [token, t.isCancelled_child]
    exact root

theorem Switch.proper {w : WorkerId} {k k' : Worker} (switch : s.Switch w k op k')
    (h : k.Proper s.pool.tokens) (found : s.pool.workers[w]? = some k)
    (performed : s.Performs op s') (cancels : s.Cancels op s') : k'.Proper s'.pool.tokens := by
  have asked := cancels.asked w k found
  have handedOut := Nat.lt_of_lt_of_le h.handedOut cancels.length_le
  have undated : k.isStopped = false → k.stoppedAt.isSome = false := fun goes => h.dated.trans goes
  -- once it is stopped, all that matters is that its token is cancelled
  have stopped : ∀ {k'' : Worker}, k''.token = k.token → k''.stoppedAt.isSome = true →
      k''.status = .stopped → s'.pool.tokens.isCancelled k.token = true →
      k''.Proper s'.pool.tokens := by
    intro k'' token dated status cancelled
    refine ⟨token ▸ handedOut, ?_, fun _ => token ▸ cancelled, fun idle => ?_⟩
    · simp [dated, Worker.isStopped, status]
    · simp [Worker.isIdle, status] at idle
  have halts : k.isIdle = true → s'.pool.tokens.isCancelled k.token = true →
      (k.stop s.wall).Proper s'.pool.tokens := by
    intro idle cancelled
    have halted : k.stop s.wall = { k with status := .stopped, stoppedAt := some s.wall } := by
      simp [Worker.stop, idle]
    rw [halted]
    exact stopped rfl rfl rfl cancelled
  have like : ∀ {k'' : Worker}, k''.Proper s'.pool.tokens → { k' with loop := k.loop } = k'' →
      k'.Proper s'.pool.tokens := by
    rintro _ ⟨handedOut, dated, cancelled, live⟩ rfl
    exact ⟨handedOut, dated, cancelled, live⟩
  cases switch with
  | stays same unasked _ _ =>
    refine like ⟨handedOut, h.dated, fun stopped => ?_, fun idle live => ?_⟩ same
    · rw [asked, h.cancelled stopped, Bool.true_or]
    · have root : s.pool.tokens.root = false := by
        rcases cancels.root with same | ⟨-, root⟩
        · exact same.symm.trans live
        · rw [live] at root
          cases root
      have spared : op.stops w = false := by
        cases op with
        | stop v =>
          refine beq_eq_false_iff_ne.2 fun own => (unasked idle).1 ?_
          rw [own]
        | release v =>
          refine beq_eq_false_iff_ne.2 fun own => (unasked idle).2 ?_
          rw [own]
        | cancelRoot =>
          cases performed with
          | cancelRoot => cases live
        | _ => rfl
      rw [asked, h.live idle root, spared, Bool.or_false]
  | takes _ idle _ _ =>
    have goes : k.isStopped = false := by
      cases status : k.status <;> simp [Worker.isIdle, Worker.isStopped, status] at idle ⊢
    exact ⟨handedOut, undated goes, by rintro ⟨⟩, by rintro ⟨⟩⟩
  | finishes current working done =>
    have spared : s'.pool.tokens.isCancelled k.token = s.pool.tokens.isCancelled k.token :=
      asked.trans (Bool.or_false _)
    cases cancelled : s.pool.tokens.isCancelled k.token with
    | true => exact stopped rfl rfl rfl (spared.trans cancelled)
    | false =>
      have goes := Pool.isStopped_of_isWorking working
      exact ⟨handedOut, undated goes, by rintro ⟨⟩, fun _ _ => spared.trans cancelled⟩
  | stops asks idle same =>
    refine like (halts idle ?_) same
    have stops : op.stops w = true := by
      rcases asks with rfl | rfl <;> exact beq_self_eq_true w
    rw [asked, stops, Bool.or_true]
  | ends _ idle root =>
    refine halts idle ?_
    have rooted : s.pool.tokens.isCancelled k.token = true := by simp [Tokens.isCancelled, root]
    rw [asked, rooted, Bool.true_or]
  | starts stopped live =>
    rw [tokens_of_started found stopped live performed]
    exact proper_of_new rfl rfl rfl

/-- Loops and workers still match after a step of a loop. -/
theorem matched_of_loopStep (h : s.pool.Staffed) {i : LoopId} (stepped : s.stepLoop i = some s') :
    s'.pool.Matched := by
  obtain ⟨l, f, phase, found, step, workers, loops⟩ := stepsLoop_of_step stepped
  obtain ⟨k, carrier, fits⟩ := h.matched.fitting found
  have marks : ∀ wall, l.isBusy = false →
      Loop.Fits { l with phase := .ended } (k.markStopped l.generation wall) := by
    intro wall free
    refine ⟨?_, (absurd · Bool.false_ne_true), ?_, ?_⟩
    · rw [k.generation_markStopped]
      exact fits.generation_le
    · rw [k.generation_markStopped, k.token_markStopped]
      exact fits.token_eq
    · rw [k.generation_markStopped]
      intro current
      have marked := k.isStopped_markStopped wall
      rw [← show l.generation = k.generation from current] at marked
      exact Worker.isWorking_of_isStopped marked
  have likewise : ∀ {phase : Loop.Phase}, ({ l with phase } : Loop).isBusy = l.isBusy →
      Loop.Fits { l with phase } k := by
    intro phase same
    refine ⟨fits.generation_le, ?_, fits.token_eq, ?_⟩
    · rw [same]
      exact fits.current_of_busy
    · rw [same]
      exact fits.working_eq
  generalize s'.pool.tokens = t at step
  cases step with
  | ends free _ _ _ =>
    refine h.matched.exchange (f := (·.markStopped l.generation s.wall)) found carrier
      (k.generation_markStopped ..) (k.token_markStopped ..) (marks s.wall free)
      (fun outdated => ?_) workers loops
    rw [Worker.markStopped_of_ne (Ne.symm outdated)]
  | rests free stays _ _ =>
    exact h.matched.exchange found carrier rfl rfl (likewise (stays.trans free.symm)) (fun _ => rfl)
      workers loops
  | @turns r run t running _ _ _ _ _ =>
    have busy : ({ l with phase := .running run } : Loop).isBusy = l.isBusy := by
      simp [Loop.isBusy, running]
    exact h.matched.exchange found carrier rfl rfl (likewise busy) (fun _ => rfl) workers loops
  | crashes running _ _ =>
    have busy : ({ l with phase := .crashed } : Loop).isBusy = l.isBusy := by
      simp [Loop.isBusy, running]
    exact h.matched.exchange found carrier rfl rfl (likewise busy) (fun _ => rfl) workers loops
  | takes free mayTake _ _ _ =>
    have current := ((Pool.mayTake_iff carrier).1 mayTake).1.symm
    exact h.matched.exchange found carrier rfl rfl
      ⟨fits.generation_le, fun _ => current, fits.token_eq, fun _ => rfl⟩ (absurd current) workers
      loops
  | finishes running _ _ =>
    have busy := Loop.busy_of_running running
    have current := fits.current_of_busy busy
    generalize s.pool.tokens.isCancelled l.token = cancelled at workers loops
    cases cancelled with
    | true =>
      have ended : Loop.Fits { l with phase := .ended } (k.finish true s.wall) :=
        ⟨fits.generation_le, (absurd · Bool.false_ne_true), fits.token_eq, fun _ => rfl⟩
      exact h.matched.exchange found carrier rfl rfl ended (absurd current) workers loops
    | false =>
      have looks : Loop.Fits { l with phase := .looking } (k.finish false s.wall) :=
        ⟨fits.generation_le, (absurd · Bool.false_ne_true), fits.token_eq, fun _ => rfl⟩
      exact h.matched.exchange found carrier rfl rfl looks (absurd current) workers loops
  | finishesLate running outdated =>
    have current := h.matched.current_of_busy found (Loop.busy_of_running running)
    rw [outdated] at current
    cases current

theorem matched_of_performs (h : s.pool.Staffed) (performed : s.Performs op s') :
    s'.pool.Matched := by
  have asked : ∀ {f : Worker → Worker} {v : WorkerId},
      (∀ k, (f k).generation = k.generation ∧ (f k).token = k.token ∧
        (f k).isWorking = k.isWorking) → (s.pool.ask f v).Matched := by
    intro f v like
    have asked := Pool.asked_ask (f := f) s.pool v
    refine h.matched.of_alike (f := id) ?_ (fun _ => ⟨rfl, rfl, rfl, rfl⟩) asked.workers ?_
    · rw [List.map_id]
      exact (congrArg Pool.loops asked.rest :)
    · intro w k _
      split
      · exact like k
      · exact ⟨rfl, rfl, rfl⟩
  cases performed with
  | spawn =>
    refine h.matched.start (w := s.pool.workers.length)
      (k := .create s.wall s.pool.tokens.child.1 s.pool.loops.length)
      (s.pool.workers_addWorker s.wall) rfl rfl rfl fun l hl same => ?_
    obtain ⟨k, carrier, -⟩ := h.matched.fits l hl
    simp [same] at carrier
  | start w =>
    unfold Pool.restartWorker
    split
    · exact h.matched
    · rename_i k found
      split
      · exact h.matched
      · rename_i ready
        have stopped : k.isStopped = true := by simp_all
        exact h.matched.start (w := w)
          (k := k.restart s.wall s.pool.tokens.child.1 s.pool.loops.length)
          (Pool.workers_set found _) rfl rfl rfl (h.matched.older found stopped)
  | stop w =>
    exact asked fun k => ⟨k.generation_stop _, k.token_stop _, k.isWorking_stop _⟩
  | release w =>
    rw [Pool.releaseWorker_eq]
    exact asked fun k => ⟨k.generation_stop _, k.token_stop _, k.isWorking_stop _⟩
  | cancelRoot => exact ⟨h.matched.fits, h.matched.apart⟩
  | step stepped => exact matched_of_loopStep h stepped
  | notify =>
    exact h.matched.of_alike rfl Pool.alike_notify (g := fun _ k => k)
      (by simp [withPool, Pool.notifyAll]) fun _ _ _ => ⟨rfl, rfl, rfl⟩
  | elsewhere apart =>
    refine ⟨?_, ?_⟩
    · rw [apart.workers, apart.loops]
      exact h.matched.fits
    · rw [apart.loops]
      exact h.matched.apart

/-- A run changes only by steps of its loop. -/
theorem runAt_of_performs (performed : s.Performs op s') {i : LoopId} (other : op ≠ .step i) :
    s'.pool.runAt i = s.pool.runAt i := by
  have asked : ∀ {f : Worker → Worker} {v : WorkerId},
      (s.pool.ask f v).runAt i = s.pool.runAt i := fun {f v} =>
    Pool.runAt_of_loops (congrArg Pool.loops (Pool.asked_ask (f := f) s.pool v).rest :) i
  cases performed with
  | spawn => exact Pool.runAt_append (p := s.pool) rfl rfl i
  | start w =>
    unfold Pool.restartWorker
    split
    · rfl
    · split
      · rfl
      · exact Pool.runAt_append (p := s.pool) rfl rfl i
  | stop w => exact asked
  | release w =>
    rw [Pool.releaseWorker_eq]
    exact asked
  | cancelRoot => rfl
  | notify => exact (Pool.follows_of_change .notify i).same (by simp)
  | elsewhere apart => exact Pool.runAt_of_loops apart.loops i
  | @step j _ stepped =>
    obtain ⟨l, f, phase, found, -, -, loops⟩ := stepsLoop_of_step stepped
    rw [Pool.runAt_setPhase (p := s.pool) phase found loops i]
    exact if_neg fun own => other (congrArg _ own)

/-- What a loop runs after a step of it is what it ran before, a turn further, or a job that it
has just taken. -/
inductive Carries (s : Site) (i : LoopId) (t : Tokens) (run : Run) : Prop where
  | on {r : Run} {turn : Run.Turn} (was : s.pool.runAt i = some r) (own : run.job = r.job)
      (spares : turn.Spares r s.pool.tokens) (tokens : t = turn.tokens)
      (made : ∀ a ∈ run.underway?, a ∈ turn.next.underway?)
  | off {job : Job} (taken : s.takes (.loop i) = some job) (own : run.job = job)
      (none_made : run.underway? = none)

theorem carries_of_loopStep {i : LoopId} {run : Run} (stepped : s.stepLoop i = some s')
    (runs : s'.pool.runAt i = some run) : s.Carries i s'.pool.tokens run := by
  obtain ⟨l, f, phase, found, step, -, loops⟩ := stepsLoop_of_step stepped
  rw [Pool.runAt_setPhase (p := s.pool) phase found loops i, if_pos rfl] at runs
  have idle : ∀ {phase : Loop.Phase}, ({ l with phase } : Loop).isBusy = false →
      ({ l with phase } : Loop).run? ≠ some run := by
    intro phase free
    cases phase <;> simp [Loop.isBusy, Loop.run?] at free ⊢
  generalize s'.pool.tokens = t at step
  cases step with
  | ends _ _ _ _ => exact absurd runs (idle rfl)
  | rests _ stays _ _ => exact absurd runs (idle stays)
  | crashes _ _ _ => cases runs
  | finishes _ _ _ =>
    refine absurd runs (idle ?_)
    split <;> rfl
  | finishesLate _ _ => exact absurd runs (idle rfl)
  | takes _ _ taken own none_made =>
    obtain rfl := Option.some.inj runs
    exact .off taken own none_made
  | turns running spares own makes _ _ =>
    obtain rfl := Option.some.inj runs
    exact .on (Pool.runAt_eq_some.2 ⟨l, found, running⟩) own spares rfl makes

/-- An attempt that is made now was made before, or has just begun in a step of a loop, with the
next token. -/
theorem attempt_of_performs (performed : s.Performs op s') {i : LoopId} {a : Underway}
    (made : s'.pool.attemptAt i = some a) :
    s.pool.attemptAt i = some a ∨ (∃ j, op = .step j) ∧ a.token = s.pool.tokens.children.length ∧
      s'.pool.tokens.children.length = s.pool.tokens.children.length + 1 := by
  by_cases own : op = .step i
  · subst own
    obtain ⟨run, runs, underway⟩ := Option.bind_eq_some_iff.1 made
    cases performed with
    | step stepped =>
      cases carries_of_loopStep stepped runs with
      | off _ _ none_made =>
        rw [none_made] at underway
        cases underway
      | on was _ spares tokens makes =>
        obtain ⟨-, b, begun, token⟩ := spares.underway a (makes a underway)
        rcases spares.begun with ⟨none_begun, -⟩ | ⟨b', begun', token', more⟩
        · rw [begun] at none_begun
          cases none_begun
        · obtain rfl := Option.some.inj (begun.symm.trans begun')
          exact .inr ⟨⟨i, rfl⟩, token.trans token', tokens ▸ more⟩
  · left
    rw [Pool.attemptAt, ← runAt_of_performs performed own]
    exact made

theorem Performs.staffed (performed : s.Performs op s') (h : s.pool.Staffed) :
    s'.pool.Staffed where
  matched := matched_of_performs h performed
  proper := by
    intro w k' found'
    rcases switch_of_performs h performed found' with ⟨k, found, switch⟩ | ⟨rfl, -, rfl⟩
    · exact switch.proper (h.proper w k found) found performed (cancels_of_performs h performed)
    · cases performed with
      | spawn => exact proper_of_new rfl rfl rfl
  distinct := by
    intro v w j' k' foundJ foundK same
    have older : ∀ {w : WorkerId} {k : Worker}, s.pool.workers[w]? = some k →
        k.token ≠ s.pool.tokens.children.length := fun found =>
      Nat.ne_of_lt (h.proper _ _ found).handedOut
    rcases token_of_performs h performed foundJ with ⟨j, wasJ, tokenJ⟩ | ⟨tokenJ, newJ⟩
    · rcases token_of_performs h performed foundK with ⟨k, wasK, tokenK⟩ | ⟨tokenK, -⟩
      · exact h.distinct v w j k wasJ wasK (tokenJ.symm.trans (same.trans tokenK))
      · exact absurd (tokenJ.symm.trans (same.trans tokenK)) (older wasJ)
    · rcases token_of_performs h performed foundK with ⟨k, wasK, tokenK⟩ | ⟨-, newK⟩
      · exact absurd (tokenK.symm.trans (same.symm.trans tokenJ)) (older wasK)
      · rcases newJ with rfl | ⟨rfl, rfl⟩
        · rcases newK with same | ⟨spawn, -⟩
          · exact WorkerOp.start.inj same
          · cases spawn
        · rcases newK with start | ⟨-, rfl⟩
          · cases start
          · rfl
  offAttempts := by
    intro i a made
    rcases attempt_of_performs performed made with was | ⟨⟨j, rfl⟩, token, more⟩
    · obtain ⟨handedOut, apart⟩ := h.offAttempts i a was
      refine ⟨Nat.lt_of_lt_of_le handedOut (cancels_of_performs h performed).length_le, ?_⟩
      intro w k' found'
      rcases token_of_performs h performed found' with ⟨k, found, same⟩ | ⟨new, -⟩
      · rw [same]
        exact apart w k found
      · rw [new]
        exact Nat.ne_of_lt handedOut
    · refine ⟨?_, fun w k' found' => ?_⟩
      · rw [token, more]
        exact Nat.lt_succ_self _
      · rcases token_of_performs h performed found' with ⟨k, found, same⟩ | ⟨-, new⟩
        · rw [token, same]
          exact Nat.ne_of_gt (h.proper w k found).handedOut
        · rcases new with start | ⟨spawn, -⟩
          · cases start
          · cases spawn

end Site

theorem Service.staffed {start s : Site} {ops : List (Site × WorkerOp)}
    (service : Service start ops s) (h : start.pool.Staffed) : s.pool.Staffed := by
  induction service with
  | here => exact h
  | step op _ performed ih => exact performed.staffed ih

end JobPool
