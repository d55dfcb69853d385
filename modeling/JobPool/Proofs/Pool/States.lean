/-
JobPool.Proofs.Pool.States — the states of a worker, however it is used.

The invariant of `Pool.Staffed` says what a status comes with, and `Site.Switch` how it changes.
What remains is what lies between two switches: from the step that takes a job until the one that
finishes it the worker keeps working with one loop, one generation and one token
(`Site.Engaged`), and the token gets cancelled only by those who ask the worker to stop. Loops
of older generations have no part in any of this.
-/
import JobPool.Proofs.Pool.Service

namespace JobPool

open Pool (Matched)

variable {s s' : Site} {op : WorkerOp} {i j : LoopId} {w : WorkerId} {k : Worker}

/-! ## Loops of one worker -/

/-- A worker has one current loop. -/
theorem Site.IsCurrent.unique (h : s.IsCurrent i w k) (h' : s.IsCurrent j w k)
    (matched : s.pool.Matched) : i = j := by
  obtain ⟨l, found, carried, generation⟩ := h
  obtain ⟨l', found', carried', generation'⟩ := h'
  obtain ⟨hi, rfl⟩ := List.getElem?_eq_some_iff.1 found
  obtain ⟨hj, rfl⟩ := List.getElem?_eq_some_iff.1 found'
  have apart := List.pairwise_iff_getElem.1 matched.apart
  rcases Nat.lt_trichotomy i j with lt | same | gt
  · exact absurd (generation.trans generation'.symm)
      (apart i j hi hj lt (carried.trans carried'.symm))
  · exact same
  · exact absurd (generation'.trans generation.symm)
      (apart j i hj hi gt (carried'.trans carried.symm))

/-- A loop that may take a job is the current one of its worker. -/
theorem Pool.Matched.isCurrent_of_mayTake (h : s.pool.Matched) {l : Loop}
    (found : s.pool.loops[i]? = some l) (mayTake : s.pool.mayTake l = true) :
    ∃ k, s.pool.workers[l.worker]? = some k ∧ s.IsCurrent i l.worker k := by
  obtain ⟨k, carrier, -⟩ := h.fitting found
  exact ⟨k, carrier, l, found, rfl, ((Pool.mayTake_iff carrier).1 mayTake).1.symm⟩

/-- A loop of an older generation changes nothing but its own phase. -/
theorem Site.unaffected_of_outdated (h : s.pool.Matched) (out : s.pool.Outdated i)
    (stepped : s.stepLoop i = some s') :
    s'.pool.workers = s.pool.workers ∧ s'.pool.tokens = s.pool.tokens ∧
      s.takes (.loop i) = none ∧ s.finishes (.loop i) = none := by
  obtain ⟨l, k, found, carrier, lt⟩ := out
  obtain ⟨l', f, phase, found', step, workers, -⟩ := stepsLoop_of_step stepped
  obtain rfl := Option.some.inj (found.symm.trans found')
  obtain ⟨k', carrier', fits⟩ := h.fitting found
  obtain rfl := Option.some.inj (carrier.symm.trans carrier')
  have free : l.isBusy = false := by
    rw [← Bool.not_eq_true]
    intro busy
    exact Nat.ne_of_lt lt (fits.current_of_busy busy)
  have unmoved : ∀ {g : Worker → Worker}, g k = k →
      (s.pool.modifyWorker l.worker g).workers = s.pool.workers := by
    intro g same
    refine List.ext_getElem? fun v => ?_
    rw [Pool.workers_modifyWorker]
    by_cases own : l.worker = v
    · subst own
      rw [carrier, Option.map_some, if_pos rfl, same]
    · simp [own]
  rw [workers]
  generalize s'.pool.tokens = t at step
  cases step with
  | ends _ _ untaken undone =>
    refine ⟨unmoved ?_, rfl, untaken, undone⟩
    exact Worker.markStopped_of_ne (Ne.symm (Nat.ne_of_lt lt)) _
  | rests _ _ untaken undone => exact ⟨unmoved rfl, rfl, untaken, undone⟩
  | takes _ mayTake _ _ _ =>
    exact absurd ((Pool.mayTake_iff carrier).1 mayTake).1.symm (Nat.ne_of_lt lt)
  | turns running _ _ _ _ _ => simp [Loop.isBusy, running] at free
  | crashes running _ _ => simp [Loop.isBusy, running] at free
  | finishes running _ _ => simp [Loop.isBusy, running] at free
  | finishesLate running _ => simp [Loop.isBusy, running] at free

/-! ## From taking a job to its end -/

namespace Site

theorem exists_worker_of_performs (performed : s.Performs op s')
    (found : s.pool.workers[w]? = some k) : ∃ k', s'.pool.workers[w]? = some k' := by
  have asked : ∀ {f : Worker → Worker} {v : WorkerId},
      ∃ k', (s.pool.ask f v).workers[w]? = some k' := by
    intro f v
    rw [(Pool.asked_ask (f := f) s.pool v).workers, found]
    exact ⟨_, rfl⟩
  cases performed with
  | spawn =>
    exact ⟨k, (List.getElem?_append_left (List.getElem?_eq_some_iff.1 found).1).trans found⟩
  | start v =>
    unfold Pool.restartWorker
    split
    · exact ⟨k, found⟩
    · split
      · exact ⟨k, found⟩
      · rename_i k₀ found₀ _
        show ∃ k', (s.pool.workers.set v _)[w]? = some k'
        rw [Pool.workers_set found₀]
        split
        · exact ⟨_, rfl⟩
        · exact ⟨k, found⟩
  | stop v => exact asked
  | release v =>
    rw [Pool.releaseWorker_eq]
    exact asked
  | cancelRoot => exact ⟨k, found⟩
  | notify => exact ⟨k, found⟩
  | elsewhere apart => exact ⟨k, apart.workers ▸ found⟩
  | step stepped =>
    obtain ⟨l, f, phase, -, -, workers, -⟩ := stepsLoop_of_step stepped
    rw [workers, Pool.workers_modifyWorker, found]
    exact ⟨_, rfl⟩

/-- Loops stay loops of their worker and their generation. -/
theorem exists_loop_of_performs (performed : s.Performs op s') {l : Loop}
    (found : s.pool.loops[i]? = some l) : ∃ l', s'.pool.loops[i]? = some l' ∧
      l'.worker = l.worker ∧ l'.generation = l.generation := by
  have same : ∀ {p : Pool}, p.loops = s.pool.loops → ∃ l', p.loops[i]? = some l' ∧
      l'.worker = l.worker ∧ l'.generation = l.generation :=
    fun loops => ⟨l, loops ▸ found, rfl, rfl⟩
  have appended : ∀ new : Loop, ∃ l', (s.pool.loops ++ [new])[i]? = some l' ∧
      l'.worker = l.worker ∧ l'.generation = l.generation := fun new =>
    ⟨l, (List.getElem?_append_left (List.getElem?_eq_some_iff.1 found).1).trans found, rfl, rfl⟩
  cases performed with
  | spawn => exact appended _
  | start v =>
    unfold Pool.restartWorker
    split
    · exact same rfl
    · split
      · exact same rfl
      · exact appended _
  | stop v => exact same (congrArg Pool.loops (s.pool.asked_stopWorker s.wall v).rest :)
  | release v =>
    rw [Pool.releaseWorker_eq]
    exact same (congrArg Pool.loops (Pool.asked_ask s.pool v).rest :)
  | cancelRoot => exact same rfl
  | notify =>
    refine ⟨l.notify, ?_, (Pool.alike_notify l).worker, (Pool.alike_notify l).generation⟩
    simp [withPool, Pool.notifyAll, found]
  | elsewhere apart => exact same apart.loops
  | step stepped =>
    obtain ⟨-, -, phase, -, -, -, loops⟩ := stepsLoop_of_step stepped
    rw [loops]
    obtain ⟨l', found', worker, generation⟩ :=
      (Pool.later_setPhase s.pool _ phase).loops i l found
    exact ⟨l', found', worker, generation⟩

/-- Worker `w` is `k`, but for the right to wait for its loop. It works, and the job that its
current loop `i` runs, if it has not crashed, is `job`. -/
structure Engaged (s : Site) (i : LoopId) (w : WorkerId) (k : Worker) (job : Job) : Prop where
  worker : ∃ k', s.pool.workers[w]? = some k' ∧ { k' with loop := k.loop } = k
  working : k.isWorking = true
  current : s.IsCurrent i w k
  job : ∀ r, s.pool.runAt i = some r → r.job = job

theorem IsCurrent.of_performs (h : s.IsCurrent i w k) (performed : s.Performs op s') :
    s'.IsCurrent i w k := by
  obtain ⟨l, found, carried, generation⟩ := h
  obtain ⟨l', found', worker, same⟩ := exists_loop_of_performs performed found
  exact ⟨l', found', worker.trans carried, same.trans generation⟩

/-- A loop does not take a job and finish one in the same step. -/
theorem finishes_of_takes {job : Job} (taken : s.takes (.loop i) = some job) :
    s.finishes (.loop i) = none := by
  cases found : s.pool.loops[i]? with
  | none => simp [takes, found] at taken
  | some l => cases phase : l.phase <;> simp [takes, finishes, found, phase] at taken ⊢

/-- A loop that takes a job is the current one of an idle worker. -/
theorem idle_of_takes (h : s.pool.Staffed) {job : Job} (taken : s.takes (.loop i) = some job) :
    ∃ w k, s.pool.workers[w]? = some k ∧ s.IsCurrent i w k ∧ k.isIdle = true ∧
      s.pool.tokens.isCancelled k.token = false := by
  cases found : s.pool.loops[i]? with
  | none => simp [takes, found] at taken
  | some l =>
    cases phase : l.phase with
    | looking =>
      have mayTake : s.pool.mayTake l = true := by
        by_contra barred
        simp [takes, found, phase, barred] at taken
      obtain ⟨k, carrier, current⟩ := h.matched.isCurrent_of_mayTake found mayTake
      obtain ⟨-, token, working⟩ := h.current found carrier current
      have live := ((Pool.mayTake_iff carrier).1 mayTake).2
      rw [token] at live
      refine ⟨l.worker, k, carrier, current, ?_, live⟩
      rw [← Bool.not_eq_false]
      intro busy
      rcases Worker.isStopped_or_isWorking busy with stopped | works
      · rw [(h.proper _ k carrier).cancelled stopped] at live
        cases live
      · rw [works] at working
        simp [Loop.isBusy, phase] at working
    | _ => simp [takes, found, phase] at taken

/-- With the job that it takes, a worker is engaged. -/
theorem engaged_of_takes (h : s.pool.Staffed) {job : Job} (found : s.pool.workers[w]? = some k)
    (current : s.IsCurrent i w k) (taken : s.takes (.loop i) = some job)
    (performed : s.Performs (.step i) s') : s'.Engaged i w k.take job := by
  obtain ⟨k', found'⟩ := exists_worker_of_performs performed found
  have becomes : k' = k.take := by
    rcases switch_of_performs h performed found' with ⟨k₀, found₀, switch⟩ | ⟨spawn, -⟩
    · obtain rfl := Option.some.inj (found.symm.trans found₀)
      cases switch with
      | stays _ _ _ quiet =>
        have untaken := (quiet i rfl current).1
        rw [taken] at untaken
        cases untaken
      | takes _ _ _ _ => rfl
      | finishes _ _ done =>
        rw [finishes_of_takes taken] at done
        cases done
      | stops asked _ _ => rcases asked with asked | asked <;> cases asked
      | ends current' _ root =>
        obtain ⟨w', k'', found'', current'', -, live⟩ := idle_of_takes h taken
        simp [Tokens.isCancelled, root] at live
    · cases spawn
  refine ⟨⟨k', found', by rw [becomes]⟩, rfl, ?_, fun r runs => ?_⟩
  · exact current.of_performs performed
  · cases performed with
    | step stepped =>
      cases carries_of_loopStep stepped runs with
      | off taken' own _ => exact own.trans (Option.some.inj (taken'.symm.trans taken))
      | on was _ _ _ _ =>
        obtain ⟨l, found, running⟩ := Pool.runAt_eq_some.1 was
        simp [takes, found, running] at taken

/-- An engaged worker stays so until its loop finishes the job. -/
theorem Engaged.of_performs {job : Job} (engaged : s.Engaged i w k job) (h : s.pool.Staffed)
    (performed : s.Performs op s') (unfinished : op = .step i → s.finishes (.loop i) = none) :
    s'.Engaged i w k job := by
  obtain ⟨⟨k₁, found, same⟩, working, current, own⟩ := engaged
  have working₁ : k₁.isWorking = true := (congrArg Worker.isWorking same :).trans working
  have busy : k₁.isIdle = false ∧ k₁.isStopped = false := by
    cases status : k₁.status <;>
      simp [Worker.isIdle, Worker.isStopped, Worker.isWorking, status] at working₁ ⊢
  have current₁ : s.IsCurrent i w k₁ := by
    obtain ⟨l, found, carried, generation⟩ := current
    exact ⟨l, found, carried, generation.trans (congrArg Worker.generation same :).symm⟩
  obtain ⟨k', found'⟩ := exists_worker_of_performs performed found
  refine ⟨⟨k', found', ?_⟩, working, current.of_performs performed, fun r runs => ?_⟩
  · rcases switch_of_performs h performed found' with ⟨k₀, found₀, switch⟩ | ⟨-, new, -⟩
    · obtain rfl := Option.some.inj (found.symm.trans found₀)
      cases switch with
      | stays stays _ _ _ =>
        rw [← same, ← stays]
      | takes _ idle _ _ =>
        rw [busy.1] at idle
        cases idle
      | finishes current' _ done =>
        obtain rfl := current'.unique current₁ h.matched
        rw [unfinished rfl] at done
        cases done
      | stops _ idle _ =>
        rw [busy.1] at idle
        cases idle
      | ends _ idle _ =>
        rw [busy.1] at idle
        cases idle
      | starts stopped _ =>
        rw [busy.2] at stopped
        cases stopped
    · rw [new] at found
      simp at found
  · by_cases step : op = .step i
    · subst step
      cases performed with
      | step stepped =>
        cases carries_of_loopStep stepped runs with
        | on was same' _ _ _ => exact same'.trans (own _ was)
        | off taken _ _ =>
          obtain ⟨w', k'', found'', current'', idle, -⟩ := idle_of_takes h taken
          obtain ⟨l, at_i, carried, -⟩ := current
          obtain ⟨l', at_i', carried', -⟩ := current''
          obtain rfl := Option.some.inj (at_i.symm.trans at_i')
          obtain rfl : w = w' := carried.symm.trans carried'
          obtain rfl := Option.some.inj (found.symm.trans found'')
          rw [busy.1] at idle
          cases idle
    · rw [runAt_of_performs performed step] at runs
      exact own r runs

/-- The end of the job: the worker stops if its token is cancelled, else it is idle. -/
theorem Engaged.finishes {job job' : Job} {success : Bool} (engaged : s.Engaged i w k job)
    (h : s.pool.Staffed) (done : s.finishes (.loop i) = some (job', success))
    (performed : s.Performs (.step i) s') :
    job' = job ∧ ∃ k₁, s.pool.workers[w]? = some k₁ ∧ { k₁ with loop := k.loop } = k ∧
      s'.pool.workers[w]? = some (k₁.finish (s.pool.tokens.isCancelled k.token) s.wall) := by
  obtain ⟨⟨k₁, found, same⟩, working, ⟨l, at_i, carried, generation⟩, own⟩ := engaged
  have current₁ : s.IsCurrent i w k₁ :=
    ⟨l, at_i, carried, generation.trans (congrArg Worker.generation same :).symm⟩
  refine ⟨?_, k₁, found, same, ?_⟩
  · cases phase : l.phase with
    | running r =>
      have runs : s.pool.runAt i = some r := Pool.runAt_eq_some.2 ⟨l, at_i, phase⟩
      have done : some (r.job, success) = some (job', success) := by
        cases ending : r.phase <;> simp [Site.finishes, at_i, phase, ending] at done ⊢
        exact done.1
      rw [← (Prod.mk.inj (Option.some.inj done)).1]
      exact own r runs
    | _ => simp [Site.finishes, at_i, phase] at done
  · obtain ⟨k', found'⟩ := exists_worker_of_performs performed found
    rw [found', ← (congrArg Worker.token same :)]
    rcases switch_of_performs h performed found' with ⟨k₀, found₀, switch⟩ | ⟨spawn, -⟩
    · obtain rfl := Option.some.inj (found.symm.trans found₀)
      cases switch with
      | stays _ _ _ quiet =>
        have undone := (quiet i rfl current₁).2
        rw [done] at undone
        cases undone
      | takes _ _ _ taken =>
        rw [finishes_of_takes taken] at done
        cases done
      | finishes _ _ _ => rfl
      | stops asked _ _ => rcases asked with asked | asked <;> cases asked
      | ends _ idle _ =>
        have working₁ : k₁.isWorking = true := (congrArg Worker.isWorking same :).trans working
        cases status : k₁.status <;> simp [Worker.isIdle, Worker.isWorking, status] at idle working₁
    · cases spawn

end Site

/-- A worker stays engaged along a service in which its loop does not finish the job, and its
token is cancelled as soon as somebody asks it to stop. -/
theorem Service.engaged {start s : Site} {ops : List (Site × WorkerOp)} {job : Job}
    (service : Service start ops s) (h : start.pool.Staffed) (engaged : start.Engaged i w k job)
    (unfinished : ∀ x ∈ ops, x.2 = .step i → x.1.finishes (.loop i) = none) :
    s.Engaged i w k job ∧ s.pool.tokens.isCancelled k.token =
      (start.pool.tokens.isCancelled k.token || ops.any (·.2.stops w)) := by
  induction service with
  | here =>
    rw [List.any_nil, Bool.or_false]
    exact ⟨engaged, rfl⟩
  | @step s s' ops op service performed ih =>
    obtain ⟨engaged, cancelled⟩ := ih fun x hx => unfinished x (List.mem_append_left _ hx)
    have staffed := service.staffed h
    obtain ⟨k₁, found, same⟩ := engaged.worker
    have token : k₁.token = k.token := (congrArg Worker.token same :)
    refine ⟨engaged.of_performs staffed performed (unfinished (s, op) (by simp)), ?_⟩
    have asked := (Site.cancels_of_performs staffed performed).asked w k₁ found
    rw [token, cancelled] at asked
    rw [asked, List.any_append, List.any_cons, List.any_nil, Bool.or_false, Bool.or_assoc]

/-! ## The state machine -/

/-- However workers are created, started, asked to stop and to end, whenever the root is cancelled,
and in whatever order the loops of all generations take their steps. A worker has a time of
stopping just if it is stopped; then its token is cancelled, and while it is idle the token is live
unless the root is cancelled. At most one loop of a worker may take a job. Every operation makes
of a worker what the state machine says. A loop of an older generation leaves all workers and
tokens as they are. And from taking a job until the end of that job a worker is working; then
it is stopped if it was asked to stop meanwhile, and else idle. -/
theorem worker_states {name : String} {settings : Settings} {driver : Driver Job} {hub : Hub}
    {wall : Nat} {picks : Picks} {ops : List (Site × WorkerOp)} {s : Site}
    (service : Service (.create name settings driver hub wall picks) ops s) :
    (∀ (w : WorkerId) (k : Worker), s.pool.workers[w]? = some k →
      k.stoppedAt.isSome = k.isStopped ∧
      (k.isStopped = true → s.pool.tokens.isCancelled k.token = true) ∧
      (k.isIdle = true → s.pool.tokens.root = false →
        s.pool.tokens.isCancelled k.token = false)) ∧
    (∀ (i j : LoopId) (a b : Loop), s.pool.loops[i]? = some a → s.pool.loops[j]? = some b →
      a.worker = b.worker → s.pool.mayTake a = true → s.pool.mayTake b = true → i = j) ∧
    (∀ op s', s.Performs op s' →
      (∀ (w : WorkerId) (k : Worker), s.pool.workers[w]? = some k →
        ∃ k', s'.pool.workers[w]? = some k' ∧ s.Switch w k op k') ∧
      ∀ (w : WorkerId) (k' : Worker), s'.pool.workers[w]? = some k' → s.pool.workers[w]? = none →
        op = .spawn ∧ k' = .create s.wall s.pool.tokens.child.1 s.pool.loops.length) ∧
    (∀ i s', s.Performs (.step i) s' → s.pool.Outdated i →
      s'.pool.workers = s.pool.workers ∧ s'.pool.tokens = s.pool.tokens ∧
        s.takes (.loop i) = none ∧ s.finishes (.loop i) = none) ∧
    ∀ i job s₁, s.Performs (.step i) s₁ → s.takes (.loop i) = some job →
      ∃ w k, s.pool.workers[w]? = some k ∧ s.IsCurrent i w k ∧
        ∀ later s₂, Service s₁ later s₂ →
          (∀ x ∈ later, x.2 = .step i → x.1.finishes (.loop i) = none) →
          ∃ k₂, s₂.pool.workers[w]? = some k₂ ∧ { k₂ with loop := k.loop } = k.take ∧
            ∀ job' success s₃, s₂.finishes (.loop i) = some (job', success) →
              s₂.Performs (.step i) s₃ →
              job' = job ∧ s₃.pool.workers[w]? =
                some (k₂.finish (later.any (·.2.stops w)) s₂.wall) := by
  have staffed := service.staffed (Pool.staffed_create name settings)
  refine ⟨fun w k found => ?_, ?_, fun op s' performed => ⟨?_, ?_⟩, ?_, ?_⟩
  · obtain ⟨-, dated, cancelled, live⟩ := staffed.proper w k found
    exact ⟨dated, cancelled, live⟩
  · intro i j a b foundA foundB same mayA mayB
    obtain ⟨k, carrier, currentA⟩ := staffed.matched.isCurrent_of_mayTake foundA mayA
    obtain ⟨k', carrier', currentB⟩ := staffed.matched.isCurrent_of_mayTake foundB mayB
    rw [← same] at carrier' currentB
    obtain rfl := Option.some.inj (carrier.symm.trans carrier')
    exact currentA.unique currentB staffed.matched
  · intro w k found
    obtain ⟨k', found'⟩ := Site.exists_worker_of_performs performed found
    rcases Site.switch_of_performs staffed performed found' with ⟨k₀, found₀, switch⟩ | ⟨-, new, -⟩
    · obtain rfl := Option.some.inj (found.symm.trans found₀)
      exact ⟨k', found', switch⟩
    · rw [new] at found
      simp at found
  · intro w k' found' missing
    rcases Site.switch_of_performs staffed performed found' with ⟨k₀, found₀, -⟩ | ⟨spawn, -, new⟩
    · rw [missing] at found₀
      cases found₀
    · exact ⟨spawn, new⟩
  · intro i s' performed out
    cases performed with
    | step stepped => exact Site.unaffected_of_outdated staffed.matched out stepped
  · intro i job s₁ performed taken
    obtain ⟨w, k, found, current, -, live⟩ := Site.idle_of_takes staffed taken
    have begins := Site.engaged_of_takes staffed found current taken performed
    have unasked := (Site.cancels_of_performs staffed performed).asked w k found
    refine ⟨w, k, found, current, fun later s₂ goes unfinished => ?_⟩
    have staffed₁ := performed.staffed staffed
    obtain ⟨engaged, cancelled⟩ := goes.engaged staffed₁ begins unfinished
    have asked : s₂.pool.tokens.isCancelled k.token = later.any (·.2.stops w) := by
      rw [show s₁.pool.tokens.isCancelled k.take.token = false from
        unasked.trans (by rw [live]; rfl), Bool.false_or] at cancelled
      exact cancelled
    obtain ⟨k₂, found₂, same⟩ := engaged.worker
    refine ⟨k₂, found₂, same, fun job' success s₃ done ends => ?_⟩
    obtain ⟨own, k₂', found₂', -, after⟩ := engaged.finishes (goes.staffed staffed₁) done ends
    obtain rfl := Option.some.inj (found₂.symm.trans found₂')
    refine ⟨own, after.trans ?_⟩
    rw [← asked]
    rfl

namespace Sample

/-- A pool with a job waiting, and nobody to do it. -/
def jobWaiting : Site :=
  .create "job waiting" {} (.memory { items := [quickJob] }) {} 0 .least

end Sample

open Sample

/-- A worker is stopped and started again before its first loop took a step; its new loop takes the
job, and the old one exits late; the worker is asked to stop while it works, and stops after the
job. -/
theorem worker_states_unattended : ∃ (ops later : List (Site × WorkerOp)) (s s' : Site)
    (k : Worker), Service jobWaiting ops s ∧ s.pool.Outdated 0 ∧
      (s.takes (.loop 1)).isSome = true ∧ Service s later s' ∧ s'.pool.workers[0]? = some k ∧
      k.isStopped = true ∧ k.generation = 1 := by
  have spawned : Service jobWaiting _ _ := .step .spawn .here .spawn
  have stopped := Service.step (.stop 0) spawned (.stop 0)
  have started := Service.step (.start 0) stopped (.start 0)
  obtain ⟨-, -, -, -, stint⟩ := worker_states started
  obtain ⟨w, k, found, ⟨l, at_i, carried, -⟩, goes⟩ := stint 1 quickJob _ (.step rfl) rfl
  obtain rfl := Option.some.inj at_i
  obtain rfl : 0 = w := carried
  obtain rfl := Option.some.inj found
  obtain ⟨k₂, -, same, ends⟩ := goes _ _ (.step (.step 1)
    (.step (.stop 0) (.step (.step 0) .here (.step rfl)) (.stop 0)) (.step rfl)) fun x hx own => by
    simp only [List.nil_append, List.cons_append, List.mem_cons, List.not_mem_nil, or_false] at hx
    rcases hx with rfl | rfl | rfl
    · cases own
    · cases own
    · rfl
  obtain ⟨-, after⟩ := ends quickJob true _ rfl (.step rfl)
  have generation : k₂.generation = 1 := (congrArg Worker.generation same :)
  exact ⟨_, _, _, _, _, started, ⟨_, _, rfl, rfl, by decide⟩, rfl,
    .step (.step 1) (.step (.step 1) (.step (.stop 0) (.step (.step 0)
      (.step (.step 1) .here (.step rfl)) (.step rfl)) (.stop 0)) (.step rfl)) (.step rfl),
    after, rfl, generation⟩

end JobPool
