/-
JobPool.Proofs.Pool.Growing — a growth round starts just as many workers as it is to.

The two phases of a round are walks, one along the registry and one that counts down, and
both are made of the same steps: one worker is started again, or one is created. Each step
`Pool.Grows`, and so do two of them in a row as long as no worker is started again after one
was created; so the round as a whole does, and its numbers are those of `Pool.roundSize`.
While jobs wait such a number is zero only where a worker is idle, or where all places are
taken and nobody is stopped. So after a round with jobs waiting some worker is not stopped.

  §1 Steps of a round
  §2 The round
  §3 When the root is live
  §4 Moves with a round
-/
import JobPool.Pool.Round
import JobPool.Proofs.Pool.Bound
import JobPool.Proofs.Pool.Standing
import JobPool.Proofs.Pool.Upkeep

namespace JobPool
namespace Pool

variable {p q r : Pool} {wall : Nat}

/-! ## §1 Steps of a round -/

theorem Grows.refl (p : Pool) (wall : Nat) : p.Grows wall [] 0 p where
  rest := rfl
  registry := (List.append_nil _).symm
  length := rfl
  left _ _ _ := rfl
  restarted := by simp
  created := by simp
  loops := ⟨[], (List.append_nil _).symm, rfl, rfl⟩
  tokens := by simp

/-- Two stretches of a round make one, if none is created before another is started again. -/
theorem Grows.trans {a b : List WorkerId} {n m : Nat} (first : p.Grows wall a n q)
    (second : q.Grows wall b m r) (ordered : b = [] ∨ n = 0) (apart : ∀ w ∈ b, w ∉ a) :
    p.Grows wall (a ++ b) (n + m) r := by
  obtain ⟨started, loops, carriers, handed⟩ := first.loops
  obtain ⟨started', loops', carriers', handed'⟩ := second.loops
  have numbers : List.range' p.workers.length n ++ List.range' q.workers.length m =
      List.range' p.workers.length (n + m) := by
    rw [first.length, List.range'_append_1]
  have together : a.length + n + (b.length + m) = (a ++ b).length + (n + m) := by
    rw [List.length_append]
    omega
  have stays : ∀ {i : LoopId} {l : Loop}, q.loops[i]? = some l → r.loops[i]? = some l := by
    intro i l found
    rw [loops', List.getElem?_append_left (List.getElem?_eq_some_iff.1 found).1, found]
  refine ⟨?_, ?_, ?_, fun w lt out => ?_, fun w hw => ?_, fun w hw => ?_,
    ⟨started ++ started', ?_, ?_, ?_⟩, ?_⟩
  · rw [second.rest, first.rest]
  · rw [second.registry, first.registry, List.append_assoc, numbers]
  · rw [second.length, first.length, Nat.add_assoc]
  · rw [List.mem_append, not_or] at out
    rw [second.left w (first.length ▸ Nat.lt_add_right n lt) out.2, first.left w lt out.1]
  · rcases List.mem_append.1 hw with hw | hw
    · obtain ⟨k, token, loop, found, stopped, found', carried⟩ := first.restarted w hw
      refine ⟨k, token, loop, found, stopped, ?_, stays carried⟩
      rw [second.left w (List.getElem?_eq_some_iff.1 found').1 fun hb => apart w hb hw, found']
    · obtain rfl := ordered.resolve_left (List.ne_nil_of_mem hw)
      obtain ⟨k, token, loop, found, stopped, found', carried⟩ := second.restarted w hw
      refine ⟨k, token, loop, ?_, stopped, found', carried⟩
      have lt : w < p.workers.length := by
        have := (List.getElem?_eq_some_iff.1 found).1
        rwa [first.length] at this
      rw [← first.left w lt (apart w hw), found]
  · rw [← numbers] at hw
    rcases List.mem_append.1 hw with hw | hw
    · obtain ⟨token, loop, found', carried⟩ := first.created w hw
      refine ⟨token, loop, ?_, stays carried⟩
      have some_new : n ≠ 0 := by
        rintro rfl
        cases hw
      obtain rfl := ordered.resolve_right some_new
      rw [second.left w (List.getElem?_eq_some_iff.1 found').1 List.not_mem_nil, found']
    · exact second.created w hw
  · rw [loops', loops, List.append_assoc]
  · rw [List.map_append, carriers, carriers', ← numbers]
    rcases ordered with rfl | rfl <;> simp
  · rw [List.map_append, handed, handed', first.tokens, List.length_append, List.length_replicate,
      List.range'_append_1, together]
  · rw [second.tokens, first.tokens, List.append_assoc, List.replicate_append_replicate, together]

theorem grows_addWorker (p : Pool) (wall : Nat) : p.Grows wall [] 1 (p.addWorker wall) where
  rest := rfl
  registry := rfl
  length := by simp [addWorker]
  left w lt _ := List.getElem?_append_left lt
  restarted := by simp
  created w hw := by
    obtain rfl : w = p.workers.length := by simpa using hw
    exact ⟨p.tokens.child.1, p.loops.length, List.getElem?_concat_length,
      List.getElem?_concat_length⟩
  loops := ⟨[⟨p.workers.length, 0, p.tokens.child.1, .looking⟩], rfl, rfl, rfl⟩
  tokens := rfl

theorem grows_restartWorker (wall : Nat) {w : WorkerId} {k : Worker}
    (found : p.workers[w]? = some k) (stopped : k.isStopped = true)
    (live : p.tokens.root = false) :
    (p.restartWorker wall w).1 = true ∧ p.Grows wall [w] 0 (p.restartWorker wall w).2 := by
  have restarts : p.restartWorker wall w = (true,
      { p with
        tokens := p.tokens.child.2
        workers := p.workers.set w (k.restart wall p.tokens.child.1 p.loops.length)
        loops := p.loops ++ [⟨w, k.generation + 1, p.tokens.child.1, .looking⟩] }) := by
    simp [restartWorker, found, live, stopped]
  have lt := (List.getElem?_eq_some_iff.1 found).1
  rw [restarts]
  refine ⟨rfl, rfl, (List.append_nil _).symm, by simp, fun v _ out => ?_, fun v hv => ?_,
    by simp, ⟨[⟨w, k.generation + 1, p.tokens.child.1, .looking⟩], rfl, rfl, rfl⟩, rfl⟩
  · exact List.getElem?_set_ne fun same => out (by simp [same])
  · obtain rfl := List.mem_singleton.1 hv
    exact ⟨k, p.tokens.child.1, p.loops.length, found, stopped, List.getElem?_set_self lt,
      List.getElem?_concat_length⟩

theorem grows_addWorkers (wall : Nat) : ∀ (n : Nat) (p : Pool),
    p.Grows wall [] n (p.addWorkers wall n)
  | 0, p => .refl p wall
  | n + 1, p => by
    have rest := grows_addWorkers wall n (p.addWorker wall)
    have both := (p.grows_addWorker wall).trans rest (.inl rfl) (by simp)
    rwa [Nat.add_comm] at both

theorem restartStopped_of_restarted {w : WorkerId} (restarted : (p.restartWorker wall w).1 = true)
    (ws : List WorkerId) (want : Nat) :
    restartStopped wall (w :: ws) (want + 1) p =
      ((restartStopped wall ws want (p.restartWorker wall w).2).1 + 1,
        (restartStopped wall ws want (p.restartWorker wall w).2).2) := by
  rw [restartStopped]
  split
  · rename_i restarted'
    rw [restarted']
  · rename_i refused
    rw [refused] at restarted
    cases restarted

/-- The walk along the registry starts stopped workers again, the first ones first. -/
theorem grows_restartStopped (wall : Nat) : ∀ (ws : List WorkerId) (want : Nat) (p : Pool),
    ws.Nodup → (∀ w ∈ ws, ∃ k, p.workers[w]? = some k) → p.tokens.root = false →
      (restartStopped wall ws want p).1 =
        min want (ws.filter (p.check (·.isStopped))).length ∧
      p.Grows wall ((ws.filter (p.check (·.isStopped))).take want) 0
        (restartStopped wall ws want p).2
  | [], 0, p, _, _, _ => ⟨rfl, .refl p wall⟩
  | w :: ws, 0, p, _, _, _ => by
    rw [List.take_zero]
    exact ⟨(Nat.zero_min _).symm, .refl p wall⟩
  | [], want + 1, p, _, _, _ => ⟨rfl, .refl p wall⟩
  | w :: ws, want + 1, p, distinct, exist, live => by
    obtain ⟨out, distinct⟩ := List.nodup_cons.1 distinct
    obtain ⟨k, found⟩ := exist w List.mem_cons_self
    have exist' := fun v hv => exist v (List.mem_cons_of_mem w hv)
    cases stopped : k.isStopped with
    | false =>
      have refused : p.restartWorker wall w = (false, p) := by
        simp [restartWorker, found, stopped]
      have skipped : (w :: ws).filter (p.check (·.isStopped)) =
          ws.filter (p.check (·.isStopped)) := by
        simp [check, found, stopped]
      rw [skipped]
      simp only [restartStopped, refused]
      exact grows_restartStopped wall ws (want + 1) p distinct exist' live
    | true =>
      obtain ⟨restarted, step⟩ := grows_restartWorker wall found stopped live
      have picked : (w :: ws).filter (p.check (·.isStopped)) =
          w :: ws.filter (p.check (·.isStopped)) := by
        simp [check, found, stopped]
      have others : ∀ v ∈ ws, (p.restartWorker wall w).2.workers[v]? = p.workers[v]? := by
        intro v hv
        obtain ⟨k', found'⟩ := exist' v hv
        refine step.left v (List.getElem?_eq_some_iff.1 found').1 fun same => out ?_
        rwa [← List.mem_singleton.1 same]
      have same : ws.filter ((p.restartWorker wall w).2.check (·.isStopped)) =
          ws.filter (p.check (·.isStopped)) :=
        List.filter_congr fun v hv => by rw [check, others v hv, check]
      have live' : (p.restartWorker wall w).2.tokens.root = false := by
        rw [step.tokens]
        exact live
      obtain ⟨count, rest⟩ := grows_restartStopped wall ws want (p.restartWorker wall w).2 distinct
        (fun v hv => by rw [others v hv]; exact exist' v hv) live'
      rw [same] at count rest
      rw [picked, List.take_succ_cons, List.length_cons, restartStopped_of_restarted restarted]
      refine ⟨?_, ?_⟩
      · rw [count]
        omega
      · refine step.trans rest (.inr rfl) fun v hv same => out ?_
        rw [← List.mem_singleton.1 same]
        exact (List.mem_filter.1 (List.mem_of_mem_take hv)).1

/-! ## §2 The round -/

/-- No round is to start nobody, and none more workers than the pool may have. -/
theorem perRound_bounds (settings : WorkerSettings) :
    1 ≤ settings.perRound ∧ settings.perRound ≤ max settings.maxWorkers 1 := by
  have share : settings.bound / max settings.batch 1 ≤ settings.bound := Nat.div_le_self ..
  have positive : 1 ≤ settings.bound := Nat.le_max_right ..
  show 1 ≤ settings.perRound ∧ settings.perRound ≤ settings.bound
  unfold WorkerSettings.perRound
  split
  · exact ⟨positive, Nat.le_refl _⟩
  · rename_i some_share
    exact ⟨Nat.pos_of_ne_zero some_share, share⟩

/-- A growth round starts the first stopped workers again and creates the rest. -/
theorem grow_spec (sound : p.Sound) (live : p.tokens.root = false) (wall pending : Nat) :
    (p.grow wall pending).1 = p.roundSize pending ∧
      p.Grows wall (p.stoppedWorkers.take (p.roundSize pending))
        (p.roundSize pending - p.stoppedWorkers.length) (p.grow wall pending).2 := by
  obtain ⟨count, again⟩ := grows_restartStopped wall p.registry
    (min p.settings.worker.perRound (pending - p.countWorkers (·.isIdle))) p sound.nodup
    sound.created live
  have within : p.registry.length ≤ max p.settings.worker.maxWorkers 1 := sound.within
  have bound : p.settings.worker.bound = max p.settings.worker.maxWorkers 1 := rfl
  rw [grow]
  generalize wanted : min p.settings.worker.perRound (pending - p.countWorkers (·.isIdle)) = want
    at count again
  have size : p.roundSize pending =
      min want (p.stoppedWorkers.length + max p.settings.worker.maxWorkers 1 -
        p.registry.length) := by
    rw [roundSize, ← wanted, Nat.min_assoc]
  split
  · rename_i none_wanted
    rw [size, none_wanted, Nat.zero_min, Nat.zero_sub, List.take_zero]
    exact ⟨rfl, .refl p wall⟩
  · generalize restartStopped wall p.registry want p = walked at count again
    obtain ⟨started, q⟩ := walked
    have settings : q.settings = p.settings := (congrArg Pool.settings again.rest :)
    have registry : q.registry = p.registry := by
      rw [again.registry, List.range'_zero, List.append_nil]
    have fresh := grows_addWorkers wall
      (min (want - started) (q.settings.worker.bound - q.registry.length)) q
    have both := again.trans fresh (.inl rfl) (by simp)
    have count : started = min want p.stoppedWorkers.length := count
    have created : min (want - started) (q.settings.worker.bound - q.registry.length) =
        p.roundSize pending - p.stoppedWorkers.length := by
      rw [settings, registry, bound, size]
      omega
    have picked : p.stoppedWorkers.take want = p.stoppedWorkers.take (p.roundSize pending) := by
      rw [List.take_eq_take_iff, size]
      omega
    refine ⟨?_, ?_⟩
    · show started + _ = _
      rw [created, count, size]
      omega
    · rw [List.append_nil, Nat.zero_add, created] at both
      rw [← picked]
      show p.Grows wall _ _ (q.addWorkers wall _)
      rw [created]
      exact both

/-- A round with jobs waiting leaves no pool with all its workers stopped. -/
theorem attended_grow (sound : p.Sound) (live : p.tokens.root = false) (wall : Nat)
    {pending : Nat} (waits : 0 < pending) : (p.grow wall pending).2.Attended := by
  obtain ⟨-, grows⟩ := grow_spec sound live wall pending
  have registry := grows.registry
  generalize (p.grow wall pending).2 = q at grows registry
  have positive := (perRound_bounds p.settings.worker).1
  have within : p.registry.length ≤ max p.settings.worker.maxWorkers 1 := sound.within
  by_cases attended : ∃ w ∈ p.registry, p.check (·.isStopped) w = false
  · -- somebody was not stopped, and nobody is stopped by a round
    obtain ⟨w, hw, unstopped⟩ := attended
    obtain ⟨k, found⟩ := sound.created w hw
    have unstopped : k.isStopped = false := by simpa [check, found] using unstopped
    refine ⟨w, registry ▸ List.mem_append_left _ hw, k, ?_, unstopped⟩
    rw [grows.left w (List.getElem?_eq_some_iff.1 found).1 fun again => ?_, found]
    have := (List.mem_filter.1 (List.mem_of_mem_take again)).2
    simp [check, found, unstopped] at this
  · -- all were stopped, so none is idle, and the round starts somebody
    have all_stopped : ∀ w ∈ p.registry, p.check (·.isStopped) w = true := by simpa using attended
    have everybody : p.stoppedWorkers = p.registry := List.filter_eq_self.2 all_stopped
    have none_idle : p.countWorkers (·.isIdle) = 0 := by
      refine List.countP_eq_zero.2 fun w hw idle => ?_
      have stopped := all_stopped w hw
      obtain ⟨k, found⟩ := sound.created w hw
      simp only [check, found, Option.any_some] at stopped idle
      cases status : k.status <;> simp [Worker.isStopped, Worker.isIdle, status] at stopped idle
    have size : 1 ≤ p.roundSize pending := by
      rw [roundSize, everybody, none_idle]
      omega
    cases stopped : p.registry with
    | nil =>
      rw [everybody, stopped, List.length_nil, Nat.sub_zero] at grows
      have new : p.workers.length ∈ List.range' p.workers.length (p.roundSize pending) := by
        rw [List.mem_range'_1]
        omega
      obtain ⟨token, loop, found, -⟩ := grows.created _ new
      exact ⟨_, grows.registry ▸ List.mem_append_right _ new, _, found, rfl⟩
    | cons w ws =>
      have first : w ∈ p.stoppedWorkers.take (p.roundSize pending) := by
        obtain ⟨n, size⟩ := Nat.exists_eq_add_of_le' size
        rw [everybody, stopped, size, List.take_succ_cons]
        exact List.mem_cons_self
      obtain ⟨k, token, loop, -, -, found, -⟩ := grows.restarted w first
      refine ⟨w, ?_, _, found, rfl⟩
      rw [registry, stopped]
      exact List.mem_append_left _ List.mem_cons_self

/-! ## §3 When the root is live -/

/-- The root is cancelled only by a release and by the last who could reach the pool. -/
def Rooted (p : Pool) : Prop := p.tokens.root = true → p.status = .released ∨ p.held = false

theorem Rooted.live (h : p.Rooted) (held : p.held = true) (unreleased : p.status ≠ .released) :
    p.tokens.root = false := by
  rw [Bool.eq_false_iff]
  intro root
  rcases h root with released | unheld
  · exact unreleased released
  · rw [held] at unheld
    cases unheld

theorem rooted_of_frame (same : q.frame = p.frame) (h : p.Rooted) : q.Rooted := by
  have root : q.tokens.root = p.tokens.root := (congrArg (·.tokens.root) same :)
  have status : q.status = p.status := (congrArg Pool.status same :)
  have held : q.held = p.held := (congrArg Pool.held same :)
  rw [Rooted, root, status, held]
  exact h

end Pool

theorem Site.rooted_of_move {s s' : Site} {m : Move} (h : s.pool.Rooted)
    (moved : s.move m = some s') : s'.pool.Rooted := by
  cases tends_of_move moved with
  | spares _ frame => exact Pool.rooted_of_frame frame h
  | refuses _ _ => exact h
  | watches _ _ _ frame => exact Pool.rooted_of_frame (p := s.pool.modifyUpkeep _ _) frame h
  | forwards _ _ frame => exact Pool.rooted_of_frame (p := s.pool.modifyUpkeep _ _) frame h
  | goesOn _ _ frame => exact Pool.rooted_of_frame (p := s.pool.setCall _ _) frame h
  | starts ready frame _ =>
    refine Pool.rooted_of_frame frame fun root => .inr ?_
    refine (h root).resolve_left fun released => ?_
    simp [released] at ready
  | stops running frame =>
    refine Pool.rooted_of_frame frame fun root => .inr ?_
    refine (h root).resolve_left fun released => ?_
    rw [running] at released
    cases released
  | releases _ frame => exact Pool.rooted_of_frame frame fun _ => .inl rfl
  | abandons frame => exact Pool.rooted_of_frame frame fun _ => .inr rfl

theorem Path.rooted {start s : Site} {ms : List (Site × Move)} (path : Path start ms s)
    (h : start.pool.Rooted) : s.pool.Rooted := by
  induction path with
  | here => exact h
  | step m _ moved ih => exact Site.rooted_of_move ih moved

/-! ## §4 Moves with a round -/

namespace Site

variable {s s' : Site}

theorem attended_spawnWorkers (sound : s.pool.Sound) (live : s.pool.tokens.root = false)
    (running : s.pool.status = .running) :
    s.spawnWorkers.2.pool.status = .running ∧ s.spawnWorkers.2.driver = s.driver ∧
      (0 < s.driver.pending → s.spawnWorkers.2.pool.Attended) := by
  have status := (congrArg Pool.status s.frame_spawnWorkers :)
  have unfolded : s.spawnWorkers.2 = s.withPool (s.pool.grow s.wall s.driver.pending).2 := by
    rw [spawnWorkers, if_pos running]
  refine ⟨status.trans running, s.quiet_spawnWorkers (d := none) |>.driver, fun waits => ?_⟩
  rw [unfolded]
  exact Pool.attended_grow sound live s.wall waits

/-- The watcher ends its pass with a round if jobs wait. -/
theorem attended_stepWatcher (sound : s.pool.Sound) (live : s.pool.tokens.root = false)
    (running : s.pool.status = .running) {u : UpkeepId}
    (reaped : (s.pool.watcherAt u).any (·.hasReaped) = true) (h : s.stepWatcher u = some s') :
    s'.pool.status = .running ∧ (0 < s'.driver.pending → s'.pool.Attended) := by
  rw [Pool.watcherAt, Option.any_map, Option.any_eq_true] at reaped
  obtain ⟨k, found, reaped⟩ := reaped
  obtain ⟨ticker, reaping⟩ := Watcher.hasReaped_iff.1 reaped
  simp only [stepWatcher, found, reaping, Option.bind_eq_bind, Option.bind_some] at h
  obtain rfl := Option.some.inj h
  obtain ⟨status, driver, attended⟩ := attended_spawnWorkers sound live running
  by_cases waits : 0 < s.driver.pending
  · simp only [if_pos waits]
    exact ⟨status, fun _ => attended waits⟩
  · simp only [if_neg waits]
    exact ⟨running, fun waits' => absurd waits' waits⟩

theorem attended_start (sound : s.pool.Sound) (live : s.pool.tokens.root = false)
    (ready : s.pool.status = .pending ∨ s.pool.status = .stopped) :
    s.start.2.pool.status = .running ∧
      (0 < s.start.2.driver.pending → s.start.2.pool.Attended) := by
  rw [start_of_ready ready]
  have sound' : (s.pool.started s.wall).Sound := sound.of_change (.aside (.start s.wall ready))
  obtain ⟨status, driver, attended⟩ := attended_spawnWorkers
    (s := s.withPool (s.pool.started s.wall)) sound' live rfl
  exact ⟨status, fun waits => attended (driver ▸ waits)⟩

theorem attended_dispatch (sound : s.pool.Sound) (live : s.pool.tokens.root = false)
    (running : s.pool.status = .running) {job : Job} (accepted : (s.dispatch job).1 = true) :
    (s.dispatch job).2.pool.status = .running ∧
      (0 < (s.dispatch job).2.driver.pending → (s.dispatch job).2.pool.Attended) := by
  simp only [dispatch, running] at accepted ⊢
  cases enqueued : s.driver.enqueue job with
  | mk taken driver =>
    cases taken with
    | false => simp [enqueued] at accepted
    | true =>
      simp only [if_true]
      have sound' : s.pool.notifyAll.Sound := sound.of_change .notify
      obtain ⟨status, same, attended⟩ := attended_spawnWorkers
        (s := { s with driver, pool := s.pool.notifyAll }) sound' live running
      exact ⟨status, fun waits => attended (same ▸ waits)⟩

/-- Whatever state the pool is in when a move with a round comes, it runs after it, and with jobs
waiting some worker is not stopped. -/
theorem attended_of_rouses (sound : s.pool.Sound) (rooted : s.pool.Rooted)
    (held : s.pool.held = true) {m : Move} (moved : s.move m = some s')
    (rouses : s.rouses m = true) :
    s'.pool.status = .running ∧ (0 < s'.driver.pending → s'.pool.Attended) := by
  have live : s.pool.status = .running → s.pool.tokens.root = false := by
    intro running
    exact rooted.live held (by simp [running])
  cases m with
  | task t =>
    cases t with
    | watcher u =>
      obtain ⟨running, reaped⟩ := Bool.and_eq_true_iff.1 rouses
      have running : s.pool.status = .running := by simpa using running
      exact attended_stepWatcher sound (live running) running reaped moved
    | _ => cases rouses
  | start =>
    have ready : s.pool.status = .pending ∨ s.pool.status = .stopped := by
      simpa [Site.rouses] using rouses
    have unreleased : s.pool.status ≠ .released := by
      rintro released
      simp [released] at ready
    obtain rfl : s.start.2 = s' := Option.some.inj moved
    exact attended_start sound (rooted.live held unreleased) ready
  | dispatch job =>
    obtain ⟨running, accepted⟩ := Bool.and_eq_true_iff.1 rouses
    have running : s.pool.status = .running := by simpa using running
    obtain rfl : (s.dispatch job).2 = s' := Option.some.inj moved
    exact attended_dispatch sound (live running) running accepted
  | _ => cases rouses

end Site

/-- Whatever settings a pool has and whatever moves were made at it while somebody can reach it:
a round may start at least one worker and no more than the pool may have; where it runs, a growth
round starts just as many workers as there are to start, the first stopped ones in the order of
the registry and then new ones, and leaves all others as they are; and after each move that has a
round no jobs wait with all workers stopped. -/
theorem growth_of_path {name : String} {settings : Settings} {driver : Driver Job} {hub : Hub}
    {wall : Nat} {picks : Picks} {ms : List (Site × Move)} {s : Site}
    (path : Path (.create name settings driver hub wall picks) ms s)
    (held : s.pool.held = true) :
    s.pool.settings = settings ∧
    1 ≤ settings.worker.perRound ∧
    settings.worker.perRound ≤ max settings.worker.maxWorkers 1 ∧
    (s.pool.status = .running → ∀ wall pending,
      (s.pool.grow wall pending).1 = s.pool.roundSize pending ∧
      s.pool.Grows wall (s.pool.stoppedWorkers.take (s.pool.roundSize pending))
        (s.pool.roundSize pending - s.pool.stoppedWorkers.length)
        (s.pool.grow wall pending).2) ∧
    ∀ m s', s.move m = some s' → s.rouses m = true →
      s'.pool.status = .running ∧ (0 < s'.driver.pending → s'.pool.Attended) := by
  have sound := (path.regular (Pool.regular_create name settings)).sound
  have rooted : s.pool.Rooted := path.rooted fun root => by cases root
  obtain ⟨positive, le⟩ := Pool.perRound_bounds settings.worker
  refine ⟨?_, positive, le, fun running wall pending => ?_,
    fun m s' => Site.attended_of_rouses sound rooted held⟩
  · obtain ⟨ds, does⟩ := path.does
    exact (Pool.later_of_changes does.changes).settings
  · exact Pool.grow_spec sound (rooted.live held (by simp [running])) wall pending

namespace Sample

/-- A pool of at most five workers, of which a round starts no more than two. -/
def fiveWorkers : Site :=
  .create "five workers" { worker := { maxWorkers := 5, batch := 2 } } (.memory {}) {} 0 .least

/-- Three workers are created, the first one takes a job, and the second one is stopped. -/
def staffThree : List Move :=
  [.start, .dispatch quickJob, .dispatch quickJob, .dispatch quickJob, .task (.loop 0),
    .stopWorker 1]

end Sample

open Sample

/-- With four jobs waiting the stopped worker is started again and one is created; a further job
is dispatched, and jobs wait, but not with all workers stopped. -/
theorem growth_of_path_roomy :
    ((fiveWorkers.plays staffThree).pool.grow 0 4).1 = 2 ∧
      (fiveWorkers.plays staffThree).pool.Grows 0 [1] 1
        ((fiveWorkers.plays staffThree).pool.grow 0 4).2 ∧
      ((fiveWorkers.plays staffThree).dispatch quickJob).2.pool.Attended := by
  have path := Site.path_of_plays staffThree fiveWorkers (by decide +kernel)
  obtain ⟨-, -, -, round, rouses⟩ := growth_of_path path (by decide +kernel)
  obtain ⟨count, grows⟩ := round (by decide +kernel) 0 4
  have size : (fiveWorkers.plays staffThree).pool.roundSize 4 = 2 := by decide +kernel
  have stopped : (fiveWorkers.plays staffThree).pool.stoppedWorkers = [1] := by decide +kernel
  rw [size, stopped] at grows
  obtain ⟨-, attended⟩ := rouses (.dispatch quickJob) _ rfl (by decide +kernel)
  exact ⟨count.trans size, grows, attended (by decide +kernel)⟩

end JobPool
