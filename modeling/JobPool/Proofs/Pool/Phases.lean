/-
JobPool.Proofs.Pool.Phases — the status machine of a pool.

`Site.Tends` says which moves touch the status and its times, and which workers a change can
create or start again follows from the status in which it happens. So each move goes along
with the status machine (`Site.Phased`), and the status after a row of moves is that of the
machine after these moves.

  §1 One move
  §2 Rows of moves
-/
import JobPool.Proofs.Pool.Orderly
import JobPool.Proofs.Pool.Rest
import JobPool.Proofs.Pool.Tending

namespace JobPool

open Pool (Change Changes Deed)

/-! ## §1 One move -/

namespace Pool

/-- Without a pool that runs, no worker is created or started again. -/
theorem Sound.generations_of_change {p q : Pool} {d : Option Deed} (h : p.Sound)
    (change : Change p d q) (rests : p.status ≠ .running) :
    q.workers.map (·.generation) = p.workers.map (·.generation) := by
  refine List.ext_getElem? fun w => ?_
  rw [List.getElem?_map, List.getElem?_map]
  cases found' : q.workers[w]? with
  | none =>
    cases found : p.workers[w]? with
    | none => rfl
    | some k =>
      obtain ⟨k', was, -⟩ := (later_of_change change).generations w k found
      rw [found'] at was
      cases was
  | some k' =>
    rcases h.fate_of_change change found' with ⟨k, found, fate⟩ | new
    · rw [found, Option.map_some, Option.map_some, fate.generation]
    · exact absurd new.running rests

/-- Nor in a row of changes that do not start it. -/
theorem Sound.generations_of_changes {p q : Pool} {ds : List Deed} (h : p.Sound)
    (changes : Changes p ds q) (unstarted : .started ∉ ds) (rests : p.status ≠ .running) :
    q.workers.map (·.generation) = p.workers.map (·.generation) := by
  obtain ⟨-, -, same⟩ := changes.keeps
    (P := fun r => r.Sound ∧ r.status ≠ .running ∧
      r.workers.map (·.generation) = p.workers.map (·.generation))
    ⟨h, rests, rfl⟩ fun {r r' d} change among ⟨sound, rests, same⟩ => by
      refine ⟨sound.of_change change, ?_, (sound.generations_of_change change rests).trans same⟩
      rw [status_of_change change]
      unfold Deed.statusAfter
      split
      · exact absurd (among _ rfl) unstarted
      · simp
      · simp
      · exact rests
  exact same

end Pool

namespace Site

variable {s s' : Site} {m : Move}

theorem after_of_sparesFrame (free : m.sparesFrame = true) (status : Pool.Status) :
    status.after m = status := by
  cases m with
  | start | beginStop | beginRelease => cases free
  | _ => cases status <;> rfl

/-- The status is that of the machine, and the times go along with it. -/
theorem phased_of_tends (h : s.Tends m s')
    (hires : s'.pool.status = s.pool.status.after m → s'.pool.status = .running ∨
      s'.pool.workers.map (·.generation) = s.pool.workers.map (·.generation)) :
    s.Phased m s' := by
  have stays : ∀ {p : Pool}, s'.pool.frame = p.frame → p.status = s.pool.status →
      p.startedAt = s.pool.startedAt → p.stoppedAt = s.pool.stoppedAt →
      s.pool.status.after m = s.pool.status → s.Phased m s' := by
    intro p frame same startedAt stoppedAt rests
    have status : s'.pool.status = s.pool.status := (congrArg Pool.status frame :).trans same
    refine ⟨status.trans rests.symm, ?_, ?_, hires (status.trans rests.symm)⟩
    · rw [status, if_neg fun turns => turns.1 turns.2]
      exact (congrArg Pool.startedAt frame :).trans startedAt
    · rw [status, if_neg fun turns => turns.2 turns.1]
      exact (congrArg Pool.stoppedAt frame :).trans stoppedAt
  cases h with
  | spares free frame => exact stays frame rfl rfl rfl (after_of_sparesFrame free _)
  | refuses _ rests => exact stays rfl rfl rfl rfl rests
  | watches _ _ _ frame => exact stays frame rfl rfl rfl (by cases s.pool.status <;> rfl)
  | forwards _ _ frame => exact stays frame rfl rfl rfl (by cases s.pool.status <;> rfl)
  | goesOn _ _ frame => exact stays frame rfl rfl rfl (by cases s.pool.status <;> rfl)
  | abandons frame => exact stays frame rfl rfl rfl (by cases s.pool.status <;> rfl)
  | starts ready frame _ =>
    have status : s'.pool.status = .running := (congrArg Pool.status frame :)
    have startedAt : s'.pool.startedAt = some s.wall := (congrArg Pool.startedAt frame :)
    have stoppedAt : s'.pool.stoppedAt = s.pool.stoppedAt := (congrArg Pool.stoppedAt frame :)
    have after : s'.pool.status = s.pool.status.after .start := by
      rcases ready with ready | ready <;> rw [status, ready, Pool.Status.after]
    have rests : s.pool.status ≠ .running := by
      rcases ready with ready | ready <;> simp [ready]
    refine ⟨after, ?_, ?_, hires after⟩
    · simp [rests, status, startedAt]
    · simp [rests, stoppedAt]
  | stops running frame =>
    have status : s'.pool.status = .stopped := (congrArg Pool.status frame :)
    have startedAt : s'.pool.startedAt = s.pool.startedAt := (congrArg Pool.startedAt frame :)
    have stoppedAt : s'.pool.stoppedAt = some s.wall := (congrArg Pool.stoppedAt frame :)
    have after : s'.pool.status = s.pool.status.after .beginStop := by
      rw [status, running, Pool.Status.after]
    refine ⟨after, ?_, ?_, hires after⟩
    · simp [status, startedAt]
    · simp [running, status, stoppedAt]
  | releases unreleased frame =>
    have status : s'.pool.status = .released := (congrArg Pool.status frame :)
    have startedAt : s'.pool.startedAt = s.pool.startedAt := (congrArg Pool.startedAt frame :)
    have stoppedAt : s'.pool.stoppedAt =
        if s.pool.status = .running then some s.wall else s.pool.stoppedAt :=
      (congrArg Pool.stoppedAt frame :)
    have after : s'.pool.status = s.pool.status.after .beginRelease := by
      rw [status, Pool.Status.after]
    refine ⟨after, ?_, ?_, hires after⟩
    · simp [status, startedAt]
    · simp [status, stoppedAt]

theorem workers_beginStop (s : Site) : s.beginStop.2.pool.workers = s.pool.workers := by
  unfold beginStop
  split <;> rfl

theorem workers_beginRelease (s : Site) : s.beginRelease.2.pool.workers = s.pool.workers := by
  unfold beginRelease
  split <;> rfl

/-- A worker that is created or started again is so in a pool that runs. -/
theorem hires_of_move (sound : s.pool.Sound) (moved : s.move m = some s')
    (status : s'.pool.status = s.pool.status.after m) : s'.pool.status = .running ∨
      s'.pool.workers.map (·.generation) = s.pool.workers.map (·.generation) := by
  by_cases runs : s.pool.status = .running
  · rw [runs] at status
    cases m with
    | beginStop =>
      cases moved
      exact .inr (by rw [workers_beginStop])
    | beginRelease =>
      cases moved
      exact .inr (by rw [workers_beginRelease])
    | _ => exact .inl status
  · by_cases starts : m = .start
    · subst starts
      cases was : s.pool.status with
      | pending => exact .inl (by rw [status, was, Pool.Status.after])
      | stopped => exact .inl (by rw [status, was, Pool.Status.after])
      | running => exact absurd was runs
      | released =>
        cases moved
        exact .inr (by rw [(refuses_of_released was).start])
    · obtain ⟨ds, does⟩ := changes_of_move moved
      have noStart : m.isNoStart = true := by
        cases m with
        | start => exact absurd rfl starts
        | _ => rfl
      exact .inr (sound.generations_of_changes does.changes
        (fun started => unstarted_of_may noStart (does.may _ started) rfl) runs)

/-- A move goes along with the status machine. -/
theorem phased_of_move (sound : s.pool.Sound) (moved : s.move m = some s') : s.Phased m s' :=
  phased_of_tends (tends_of_move moved) (hires_of_move sound moved)

theorem answers (s : Site) : s.Answers where
  start := by
    unfold start
    cases s.pool.status <;> simp
  startAgain running := by simp [start, running]
  stop := by
    unfold beginStop
    split <;> simp_all
  stopRefused rests := by simp [beginStop, rests]
  releaseAgain released := (refuses_of_released released).release
  dispatch job := by
    unfold dispatch
    cases enqueued : s.driver.enqueue job with
    | mk ok driver => cases status : s.pool.status <;> cases ok <;> simp [Pool.Status.takesJobs]
  dispatchRefused _ := dispatch_refused
  spawnWorkers rests := by simp [spawnWorkers, rests]

end Site

/-! ## §2 Rows of moves -/

variable {name : String} {settings : Settings} {driver : Driver Job} {hub : Hub} {wall : Nat}
  {picks : Picks} {ms : List (Site × Move)} {s : Site}

/-- The status is that of the machine after the same moves. -/
theorem Path.status_eq {start : Site} (path : Path start ms s) (sound : start.pool.Regular) :
    s.pool.status = ms.foldl (fun status x => status.after x.2) start.pool.status := by
  induction path with
  | here => rfl
  | step m path moved ih =>
    rw [List.foldl_concat, ← ih]
    exact (Site.phased_of_move (path.regular sound).sound moved).status

/-- A pool without a time of start has no workers. -/
theorem Path.unstaffed (path : Path (.create name settings driver hub wall picks) ms s)
    (unstarted : s.pool.startedAt = none) : s.pool.status ≠ .running ∧ s.pool.workers = [] := by
  induction path with
  | here => exact ⟨by simp [Site.create, Pool.create], rfl⟩
  | @step s s' ms m path moved ih =>
    have sound := (path.regular (Pool.regular_create name settings)).sound
    have phased := Site.phased_of_move sound moved
    have startedAt := phased.startedAt
    rw [unstarted] at startedAt
    split at startedAt
    · cases startedAt
    · rename_i unturned
      obtain ⟨rests, none_yet⟩ := ih startedAt.symm
      have rests' : s'.pool.status ≠ .running := fun runs => unturned ⟨rests, runs⟩
      refine ⟨rests', ?_⟩
      have same := phased.hires.resolve_left rests'
      rw [none_yet] at same
      exact List.map_eq_nil_iff.1 same

/-- Whatever moves are made at a pool, its status is that of the machine; each further move goes
along with the machine, and calls answer as the status says. A stop that begins returns if all
tasks have their turns. A pool without a time of start has no workers. Where calls come in turn
and no listener panics while it is made, a running pool has one watcher and one forwarder that go
on, and one that does not run has none when the stops and releases have returned. -/
theorem phases_of_path (path : Path (.create name settings driver hub wall picks) ms s) :
    s.pool.status = ms.foldl (fun status x => status.after x.2) .pending ∧
    (∀ m s', s.move m = some s' → s.Phased m s') ∧ s.Answers ∧
    (∀ (c : CallId) (σ : Schedule), s.beginStop.1 = some c → σ.state 0 = s.beginStop.2 →
      (∀ t, σ.IsFair t) → ∃ n, (σ.state n).pool.calls[c]? = some .returned) ∧
    (s.pool.startedAt = none → s.pool.workers = []) ∧
    ((∀ x ∈ ms, x.1.InTurn x.2) → (∀ x ∈ ms, x.1.Calm x.2) →
      (s.pool.status = .running → s.pool.watchers = 1 ∧ s.pool.forwarders = 1) ∧
      (s.pool.status ≠ .running → s.pool.isSettled = true →
        s.pool.watchers = 0 ∧ s.pool.forwarders = 0)) := by
  have create := Pool.regular_create name settings
  have sound := (path.regular create).sound
  refine ⟨path.status_eq create, fun m s' => Site.phased_of_move sound, s.answers,
    fun c σ begins state => Schedule.returns_of_beginStop path begins state,
    fun unstarted => (path.unstaffed unstarted).2, fun inTurn calm => ?_⟩
  have tended := path.tended create (Pool.tended_create name settings) inTurn calm
  exact ⟨tended.one_each, tended.none_left⟩

namespace Sample

/-- What happens until the pool is stopped, with a job in hand. -/
def stopWhileBusy : List Move := takeFirstOfTwo ++ .beginStop :: untilStopReturns

/-- What happens until the pool, which was stopped, is started again. -/
def stopAndRestart : List Move := stopWhileBusy ++ [.start]

/-- What happens after the stop begins: it returns, and the job in hand comes to its end. -/
def untilJobDone : List Move := untilStopReturns ++ [.task (.loop 0), .task (.loop 0)]

end Sample

open Sample

/-- The pool has no upkeep when the stop has returned, which it does on a schedule, and when it
runs again the watcher and the forwarder of its first start are not among those that go on. -/
theorem phases_of_path_resuming :
    (oneWorker.plays stopWhileBusy).pool.status = .stopped ∧
      (oneWorker.plays stopWhileBusy).pool.watchers = 0 ∧
      (oneWorker.plays stopWhileBusy).pool.forwarders = 0 ∧
      (oneWorker.plays stopAndRestart).pool.status = .running ∧
      (oneWorker.plays stopAndRestart).pool.upkeeps.length = 2 ∧
      (oneWorker.plays stopAndRestart).pool.watchers = 1 ∧
      (oneWorker.plays stopAndRestart).pool.forwarders = 1 ∧
      (oneWorker.plays stopAndRestart).start = (true, oneWorker.plays stopAndRestart) ∧
      ∃ σ : Schedule, σ.state 0 = (oneWorker.plays takeFirstOfTwo).beginStop.2 ∧
        ∃ n, (σ.state n).pool.calls[0]? = some .returned := by
  have engaged := Site.path_of_plays takeFirstOfTwo oneWorker (by decide +kernel)
  have ceased := Site.path_of_plays stopWhileBusy oneWorker (by decide +kernel)
  have resumed := Site.path_of_plays stopAndRestart oneWorker (by decide +kernel)
  obtain ⟨-, -, -, returns, -⟩ := phases_of_path engaged
  obtain ⟨stopped, -, -, -, -, tended⟩ := phases_of_path ceased
  obtain ⟨running, -, answers, -, -, tended'⟩ := phases_of_path resumed
  have stopped : (oneWorker.plays stopWhileBusy).pool.status = .stopped :=
    stopped.trans (by decide +kernel)
  have running : (oneWorker.plays stopAndRestart).pool.status = .running :=
    running.trans (by decide +kernel)
  obtain ⟨-, left⟩ := tended (by decide +kernel) (by decide +kernel)
  obtain ⟨goes, -⟩ := tended' (by decide +kernel) (by decide +kernel)
  obtain ⟨no_watcher, no_forwarder⟩ := left (by rw [stopped]; decide) (by decide +kernel)
  obtain ⟨watcher, forwarder⟩ := goes running
  have able : ((oneWorker.plays takeFirstOfTwo).beginStop.2.trail untilJobDone).all
      (fun x => (x.1.move x.2).isSome) = true := by decide +kernel
  have fair := (Site.favoursAll_schedule able (by decide +kernel) (by decide +kernel)
    (by decide +kernel)).fair
  exact ⟨stopped, no_watcher, no_forwarder, running, by decide +kernel, watcher, forwarder,
    answers.startAgain running, _, rfl, returns 0 _ (by decide +kernel) rfl fair⟩

end JobPool
